import Mathlib.Logic.Function.Basic
import ScriptAnalysis.Proofs.Propagation.Step

/-!
Traces of reactions. A disciplined reaction reads nothing but the inputs of its rule, which are set when it
runs and stay as they are. What it does is therefore fixed by their values: it leaves a trace of writes,
findings and chained rules (`Reaction.run_eq_follow`), and the same trace on every larger table
(`Rule.Settles.mono`).
-/
namespace ScriptAnalysis

abbrev Slots := Attribute → Option Slot

namespace Slots

def value? (s : Slots) (a : Attribute) : Option Value :=
  match s a with
  | some (.set v) => some v
  | _ => none

/-- Fills a slot that is unknown; a known one stays as it is. -/
def write (s : Slots) (w : Attribute × Slot) : Slots :=
  Function.update s w.1 (some ((s w.1).getD w.2))

def writeAll (s : Slots) (ws : List (Attribute × Slot)) : Slots := ws.foldl write s

variable {s : Slots} {w w' : Attribute × Slot} {ws ws' : List (Attribute × Slot)} {a : Attribute}

theorem value?_eq_some {v : Value} : s.value? a = some v ↔ s a = some (.set v) := by
  unfold value?
  split <;> simp_all

theorem write_comm (h : w.1 ≠ w'.1) : (s.write w).write w' = (s.write w').write w := by
  unfold write
  rw [Function.update_of_ne h.symm, Function.update_of_ne h, Function.update_comm h]

theorem writeAll_write (h : ∀ w' ∈ ws, w.1 ≠ w'.1) :
    (s.write w).writeAll ws = (s.writeAll ws).write w := by
  induction ws generalizing s with
  | nil => rfl
  | cons x ws ih =>
    rw [List.forall_mem_cons] at h
    show ((s.write w).write x).writeAll ws = ((s.write x).writeAll ws).write w
    rw [write_comm h.1, ih h.2]

/-- Writes to different attributes may be done in any order. -/
theorem writeAll_comm (h : ∀ w ∈ ws, ∀ w' ∈ ws', w.1 ≠ w'.1) :
    (s.writeAll ws).writeAll ws' = (s.writeAll ws').writeAll ws := by
  induction ws generalizing s with
  | nil => rfl
  | cons w ws ih =>
    rw [List.forall_mem_cons] at h
    show ((s.write w).writeAll ws).writeAll ws' = ((s.writeAll ws').write w).writeAll ws
    rw [ih h.2, writeAll_write h.1]

theorem writeAll_of_known {x : Slot} (h : s a = some x) : s.writeAll ws a = some x := by
  induction ws generalizing s with
  | nil => exact h
  | cons w ws ih =>
    apply ih
    unfold write
    by_cases hw : a = w.1
    · subst hw
      rw [Function.update_self, h]
      rfl
    · rw [Function.update_of_ne hw]
      exact h

end Slots

namespace Attributes

def writeAll (t : Attributes) (ws : List (Attribute × Slot)) : Attributes :=
  ws.foldl (fun t w => t.write w.1 w.2) t

theorem slot?_write_eq (t : Attributes) (w : Attribute × Slot) :
    (t.write w.1 w.2).slot? = Slots.write t.slot? w := by
  funext b
  rw [slot?_write, Slots.write, Function.update_apply]
  by_cases h : w.1 = b
  · rw [if_pos h, if_pos h.symm]
  · rw [if_neg h, if_neg (Ne.symm h)]

theorem slot?_writeAll (t : Attributes) (ws : List (Attribute × Slot)) :
    (t.writeAll ws).slot? = Slots.writeAll t.slot? ws := by
  induction ws generalizing t with
  | nil => rfl
  | cons w ws ih =>
    show ((t.write w.1 w.2).writeAll ws).slot? = Slots.writeAll (Slots.write t.slot? w) ws
    rw [ih, slot?_write_eq]

theorem failAll_eq_writeAll (t : Attributes) (as : List Attribute) :
    t.failAll as = t.writeAll (as.map (·, .failed)) := by
  unfold failAll writeAll
  rw [List.foldl_map]
  rfl

end Attributes

structure Trace where
  writes : List (Attribute × Slot) := []
  diagnostics : List Diagnostic := []
  chained : List Rule := []

def Trace.on (tr : Trace) (t : Attributes) : Effect :=
  ⟨t.writeAll tr.writes, tr.diagnostics, tr.chained⟩

namespace Reaction

/-- The trace of a reaction to given values; chained rules belong to the given node. -/
def follow (node : Node) (values : Attribute → Option Value) : Reaction → Except Fault Trace
  | .done => .ok {}
  | .read a next => (next (values a)).follow node values
  | .set a v next => do
    let tr ← next.follow node values
    return { tr with writes := (a, .set v) :: tr.writes }
  | .fail a next => do
    let tr ← next.follow node values
    return { tr with writes := (a, .failed) :: tr.writes }
  | .report d next => do
    let tr ← next.follow node values
    return { tr with diagnostics := d :: tr.diagnostics }
  | .chain label inputs outputs body next => do
    let tr ← next.follow node values
    return { tr with chained := { label, inputs, outputs, node, body } :: tr.chained }
  | .fault f => .error f

/-- A reaction that reads nothing but the given inputs, and chains at most one rule on its way, or none,
as does what it chains. What it does if an input is not set does not count. -/
def Disciplined : (inputs : List Attribute) → (mayChain : Bool) → Reaction → Prop
  | _, _, .done | _, _, .fault _ => True
  | inputs, mayChain, .read a next => a ∈ inputs ∧ ∀ v, (next (some v)).Disciplined inputs mayChain
  | inputs, mayChain, .set _ _ next | inputs, mayChain, .fail _ next
  | inputs, mayChain, .report _ next => next.Disciplined inputs mayChain
  | inputs, mayChain, .chain _ inputs' _ body next =>
    mayChain = true ∧ body.Disciplined inputs' true ∧ next.Disciplined inputs false

/-- A reaction may write an attribute, or a rule that it chains may. -/
def Writes (a : Attribute) : Reaction → Prop
  | .done | .fault _ => False
  | .read _ next => ∃ v, (next (some v)).Writes a
  | .set b _ next | .fail b next => a = b ∨ next.Writes a
  | .report _ next => next.Writes a
  | .chain _ _ outputs body next => a ∈ outputs ∨ body.Writes a ∨ next.Writes a

theorem disciplined_readType {inputs : List Attribute} {mayChain : Bool} {a : Attribute}
    {next : Ty → Reaction} (ha : a ∈ inputs) (h : ∀ t, (next t).Disciplined inputs mayChain) :
    (readType a next).Disciplined inputs mayChain := by
  refine ⟨ha, fun v => ?_⟩
  cases v with
  | type t => exact h t
  | _ => trivial

theorem writes_readType {a b : Attribute} {next : Ty → Reaction} :
    (readType a next).Writes b ↔ ∃ t, (next t).Writes b := by
  constructor
  · rintro ⟨v, hv⟩
    cases v with
    | type t => exact ⟨t, hv⟩
    | _ => cases hv
  · rintro ⟨t, ht⟩
    exact ⟨.type t, ht⟩

end Reaction

namespace Rule

def Disciplined (r : Rule) : Prop := r.body.Disciplined r.inputs true

/-- An attribute that no rule but this one may write. -/
def Owns (r : Rule) (a : Attribute) : Prop := a ∈ r.outputs ∨ r.body.Writes a

end Rule

namespace Reaction

variable {inputs : List Attribute} {mayChain : Bool} {node : Node} {r : Reaction}
  {values values' : Attribute → Option Value}

/-- A disciplined reaction does on a table what its trace says. -/
theorem run_eq_follow {t : Attributes} (hd : r.Disciplined inputs mayChain)
    (hv : ∀ a ∈ inputs, ∃ v, t.get? a = some v ∧ values a = some v) :
    r.run node t = (r.follow node values).map (·.on t) := by
  induction r generalizing t mayChain with
  | done => rfl
  | fault f => rfl
  | read a next ih =>
    obtain ⟨v, ht, hvalue⟩ := hv a hd.1
    rw [run, follow, ht, hvalue]
    exact ih (some v) (hd.2 v) hv
  | set a v next ih =>
    rw [run, follow, ih hd fun b hb => ?_]
    · cases next.follow node values <;> rfl
    · obtain ⟨u, ht, hu⟩ := hv b hb
      exact ⟨u, (t.grows_set a v).get? ht, hu⟩
  | fail a next ih =>
    rw [run, follow, ih hd fun b hb => ?_]
    · cases next.follow node values <;> rfl
    · obtain ⟨u, ht, hu⟩ := hv b hb
      exact ⟨u, (t.grows_fail a).get? ht, hu⟩
  | report d next ih =>
    rw [run, follow, ih hd hv]
    cases next.follow node values <;> rfl
  | chain label inputs' outputs body next _ ih =>
    rw [run, follow, ih hd.2.2 hv]
    cases next.follow node values <;> rfl

/-- The trace depends on the values of the inputs only. -/
theorem follow_congr (hd : r.Disciplined inputs mayChain)
    (hv : ∀ a ∈ inputs, ∃ v, values a = some v ∧ values' a = some v) :
    r.follow node values = r.follow node values' := by
  induction r generalizing mayChain with
  | done => rfl
  | fault f => rfl
  | read a next ih =>
    obtain ⟨v, hvalue, hvalue'⟩ := hv a hd.1
    rw [follow, follow, hvalue, hvalue']
    exact ih (some v) (hd.2 v)
  | set a v next ih => rw [follow, follow, ih hd]
  | fail a next ih => rw [follow, follow, ih hd]
  | report d next ih => rw [follow, follow, ih hd]
  | chain label inputs' outputs body next _ ih => rw [follow, follow, ih hd.2.2]

end Reaction

/-- A trace that writes what the reaction may write, and hands on at most one rule of the same form. -/
structure Trace.Fits (tr : Trace) (mayWrite : Attribute → Prop) (mayChain : Bool) : Prop where
  writes : ∀ w ∈ tr.writes, mayWrite w.1
  disciplined : ∀ c ∈ tr.chained, c.Disciplined
  owns : ∀ c ∈ tr.chained, ∀ a, c.Owns a → mayWrite a
  count : tr.chained.length ≤ mayChain.toNat

theorem Trace.Fits.mono {tr : Trace} {P Q : Attribute → Prop} {mayChain : Bool}
    (h : tr.Fits P mayChain) (hPQ : ∀ a, P a → Q a) : tr.Fits Q mayChain where
  writes w hw := hPQ _ (h.writes w hw)
  disciplined := h.disciplined
  owns c hc a ha := hPQ a (h.owns c hc a ha)
  count := h.count

theorem Reaction.fits_of_follow {inputs : List Attribute} {mayChain : Bool} {node : Node} {r : Reaction}
    {values : Attribute → Option Value} {tr : Trace} (hd : r.Disciplined inputs mayChain)
    (hv : ∀ a ∈ inputs, ∃ v, values a = some v) (h : r.follow node values = .ok tr) :
    tr.Fits (fun a => r.Writes a) mayChain := by
  induction r generalizing mayChain tr with
  | done =>
    cases h
    exact ⟨by simp, by simp, by simp, by simp⟩
  | fault f => cases h
  | read a next ih =>
    obtain ⟨v, hvalue⟩ := hv a hd.1
    rw [follow, hvalue] at h
    exact (ih (some v) (hd.2 v) h).mono fun b hb => ⟨v, hb⟩
  | set a v next ih =>
    obtain ⟨tr', hn, rfl⟩ := exists_of_do h
    have hfits := (ih hd hn).mono (Q := fun b => b = a ∨ next.Writes b) fun b hb => .inr hb
    exact { hfits with writes := List.forall_mem_cons.2 ⟨.inl rfl, hfits.writes⟩ }
  | fail a next ih =>
    obtain ⟨tr', hn, rfl⟩ := exists_of_do h
    have hfits := (ih hd hn).mono (Q := fun b => b = a ∨ next.Writes b) fun b hb => .inr hb
    exact { hfits with writes := List.forall_mem_cons.2 ⟨.inl rfl, hfits.writes⟩ }
  | report d next ih =>
    obtain ⟨tr', hn, rfl⟩ := exists_of_do h
    exact { ih hd hn with }
  | chain label inputs' outputs body next _ ih =>
    obtain ⟨rfl, hbody, hnext⟩ := hd
    obtain ⟨tr', hn, rfl⟩ := exists_of_do h
    have hfits := ih hnext hn
    have hnil : tr'.chained = [] := List.length_eq_zero_iff.1 (Nat.le_zero.1 hfits.count)
    refine ⟨fun w hw => .inr (.inr (hfits.writes w hw)), ?_, ?_, ?_⟩
    · rw [hnil]
      exact List.forall_mem_singleton.2 hbody
    · rw [hnil]
      intro c hc a ha
      obtain rfl := List.mem_singleton.1 hc
      rcases ha with ha | ha
      · exact .inl ha
      · exact .inr (.inl ha)
    · rw [hnil]
      exact Nat.le_refl 1

namespace Rule

inductive Settles (s : Slots) (r : Rule) : Trace → Prop
  | drop (a : Attribute) (ha : a ∈ r.inputs) (h : s a = some .failed) :
      Settles s r { writes := r.outputs.map (·, .failed) }
  | fire {tr : Trace} (inputs : ∀ a ∈ r.inputs, ∃ v, s.value? a = some v)
      (run : r.body.follow r.node s.value? = .ok tr) : Settles s r tr

variable {s s' : Slots} {r : Rule} {tr tr' : Trace}

/-- A rule with a failed input has no value for it. -/
theorem not_set_of_failed {a : Attribute} (ha : a ∈ r.inputs) (h : s a = some .failed)
    (inputs : ∀ a ∈ r.inputs, ∃ v, s.value? a = some v) : False := by
  obtain ⟨v, hv⟩ := inputs a ha
  rw [Slots.value?_eq_some, h] at hv
  cases hv

theorem Settles.unique (h : Settles s r tr) (h' : Settles s r tr') : tr = tr' := by
  cases h with
  | drop a ha hf =>
    cases h' with
    | drop => rfl
    | fire inputs run => exact (not_set_of_failed ha hf inputs).elim
  | fire inputs run =>
    cases h' with
    | drop a ha hf => exact (not_set_of_failed ha hf inputs).elim
    | fire inputs' run' =>
      rw [run] at run'
      exact Except.ok.inj run'

/-- The values of inputs that are set stay when more becomes known. -/
theorem values_mono (hs : ∀ a x, s a = some x → s' a = some x)
    (inputs : ∀ a ∈ r.inputs, ∃ v, s.value? a = some v) :
    ∀ a ∈ r.inputs, ∃ v, s.value? a = some v ∧ s'.value? a = some v := by
  intro a ha
  obtain ⟨v, hv⟩ := inputs a ha
  exact ⟨v, hv, Slots.value?_eq_some.2 (hs a _ (Slots.value?_eq_some.1 hv))⟩

/-- A rule is settled alike when more is known. -/
theorem Settles.mono (hd : r.Disciplined) (hs : ∀ a x, s a = some x → s' a = some x)
    (h : Settles s r tr) : Settles s' r tr := by
  cases h with
  | drop a ha hf => exact .drop a ha (hs a _ hf)
  | fire inputs run =>
    have hv := values_mono hs inputs
    apply Settles.fire
    · intro a ha
      obtain ⟨v, _, hv'⟩ := hv a ha
      exact ⟨v, hv'⟩
    · rw [← Reaction.follow_congr hd hv]
      exact run

theorem Settles.fits (hd : r.Disciplined) (h : Settles s r tr) : tr.Fits r.Owns true := by
  cases h with
  | drop a ha hf =>
    refine ⟨?_, by simp, by simp, by simp⟩
    intro w hw
    obtain ⟨b, hb, rfl⟩ := List.mem_map.1 hw
    exact .inl hb
  | fire inputs run => exact (Reaction.fits_of_follow hd inputs run).mono fun a ha => .inr ha

end Rule

end ScriptAnalysis
