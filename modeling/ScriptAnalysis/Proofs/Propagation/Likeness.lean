import Mathlib.Data.List.Forall2
import ScriptAnalysis.Proofs.Propagation.Confinement
import ScriptAnalysis.Proofs.Propagation.Sweeps

/-!
Reactions that differ within a frame. A frame says which attributes may be read in each other's place, what
may be written and which findings stand for each other (`Reaction.Frame`). Reactions that are alike in a
frame, run on tables that share what they read, leave tables and findings that are alike
(`Reaction.run_of_like`). Rules that differ in the places of nodes only are settled in step: they leave the
same table and findings that are alike one by one (`Rule.resolve_of_like`).
-/
namespace ScriptAnalysis

inductive Diagnostic.Like (N : Node → Node → Prop) : Diagnostic → Diagnostic → Prop
  | atNode {cause n n'} (h : N n n') : Like N (.atNode cause n) (.atNode cause n')

/-- The table once the declaration of an attribute, if it has one, has been passed on to another. -/
def Attributes.pass (t : Attributes) (a b : Attribute) : Attributes :=
  match t.get? a with
  | some (.decl d) => t.set b (.decl d)
  | _ => t

theorem Attributes.grows_pass (t : Attributes) (a b : Attribute) : t.Grows (t.pass a b) := by
  unfold pass
  split
  · exact t.grows_set b _
  · exact .refl t

namespace Reaction

structure Frame where
  told : Diagnostic → Diagnostic → Prop
  reads : Attribute → Attribute → Prop
  holds : Attribute → Value → Prop
  writes : Attribute → Prop
  /-- The attributes whose declarations may be passed on to a third. -/
  passes : Attribute → Attribute → Attribute → Prop

/-- Passes on a declaration that has been read. -/
def passing (b : Attribute) (next : Reaction) : Option Value → Reaction
  | some (.decl d) => .set b (.decl d) next
  | _ => next

/-- Reactions of which the second does what the first does, both with inputs of their own. -/
inductive Like (F : Frame) : (inputs inputs' : List Attribute) → Reaction → Reaction → Prop
  | done {inputs inputs'} : Like F inputs inputs' .done .done
  | read {inputs inputs' a a' next next'} (ha : a ∈ inputs) (ha' : a' ∈ inputs') (hreads : F.reads a a')
      (hnone : next none = .fault .unsetInput)
      (h : ∀ v, F.holds a v → Like F inputs inputs' (next (some v)) (next' (some v))) :
      Like F inputs inputs' (.read a next) (.read a' next')
  | pass {inputs inputs' a a' b next next'} (hpasses : F.passes a a' b)
      (hunset : next ≠ .fault .unsetInput) (hkind : next ≠ .fault .wrongKind)
      (h : Like F inputs inputs' next next') :
      Like F inputs inputs' (.read a (passing b next)) (.read a' (passing b next'))
  | set {inputs inputs' a v next next'} (ha : F.writes a) (h : Like F inputs inputs' next next') :
      Like F inputs inputs' (.set a v next) (.set a v next')
  | fail {inputs inputs' a next next'} (ha : F.writes a) (h : Like F inputs inputs' next next') :
      Like F inputs inputs' (.fail a next) (.fail a next')
  | report {inputs inputs' d d' next next'} (hd : F.told d d') (h : Like F inputs inputs' next next') :
      Like F inputs inputs' (.report d next) (.report d' next')
  | chain {inputs inputs' label ins outs body body' next next'} (hins : ∀ a ∈ ins, F.reads a a)
      (houts : ∀ a ∈ outs, F.writes a) (hbody : Like F ins ins body body')
      (h : Like F inputs inputs' next next') :
      Like F inputs inputs' (.chain label ins outs body next) (.chain label ins outs body' next')
  | fault {inputs inputs' f r} : Like F inputs inputs' (.fault f) r

variable {F : Frame}

/-- A reaction that is like another, whatever the values are, is confined to its inputs. -/
theorem Like.confined {P : Diagnostic → Prop} {inputs inputs' : List Attribute} {r r' : Reaction}
    (h : r.Like F inputs inputs' r') (htold : ∀ x x', F.told x x' → P x) (hholds : ∀ a v, F.holds a v) :
    r.Confined P inputs := by
  induction h with
  | done | fault => trivial
  | read ha _ _ hnone _ ih =>
    refine ⟨.inl ha, fun o => ?_⟩
    cases o with
    | none =>
      rw [hnone]
      trivial
    | some v => exact ih v (hholds _ v)
  | pass _ hunset hkind _ ih =>
    refine ⟨.inr fun o => ?_, fun o => ?_⟩
    · unfold passing
      split
      · simp [told]
      · exact ⟨hunset, hkind, fun _ => rfl⟩
    · unfold passing
      split
      · exact ih
      · exact ih
  | set _ _ ih | fail _ _ ih => exact ih
  | report hd _ ih => exact ⟨htold _ _ hd, ih⟩
  | chain _ _ _ _ ihBody ih => exact ⟨ihBody, ih⟩

/-- What is read in each other's place has the same value in both tables. -/
def Frame.Shares (F : Frame) (inputs inputs' : List Attribute) (t t' : Attributes) : Prop :=
  ∀ a ∈ inputs, ∀ a' ∈ inputs', F.reads a a' →
    ∃ v, F.holds a v ∧ t.get? a = some v ∧ t'.get? a' = some v

theorem Frame.Shares.grows {inputs inputs' : List Attribute} {t t' u u' : Attributes}
    (h : F.Shares inputs inputs' t t') (ht : t.Grows u) (ht' : t'.Grows u') :
    F.Shares inputs inputs' u u' := by
  intro a ha a' ha' hreads
  obtain ⟨v, hv, hget, hget'⟩ := h a ha a' ha' hreads
  exact ⟨v, hv, ht.get? hget, ht'.get? hget'⟩

structure Frame.Carries (F : Frame) (T : Attributes → Attributes → Prop) : Prop where
  write : ∀ {t t' a} (s), F.writes a → T t t' → T (t.write a s) (t'.write a s)
  pass : ∀ {t t' a a' b}, F.passes a a' b → T t t' → T (t.pass a b) (t'.pass a' b)

end Reaction

open Reaction (Frame)

structure Rule.Like (F : Frame) (r r' : Rule) : Prop where
  inputs : List.Forall₂ F.reads r.inputs r'.inputs
  outputs : r.outputs = r'.outputs
  writes : ∀ a ∈ r.outputs, F.writes a
  body : r.body.Like F r.inputs r'.inputs r'.body

structure Effect.Like (F : Frame) (T : Attributes → Attributes → Prop) (e e' : Effect) : Prop where
  attributes : T e.attributes e'.attributes
  diagnostics : List.Forall₂ F.told e.diagnostics e'.diagnostics
  chained : List.Forall₂ (Rule.Like F) e.chained e'.chained

theorem Reaction.run_read_passing (node : Node) (t : Attributes) (a b : Attribute) (next : Reaction) :
    (Reaction.read a (passing b next)).run node t = next.run node (t.pass a b) := by
  rw [run, Attributes.pass]
  cases t.get? a with
  | none => rfl
  | some v => cases v <;> rfl

/-- Reactions that are alike leave alike what they leave. -/
theorem Reaction.run_of_like {F : Frame} {T : Attributes → Attributes → Prop} (hT : F.Carries T)
    {inputs inputs' : List Attribute} {r r' : Reaction} (h : r.Like F inputs inputs' r')
    {t t' : Attributes} (hshares : F.Shares inputs inputs' t t') (ht : T t t') (node node' : Node)
    {e : Effect} (he : r.run node t = .ok e) :
    ∃ e', r'.run node' t' = .ok e' ∧ e.Like F T e' := by
  induction h generalizing t t' e with
  | done =>
    cases he
    exact ⟨_, rfl, ht, .nil, .nil⟩
  | read ha ha' hreads _ _ ih =>
    obtain ⟨v, hv, hget, hget'⟩ := hshares _ ha _ ha' hreads
    rw [run, hget] at he
    rw [run, hget']
    exact ih v hv hshares ht he
  | pass hpasses _ _ _ ih =>
    rw [run_read_passing] at he ⊢
    exact ih (hshares.grows (t.grows_pass _ _) (t'.grows_pass _ _)) (hT.pass hpasses ht) he
  | set ha _ ih | fail ha _ ih =>
    exact ih (hshares.grows (t.grows_write _ _) (t'.grows_write _ _)) (hT.write _ ha ht) he
  | @report _ _ d d' _ _ hd _ ih =>
    obtain ⟨e₁, he₁, rfl⟩ := exists_of_do he
    obtain ⟨e₁', he₁', hlike⟩ := ih hshares ht he₁
    exact ⟨{ e₁' with diagnostics := d' :: e₁'.diagnostics }, by rw [run, he₁']; rfl,
      hlike.attributes, .cons hd hlike.diagnostics, hlike.chained⟩
  | @chain _ _ label ins outs _ body' _ _ hins houts hbody _ _ ih =>
    obtain ⟨e₁, he₁, rfl⟩ := exists_of_do he
    obtain ⟨e₁', he₁', hlike⟩ := ih hshares ht he₁
    exact ⟨{ e₁' with chained := ⟨label, ins, outs, node', body'⟩ :: e₁'.chained },
      by rw [run, he₁']; rfl, hlike.attributes, hlike.diagnostics,
      .cons ⟨List.forall₂_same.2 hins, rfl, houts, hbody⟩ hlike.chained⟩
  | fault => cases he

/-! ### Rules that differ in places -/

variable {N : Node → Node → Prop}

def Reaction.Frame.relaid (N : Node → Node → Prop) : Frame where
  told := Diagnostic.Like N
  reads := Eq
  holds _ _ := True
  writes _ := True
  passes a a' _ := a = a'

theorem Reaction.Frame.carries_relaid : (Frame.relaid N).Carries Eq where
  write := by
    rintro t _ a s _ rfl
    rfl
  pass := by
    rintro t _ a _ b rfl rfl
    rfl

structure Sweep.Like (N : Node → Node → Prop) (s s' : Sweep) : Prop where
  attributes : s.attributes = s'.attributes
  diagnostics : List.Forall₂ (Diagnostic.Like N) s.diagnostics s'.diagnostics
  events : s.events.length = s'.events.length
  waiting : List.Forall₂ (Rule.Like (.relaid N)) s.waiting s'.waiting

namespace Rule

theorem Like.readiness {r r' : Rule} (h : r.Like (.relaid N) r') (t : Attributes) :
    r.readiness t = r'.readiness t := by
  have hinputs : List.Forall₂ Eq r.inputs r'.inputs := h.inputs
  rw [List.forall₂_eq_eq_eq] at hinputs
  rw [Rule.readiness, Rule.readiness, hinputs]

theorem sweep_of_like {rules rules' : List Rule} (h : List.Forall₂ (Rule.Like (.relaid N)) rules rules')
    {t : Attributes} {s : Sweep} (hs : sweep t rules = .ok s) :
    ∃ s', sweep t rules' = .ok s' ∧ s.Like N s' := by
  induction h generalizing t s with
  | nil =>
    cases hs
    exact ⟨_, rfl, rfl, .nil, rfl, .nil⟩
  | @cons r r' rest rest' hr _ ih =>
    rw [sweep] at hs
    rw [sweep, ← hr.readiness t]
    cases hready : r.readiness t with
    | waiting =>
      rw [hready] at hs
      obtain ⟨s₁, hs₁, rfl⟩ := exists_of_do hs
      obtain ⟨s₁', hs₁', hlike⟩ := ih hs₁
      exact ⟨{ s₁' with waiting := r' :: s₁'.waiting }, by simp only [hs₁']; rfl, hlike.attributes,
        hlike.diagnostics, hlike.events, .cons hr hlike.waiting⟩
    | blocked =>
      rw [hready, hr.outputs] at hs
      obtain ⟨s₁, hs₁, rfl⟩ := exists_of_do hs
      obtain ⟨s₁', hs₁', hlike⟩ := ih hs₁
      exact ⟨{ s₁' with events := .dropped r' :: s₁'.events }, by simp only [hs₁']; rfl,
        hlike.attributes, hlike.diagnostics, congrArg (· + 1) hlike.events, hlike.waiting⟩
    | ready =>
      rw [hready] at hs
      cases he : r.body.run r.node t with
      | error f =>
        simp only [he] at hs
        cases hs
      | ok e =>
        simp only [he] at hs
        obtain ⟨s₁, hs₁, rfl⟩ := exists_of_do hs
        have hshares : (Frame.relaid N).Shares r.inputs r'.inputs t t := by
          rintro a ha _ _ rfl
          obtain ⟨v, hv⟩ := Option.isSome_iff_exists.1 (readiness_eq_ready.1 hready a ha)
          exact ⟨v, trivial, hv, hv⟩
        obtain ⟨e', he', helike⟩ :=
          Reaction.run_of_like Frame.carries_relaid hr.body hshares rfl r.node r'.node he
        rw [helike.attributes] at hs₁
        obtain ⟨s₁', hs₁', hlike⟩ := ih hs₁
        refine ⟨⟨s₁'.attributes, e'.diagnostics ++ s₁'.diagnostics, .fired r' :: s₁'.events,
          e'.chained ++ s₁'.waiting⟩, ?_, hlike.attributes,
          List.rel_append helike.diagnostics hlike.diagnostics, congrArg (· + 1) hlike.events,
          List.rel_append helike.chained hlike.waiting⟩
        simp only [he', bind, Except.bind, hs₁']
        rfl

theorem settle_of_like {rules rules' : List Rule} (h : List.Forall₂ (Rule.Like (.relaid N)) rules rules')
    {t : Attributes} {s : Sweep} (hs : settle t rules = .ok s) :
    ∃ s', settle t rules' = .ok s' ∧ s.Like N s' := by
  induction rules using Agenda.shrinks_wf.induction generalizing rules' t s with
  | _ rules ih =>
    rw [settle] at hs
    split at hs
    · cases hs
    · next s₁ hs₁ =>
      obtain ⟨s₁', hs₁', hlike⟩ := sweep_of_like h hs₁
      have hevents : s₁.events = [] ↔ s₁'.events = [] := by
        rw [← List.length_eq_zero_iff, hlike.events, List.length_eq_zero_iff]
      have hwaiting : s₁.waiting = [] ↔ s₁'.waiting = [] := by
        rw [← List.length_eq_zero_iff, hlike.waiting.length_eq, List.length_eq_zero_iff]
      split at hs
      · next hend =>
        cases hs
        exact ⟨s₁', settle_of_done hs₁' (by rwa [← hevents, ← hwaiting]), hlike⟩
      · next hend =>
        have hshrinks : Agenda.Shrinks s₁.waiting rules :=
          (replaces_of_sweep hs₁).2 fun he => hend (.inl he)
        cases hlater : settle s₁.attributes s₁.waiting with
        | error f =>
          simp only [hlater] at hs
          cases hs
        | ok later =>
          simp only [hlater] at hs
          cases hs
          rw [hlike.attributes] at hlater
          obtain ⟨later', hlater', hlikeLater⟩ := ih _ hshrinks hlike.waiting hlater
          refine ⟨s₁'.followedBy later', settle_of_open hs₁' (by rwa [← hevents, ← hwaiting]) hlater',
            hlikeLater.attributes, List.rel_append hlike.diagnostics hlikeLater.diagnostics, ?_, hlikeLater.waiting⟩
          simp [Sweep.followedBy, hlike.events, hlikeLater.events]

/-- Rules that are alike and of which none gets stuck are resolved alike. -/
theorem resolve_of_like {rules rules' : List Rule} (h : List.Forall₂ (Rule.Like (.relaid N)) rules rules')
    {t : Attributes} {res : Resolution} (hres : resolve t rules = .ok res) (hstuck : res.stuck = []) :
    ∃ res', resolve t rules' = .ok res' ∧ res.attributes = res'.attributes ∧
      List.Forall₂ (Diagnostic.Like N) res.diagnostics res'.diagnostics := by
  obtain ⟨s, hs, rfl⟩ := exists_of_do hres
  obtain ⟨s', hs', hlike⟩ := settle_of_like h hs
  have hnil : s.waiting = [] := hstuck
  have hnil' : s'.waiting = [] := by
    rw [← List.length_eq_zero_iff, ← hlike.waiting.length_eq, hnil]
    rfl
  refine ⟨_, by rw [resolve, hs']; rfl, ?_, ?_⟩
  · simp only [hnil, hnil', List.foldl_nil]
    exact hlike.attributes
  · simp only [hnil, hnil', stuckDiagnostics, List.append_nil]
    exact hlike.diagnostics

end Rule

end ScriptAnalysis
