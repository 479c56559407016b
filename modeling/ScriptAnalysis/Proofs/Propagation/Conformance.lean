import Mathlib.Order.WellFounded
import ScriptAnalysis.Proofs.Propagation.Step

/-!
Rules that conform to a solution. A solution says what each attribute comes to. If every rule, fired
on a table within the solution, stays within it and leaves none of its outputs open, and if rules only
wait for attributes of lower rank that others supply, then resolution ends with nothing stuck, and the
table it ends in is the solution: `resolve_of_kept`.
-/
namespace ScriptAnalysis

def Cause.isStuck : Cause → Bool
  | .unresolvedAttribute _ | .cyclicDependency _ => true
  | _ => false

/-- What attributes come to in the end; none for an attribute that is never written. -/
abbrev Solution := Attribute → Option Slot

def Attributes.Within (t : Attributes) (sol : Solution) : Prop :=
  ∀ a s, t.slot? a = some s → sol a = some s

namespace Attributes

variable {sol : Solution} {t : Attributes}

theorem Within.write (h : t.Within sol) {a : Attribute} {s : Slot} (ha : sol a = some s) :
    (t.write a s).Within sol := by
  intro b u hu
  rw [slot?_write] at hu
  split at hu
  · next hab =>
    subst hab
    cases ht : t.slot? a with
    | none => rw [ht] at hu; cases hu; exact ha
    | some w => rw [ht] at hu; cases hu; exact h a w ht
  · exact h b u hu

theorem Within.set (h : t.Within sol) {a : Attribute} {v : Value} (ha : sol a = some (.set v)) :
    (t.set a v).Within sol :=
  Within.write h ha

theorem Within.failAll (h : t.Within sol) {as : List Attribute}
    (ha : ∀ a ∈ as, sol a = some .failed) : (t.failAll as).Within sol := by
  intro b s hs
  rcases slot?_failAll hs with hb | ⟨hb, rfl⟩
  · exact h b s hb
  · exact ha b hb

/-- An attribute that is set has the value that the solution gives it. -/
theorem Within.get? (h : t.Within sol) {a : Attribute} {s : Slot} (ha : sol a = some s)
    (hset : t.isSet a = true) : ∃ v, s = .set v ∧ t.get? a = some v := by
  obtain ⟨v, hv⟩ := isSet_iff.1 hset
  have hs := h a _ hv
  rw [ha, Option.some.injEq] at hs
  exact ⟨v, hs, get?_eq_some.2 hv⟩

end Attributes

structure Effect.Proper (sol : Solution) (K : Rule → Prop) (outs : List Attribute) (told : Bool)
    (t : Attributes) (e : Effect) : Prop where
  within : e.attributes.Within sol
  covers : ∀ a ∈ outs, e.attributes.isKnown a = true ∨ ∃ c ∈ e.chained, a ∈ c.outputs
  reports : told = true ∨ e.diagnostics ≠ [] ∨
    ∀ a, e.attributes.isFailed a = true → t.isFailed a = true
  causes : ∀ d ∈ e.diagnostics, d.cause.isStuck = false
  chained : ∀ c ∈ e.chained, K c

def Reaction.Conforms (sol : Solution) (K : Rule → Prop) (node : Node) (outs : List Attribute)
    (told : Bool) (r : Reaction) (t : Attributes) : Prop :=
  ∃ e, r.run node t = .ok e ∧ e.Proper sol K outs told t

namespace Reaction

variable {sol : Solution} {K : Rule → Prop} {node : Node} {outs : List Attribute} {told : Bool}
  {t : Attributes}

theorem conforms_done (h : t.Within sol) (ho : ∀ a ∈ outs, t.isKnown a = true) :
    Conforms sol K node outs told .done t :=
  ⟨_, rfl, h, fun a ha => .inl (ho a ha), .inr (.inr fun _ ha => ha), by simp, by simp⟩

theorem conforms_set {a : Attribute} {v : Value} {next : Reaction}
    (h : Conforms sol K node outs told next (t.set a v)) :
    Conforms sol K node outs told (.set a v next) t := by
  obtain ⟨e, he, hp⟩ := h
  refine ⟨e, he, { hp with reports := ?_ }⟩
  rcases hp.reports with ht | hd | hf
  · exact .inl ht
  · exact .inr (.inl hd)
  · refine .inr (.inr fun b hb => ?_)
    rw [← Attributes.isFailed_set t a b v]
    exact hf b hb

theorem conforms_fail {a : Attribute} {next : Reaction}
    (h : Conforms sol K node outs true next (t.fail a)) :
    Conforms sol K node outs true (.fail a next) t := by
  obtain ⟨e, he, hp⟩ := h
  exact ⟨e, he, { hp with reports := .inl rfl }⟩

theorem conforms_failAll {as : List Attribute} {next : Reaction}
    (h : Conforms sol K node outs true next (t.failAll as)) :
    Conforms sol K node outs true (failAll as next) t := by
  induction as generalizing t with
  | nil => exact h
  | cons a as ih => exact conforms_fail (ih h)

theorem conforms_report {d : Diagnostic} {next : Reaction} (hd : d.cause.isStuck = false)
    (h : Conforms sol K node outs true next t) :
    Conforms sol K node outs told (.report d next) t := by
  obtain ⟨e, he, hp⟩ := h
  refine ⟨{ e with diagnostics := d :: e.diagnostics }, ?_,
    { hp with reports := .inr (.inl (by simp)), causes := ?_ }⟩
  · simp [run, he, bind, Except.bind, pure, Except.pure]
  · intro d' hd'
    rcases List.mem_cons.1 hd' with rfl | hd'
    · exact hd
    · exact hp.causes d' hd'

/-- A chained rule takes over the outputs it lists. -/
theorem conforms_chain {label : String} {inputs outputs : List Attribute} {body next : Reaction}
    (hc : K { label, inputs, outputs, node, body })
    (h : Conforms sol K node (outs.filter (· ∉ outputs)) told next t) :
    Conforms sol K node outs told (.chain label inputs outputs body next) t := by
  obtain ⟨e, he, hp⟩ := h
  refine ⟨{ e with chained := { label, inputs, outputs, node, body } :: e.chained }, ?_,
    { hp with covers := ?_, chained := ?_ }⟩
  · simp [run, he, bind, Except.bind, pure, Except.pure]
  · intro a ha
    by_cases ho : a ∈ outputs
    · exact .inr ⟨_, List.mem_cons_self, ho⟩
    · rcases hp.covers a (List.mem_filter.2 ⟨ha, by simpa using ho⟩) with hk | ⟨c, hc, hac⟩
      · exact .inl hk
      · exact .inr ⟨c, List.mem_cons_of_mem _ hc, hac⟩
  · intro c hc'
    rcases List.mem_cons.1 hc' with rfl | hc'
    · exact hc
    · exact hp.chained c hc'

theorem conforms_refuse {d : Diagnostic} {failed : List Attribute} (h : t.Within sol)
    (hd : d.cause.isStuck = false) (hf : ∀ a ∈ failed, sol a = some .failed)
    (ho : ∀ a ∈ outs, a ∈ failed ∨ t.isKnown a = true) :
    Conforms sol K node outs told (refuse d failed) t := by
  refine conforms_report hd (conforms_failAll (conforms_done (h.failAll hf) fun a ha => ?_))
  rcases ho a ha with hm | hk
  · exact Attributes.isKnown_failAll hm
  · exact (t.grows_failAll failed).isKnown hk

theorem conforms_of_eq {r r' : Reaction} (heq : r = r') (h : Conforms sol K node outs told r' t) :
    Conforms sol K node outs told r t :=
  heq ▸ h

theorem conforms_readType {a : Attribute} {ty : Ty} {next : Ty → Reaction}
    (ha : t.get? a = some (.type ty)) (h : Conforms sol K node outs told (next ty) t) :
    Conforms sol K node outs told (readType a next) t := by
  obtain ⟨e, he, hp⟩ := h
  exact ⟨e, by simpa [readType, readValue, run, ha] using he, hp⟩

theorem conforms_readFlag {a : Attribute} {b : Bool} {next : Bool → Reaction}
    (ha : t.get? a = some (.flag b)) (h : Conforms sol K node outs told (next b) t) :
    Conforms sol K node outs told (readFlag a next) t := by
  obtain ⟨e, he, hp⟩ := h
  exact ⟨e, by simpa [readFlag, readValue, run, ha] using he, hp⟩

theorem conforms_readDecl {a : Attribute} {d : DeclId} {next : DeclId → Reaction}
    (ha : t.get? a = some (.decl d)) (h : Conforms sol K node outs told (next d) t) :
    Conforms sol K node outs told (readDecl a next) t := by
  obtain ⟨e, he, hp⟩ := h
  exact ⟨e, by simpa [readDecl, readValue, run, ha] using he, hp⟩

theorem conforms_readScope {a : Attribute} {i : ScopeId} {next : ScopeId → Reaction}
    (ha : t.get? a = some (.scope i)) (h : Conforms sol K node outs told (next i) t) :
    Conforms sol K node outs told (readScope a next) t := by
  obtain ⟨e, he, hp⟩ := h
  exact ⟨e, by simpa [readScope, readValue, run, ha] using he, hp⟩

theorem conforms_readTypes {as : List Attribute} {types : List Ty} {next : List Ty → Reaction}
    (ha : List.Forall₂ (fun a ty => t.get? a = some (.type ty)) as types)
    (h : Conforms sol K node outs told (next types) t) :
    Conforms sol K node outs told (readTypes as next) t := by
  induction ha generalizing next with
  | nil => exact h
  | cons hd _ ih => exact conforms_readType hd (ih h)

end Reaction

namespace Rule

open Relation (ReflTransGen)

/-- An attribute is known, or a rule that is not settled has it among its outputs. -/
def State.Supplies (S : State) (a : Attribute) : Prop :=
  S.attributes.isKnown a = true ∨ ∃ r ∈ S.agenda, a ∈ r.outputs

variable {ι : Type} [Preorder ι]

structure Conforms (sol : Solution) (rank : Attribute → ι) (supplied : Attribute → Prop)
    (K : Rule → Prop) (r : Rule) : Prop where
  fires : ∀ t : Attributes, t.Within sol → (∀ i ∈ r.inputs, t.isSet i = true) →
    r.body.Conforms sol K r.node r.outputs false t
  blocks : ∀ i ∈ r.inputs, sol i = some .failed → ∀ o ∈ r.outputs, sol o = some .failed
  ranked : ∀ i ∈ r.inputs, ∀ o ∈ r.outputs, rank i < rank o
  demands : ∀ i ∈ r.inputs, supplied i

def Final (sol : Solution) (rank : Attribute → ι) (supplied : Attribute → Prop) : Rule → Prop :=
  Conforms sol rank supplied fun _ => False

/-- A rule that conforms, and whose chained rules chain nothing. -/
def Sound (sol : Solution) (rank : Attribute → ι) (supplied : Attribute → Prop) : Rule → Prop :=
  Conforms sol rank supplied (Final sol rank supplied)

variable {sol : Solution} {rank : Attribute → ι} {supplied : Attribute → Prop}

theorem Final.sound {r : Rule} (h : Final sol rank supplied r) : Sound sol rank supplied r where
  fires t ht hi := by
    obtain ⟨e, he, hp⟩ := h.fires t ht hi
    exact ⟨e, he, { hp with chained := fun c hc => (hp.chained c hc).elim }⟩
  blocks := h.blocks
  ranked := h.ranked
  demands := h.demands

structure Kept (sol : Solution) (rank : Attribute → ι) (first S : State) : Prop where
  within : S.attributes.Within sol
  agenda : ∀ r ∈ S.agenda, Sound sol rank first.Supplies r
  supplies : ∀ a, first.Supplies a → S.Supplies a
  tells : ∀ a, S.attributes.isFailed a = true → S.diagnostics ≠ []
  causes : ∀ d ∈ S.diagnostics, d.cause.isStuck = false
  fates : ∀ r ∈ first.agenda, Fate S r

theorem Kept.safe {first S : State} (h : Kept sol rank first S) : Safe S := by
  intro r hr hready
  obtain ⟨e, he, _⟩ := (h.agenda r hr).fires _ h.within (readiness_eq_ready.1 hready)
  exact ⟨e, he⟩

/-- Dropping a rule keeps to the solution, since its outputs fail there. -/
theorem Kept.drop {first : State} {t : Attributes} {ds : List Diagnostic} {before after : List Rule}
    {r : Rule} (h : Kept sol rank first ⟨t, ds, before ++ r :: after⟩)
    (hb : r.readiness t = .blocked) :
    Kept sol rank first ⟨t.failAll r.outputs, ds, before ++ after⟩ := by
  obtain ⟨i, hi, hf⟩ := readiness_eq_blocked.1 hb
  have hsol : sol i = some .failed := h.within i _ (Attributes.isFailed_iff.1 hf)
  refine ⟨h.within.failAll ((h.agenda r (by simp)).blocks i hi hsol), fun c hc => ?_, fun a ha => ?_,
    fun _ _ => h.tells i hf, h.causes, fun c hc => (h.fates c hc).step (.drop hb)⟩
  · refine h.agenda c ?_
    rcases List.mem_append.1 hc with hc | hc
    · exact List.mem_append_left _ hc
    · exact List.mem_append_right _ (List.mem_cons_of_mem r hc)
  · rcases h.supplies a ha with hk | ⟨c, hc, hac⟩
    · exact .inl ((t.grows_failAll _).isKnown hk)
    · rcases List.mem_append.1 hc with hc | hc
      · exact .inr ⟨c, List.mem_append_left _ hc, hac⟩
      · rcases List.mem_cons.1 hc with rfl | hc
        · exact .inl (Attributes.isKnown_failAll hac)
        · exact .inr ⟨c, List.mem_append_right _ hc, hac⟩

/-- Firing a rule keeps to the solution, since its reaction conforms. -/
theorem Kept.fire {first : State} {t : Attributes} {ds : List Diagnostic} {before after : List Rule}
    {r : Rule} {e : Effect} (h : Kept sol rank first ⟨t, ds, before ++ r :: after⟩)
    (hr : r.readiness t = .ready) (he : r.body.run r.node t = .ok e) :
    Kept sol rank first ⟨e.attributes, ds ++ e.diagnostics, before ++ (e.chained ++ after)⟩ := by
  obtain ⟨e', he', hp⟩ := (h.agenda r (by simp)).fires t h.within (readiness_eq_ready.1 hr)
  obtain rfl : e = e' := by rw [he] at he'; exact Except.ok.inj he'
  refine ⟨hp.within, fun c hc => ?_, fun a ha => ?_, fun a ha => ?_, fun d hd => ?_,
    fun c hc => (h.fates c hc).step (.fire hr he)⟩
  · rcases List.mem_append.1 hc with hc | hc
    · exact h.agenda c (List.mem_append_left _ hc)
    · rcases List.mem_append.1 hc with hc | hc
      · exact (hp.chained c hc).sound
      · exact h.agenda c (List.mem_append_right _ (List.mem_cons_of_mem r hc))
  · rcases h.supplies a ha with hk | ⟨c, hc, hac⟩
    · exact .inl ((Reaction.grows_run he).isKnown hk)
    · rcases List.mem_append.1 hc with hc | hc
      · exact .inr ⟨c, List.mem_append_left _ hc, hac⟩
      · rcases List.mem_cons.1 hc with rfl | hc
        · rcases hp.covers a hac with hk | ⟨c', hc', hac'⟩
          · exact .inl hk
          · exact .inr ⟨c', List.mem_append_right _ (List.mem_append_left _ hc'), hac'⟩
        · exact .inr ⟨c, List.mem_append_right _ (List.mem_append_right _ hc), hac⟩
  · rcases hp.reports with ht | hd | hf
    · cases ht
    · simp [hd]
    · simp [h.tells a (hf a ha)]
  · rcases List.mem_append.1 hd with hd | hd
    · exact h.causes d hd
    · exact hp.causes d hd

theorem Kept.step {first S S' : State} (h : Kept sol rank first S) (st : Step S S') :
    Kept sol rank first S' := by
  cases st with
  | drop hb => exact h.drop hb
  | fire hr he => exact h.fire hr he

/-- No rule is left: it would wait for an attribute that another rule left over supplies, that one for
an attribute of lower rank, and so on for ever. -/
theorem Kept.agenda_eq_nil [WellFoundedLT ι] {first S : State} (h : Kept sol rank first S)
    (hw : ∀ r ∈ S.agenda, r.readiness S.attributes = .waiting) : S.agenda = [] := by
  have known : ∀ (k : ι) (a : Attribute), rank a = k → first.Supplies a →
      S.attributes.isKnown a = true := by
    intro k
    induction k using WellFoundedLT.induction with
    | _ k ih =>
      intro a hk ha
      rcases h.supplies a ha with hknown | ⟨r, hr, har⟩
      · exact hknown
      · obtain ⟨i, hi, hu⟩ := unknown_of_waiting (hw r hr)
        have hlt : rank i < k := hk ▸ (h.agenda r hr).ranked i hi a har
        rw [ih _ hlt i rfl ((h.agenda r hr).demands i hi)] at hu
        cases hu
  rw [List.eq_nil_iff_forall_not_mem]
  intro r hr
  obtain ⟨i, hi, hu⟩ := unknown_of_waiting (hw r hr)
  rw [known _ i rfl ((h.agenda r hr).demands i hi)] at hu
  cases hu

theorem Kept.steps {first S S' : State} (h : Kept sol rank first S) (st : ReflTransGen Step S S') :
    Kept sol rank first S' := by
  induction st with
  | refl => exact h
  | tail _ hstep ih => exact ih.step hstep

structure Completed (sol : Solution) (first : State) (res : Resolution) : Prop where
  reached : ReflTransGen Step first ⟨res.attributes, first.diagnostics ++ res.diagnostics, []⟩
  within : res.attributes.Within sol
  known : ∀ a, first.Supplies a → res.attributes.isKnown a = true
  tells : ∀ a, res.attributes.isFailed a = true → first.diagnostics ++ res.diagnostics ≠ []
  causes : ∀ d ∈ first.diagnostics ++ res.diagnostics, d.cause.isStuck = false
  fates : ∀ r ∈ first.agenda, Fate ⟨res.attributes, first.diagnostics ++ res.diagnostics, []⟩ r

theorem kept_of_conforms {first : State} (within : first.attributes.Within sol)
    (sound : ∀ r ∈ first.agenda, Sound sol rank first.Supplies r)
    (tells : ∀ a, first.attributes.isFailed a = true → first.diagnostics ≠ [])
    (causes : ∀ d ∈ first.diagnostics, d.cause.isStuck = false) : Kept sol rank first first :=
  ⟨within, sound, fun _ ha => ha, tells, causes, fun _ hr => .pending hr⟩

/-- Rules that conform to a solution are resolved to it, and none is stuck. -/
theorem resolve_of_kept [WellFoundedLT ι] {first : State} (start : Kept sol rank first first) :
    ∃ res, resolve first.attributes first.agenda = .ok res ∧ res.stuck = [] ∧
      Completed sol first res := by
  obtain ⟨s, hs, ⟨hreached, hk⟩, hw⟩ := @settle_of_invariant
    (fun S => ReflTransGen Step first S ∧ Kept sol rank first S)
    (fun _ _ h st => ⟨h.1.tail st, h.2.step st⟩) (fun _ h => h.2.safe) _ _ _ ⟨.refl, start⟩
  have hnil : s.waiting = [] := hk.agenda_eq_nil hw
  refine ⟨_, by rw [resolve, hs]; rfl, hnil, ?_⟩
  rw [hnil] at hk hreached
  simp only [hnil, List.foldl_nil, stuckDiagnostics, List.append_nil]
  refine ⟨hreached, hk.within, fun a ha => ?_, hk.tells, hk.causes, hk.fates⟩
  rcases hk.supplies a ha with hknown | ⟨r, hr, _⟩
  · exact hknown
  · simp at hr

end Rule

end ScriptAnalysis
