import ScriptAnalysis.Proofs.Propagation.Conformance
import ScriptAnalysis.Proofs.Propagation.Likeness

/-!
Resolution with a detour. Of two agendas the second has rules that read an attribute in the place of another,
and one more rule, which copies the type of the other to it. If the rules are alike otherwise, each step of
the second resolution is a step of the first or the copying, which the first does without. So where the
first keeps to a solution the second ends as well, and with tables and findings that are alike
(`Rule.Detour.exists_resolve`).
-/
namespace ScriptAnalysis

namespace Rule

open Relation (ReflTransGen)
open Reaction (Frame)

structure Detour where
  solution : Solution
  source : Attribute
  target : Attribute
  node : Node
  free : Attribute → Prop
  lost : Attribute → Prop
  told : Diagnostic → Diagnostic → Prop

namespace Detour

variable (D : Detour)

structure Passable : Prop where
  ne : D.source ≠ D.target
  source : ¬D.free D.source
  target : ¬D.lost D.target
  types : ∀ v, D.solution D.source = some (.set v) → ∃ t, v = .type t

/-- How far rules with the detour differ from those without it. -/
def frame : Frame where
  told := D.told
  reads a a' := (a = a' ∧ a ≠ D.target ∧ ¬D.free a) ∨ (a = D.source ∧ a' = D.target)
  holds a v := D.solution a = some (.set v)
  writes a := a ≠ D.target ∧ ¬D.lost a
  passes _ a' b := b ≠ D.target ∧ D.free b ∧ (D.lost b → D.lost a')

def copy : Rule := ⟨"", [D.source], [D.target], D.node, .copyType [D.source] [D.target]⟩

structure Tables (t t' : Attributes) : Prop where
  same : ∀ a, a ≠ D.target → ¬D.free a → t'.slot? a = t.slot? a
  lost : ∀ a, D.lost a → t'.slot? a = none
  target : ∀ s, t'.slot? D.target = some s → t.slot? D.source = some s

inductive Agendas : List Rule → List Rule → Prop
  | nil : Agendas [] []
  | cons {r r' rs rs'} (h : r.Like D.frame r') (hs : Agendas rs rs') : Agendas (r :: rs) (r' :: rs')
  | copy {rs rs'} (hs : Agendas rs rs') : Agendas rs (D.copy :: rs')

structure Beside (S S' : State) : Prop where
  attributes : D.Tables S.attributes S'.attributes
  diagnostics : List.Forall₂ D.told S.diagnostics S'.diagnostics
  agenda : D.Agendas S.agenda S'.agenda
  copied : D.copy ∈ S'.agenda ∨ S'.attributes.isKnown D.target = true

variable {D} {t t' : Attributes} {S S' : State}

/-! ### Tables -/

theorem carries_frame : D.frame.Carries D.Tables where
  write {t t' a} s ha h := by
    refine ⟨fun b hb hfree => ?_, fun b hb => ?_, fun u hu => ?_⟩
    · rw [Attributes.slot?_write, Attributes.slot?_write]
      split
      · next hab => rw [h.same a (hab ▸ hb) (hab ▸ hfree)]
      · exact h.same b hb hfree
    · rw [Attributes.slot?_write, if_neg (fun hab : a = b => ha.2 (hab ▸ hb))]
      exact h.lost b hb
    · rw [Attributes.slot?_write, if_neg ha.1] at hu
      exact t.grows_write a s _ _ (h.target u hu)
  pass {t t' a a' b} hb h := by
    obtain ⟨hne, hfree, hlost⟩ := hb
    have hother : ∀ (u : Attributes) (c x : Attribute), c ≠ b → (u.pass x b).slot? c = u.slot? c := by
      intro u c x hc
      unfold Attributes.pass
      split
      · exact Attributes.slot?_set_ne hc.symm
      · rfl
    refine ⟨fun c hc hcfree => ?_, fun c hc => ?_, fun u hu => ?_⟩
    · have hcb : c ≠ b := fun h => hcfree (h ▸ hfree)
      rw [hother _ _ _ hcb, hother _ _ _ hcb]
      exact h.same c hc hcfree
    · by_cases hcb : c = b
      · subst hcb
        have hnone : t'.get? a' = none := by rw [Attributes.get?, h.lost a' (hlost hc)]
        rw [Attributes.pass, hnone]
        exact h.lost c hc
      · rw [hother _ _ _ hcb]
        exact h.lost c hc
    · rw [hother _ _ _ hne.symm] at hu
      exact t.grows_pass a b _ _ (h.target u hu)

theorem Tables.failAll (h : D.Tables t t') {as : List Attribute} (has : ∀ a ∈ as, D.frame.writes a) :
    D.Tables (t.failAll as) (t'.failAll as) := by
  induction as generalizing t t' with
  | nil => exact h
  | cons a as ih =>
    rw [List.forall_mem_cons] at has
    exact ih (carries_frame.write _ has.1 h) has.2

theorem Tables.copied (hD : D.Passable) (h : D.Tables t t') {s : Slot} (hs : t.slot? D.source = some s) :
    D.Tables t (t'.write D.target s) := by
  refine ⟨fun a ha hfree => ?_, fun a ha => ?_, fun u hu => ?_⟩
  · rw [Attributes.slot?_write, if_neg ha.symm]
    exact h.same a ha hfree
  · rw [Attributes.slot?_write, if_neg (fun hab : D.target = a => hD.target (hab ▸ ha))]
    exact h.lost a ha
  · rw [Attributes.slot?_write, if_pos rfl] at hu
    cases hknown : t'.slot? D.target with
    | none =>
      rw [hknown] at hu
      cases hu
      exact hs
    | some w =>
      rw [hknown] at hu
      cases hu
      exact h.target w hknown

theorem Tables.slot?_of_reads (h : D.Tables t t') {a a' : Attribute} (hr : D.frame.reads a a') {s : Slot}
    (hs : t'.slot? a' = some s) : t.slot? a = some s := by
  rcases hr with ⟨rfl, hne, hfree⟩ | ⟨rfl, rfl⟩
  · rw [← h.same a hne hfree]
    exact hs
  · exact h.target s hs

theorem Tables.slot?_source (hD : D.Passable) (h : D.Tables t t') :
    t'.slot? D.source = t.slot? D.source :=
  h.same _ hD.ne hD.source

/-! ### Rules -/

theorem exists_mem_left {R : Attribute → Attribute → Prop} {as as' : List Attribute}
    (h : List.Forall₂ R as as') {a' : Attribute} (ha : a' ∈ as') : ∃ a ∈ as, R a a' := by
  induction h with
  | nil => cases ha
  | cons hab _ ih =>
    rcases List.mem_cons.1 ha with rfl | ha
    · exact ⟨_, List.mem_cons_self, hab⟩
    · obtain ⟨a, hmem, hR⟩ := ih ha
      exact ⟨a, List.mem_cons_of_mem _ hmem, hR⟩

section Readiness

variable {r r' : Rule} (hr : r.Like D.frame r') (h : D.Tables t t')
include hr h

theorem ready_of_like (hready : r'.readiness t' = .ready) : r.readiness t = .ready := by
  rw [readiness_eq_ready] at hready ⊢
  intro a ha
  obtain ⟨a', ha', hreads⟩ := exists_mem_left hr.inputs.flip ha
  obtain ⟨v, hv⟩ := Attributes.isSet_iff.1 (hready a' ha')
  exact Attributes.isSet_iff.2 ⟨v, h.slot?_of_reads hreads hv⟩

theorem blocked_of_like (hblocked : r'.readiness t' = .blocked) : r.readiness t = .blocked := by
  rw [readiness_eq_blocked] at hblocked ⊢
  obtain ⟨a', ha', hf⟩ := hblocked
  obtain ⟨a, ha, hreads⟩ := exists_mem_left hr.inputs ha'
  exact ⟨a, ha, Attributes.isFailed_iff.2 (h.slot?_of_reads hreads (Attributes.isFailed_iff.1 hf))⟩

omit hr in
theorem shares_of_ready (hwithin : t.Within D.solution) (hready : r'.readiness t' = .ready) :
    D.frame.Shares r.inputs r'.inputs t t' := by
  intro a _ a' ha' hreads
  obtain ⟨v, hv⟩ := Attributes.isSet_iff.1 (readiness_eq_ready.1 hready a' ha')
  have hv' := h.slot?_of_reads hreads hv
  exact ⟨v, hwithin _ _ hv', Attributes.get?_eq_some.2 hv', Attributes.get?_eq_some.2 hv⟩

end Readiness

/-- A rule that waits with the detour waits without it, once what is known of the source is copied. -/
theorem waiting_of_like {r r' : Rule} (hr : r.Like D.frame r') (h : D.Tables t t')
    (hcopied : t.isKnown D.source = true → t'.isKnown D.target = true)
    (hwaiting : r'.readiness t' = .waiting) : r.readiness t = .waiting := by
  have hslots : ∀ a a', D.frame.reads a a' → t'.slot? a' = t.slot? a := by
    rintro a _ (⟨rfl, hne, hfree⟩ | ⟨rfl, rfl⟩)
    · exact h.same a hne hfree
    · cases hs : t.slot? D.source with
      | none =>
        rw [Option.eq_none_iff_forall_ne_some]
        intro s hs'
        rw [h.target s hs'] at hs
        cases hs
      | some s =>
        obtain ⟨s', hs'⟩ := Attributes.isKnown_iff.1 (hcopied (Attributes.isKnown_iff.2 ⟨s, hs⟩))
        rw [hs', ← h.target s' hs', hs]
  cases hready : r.readiness t with
  | waiting => rfl
  | ready =>
    rw [readiness_eq_ready] at hready
    have hready' : r'.readiness t' = .ready := by
      refine readiness_eq_ready.2 fun a' ha' => ?_
      obtain ⟨a, ha, hreads⟩ := exists_mem_left hr.inputs ha'
      obtain ⟨v, hv⟩ := Attributes.isSet_iff.1 (hready a ha)
      exact Attributes.isSet_iff.2 ⟨v, (hslots a a' hreads).trans hv⟩
    rw [hwaiting] at hready'
    cases hready'
  | blocked =>
    obtain ⟨a, ha, hf⟩ := readiness_eq_blocked.1 hready
    obtain ⟨a', ha', hreads⟩ := exists_mem_left hr.inputs.flip ha
    have hblocked : r'.readiness t' = .blocked := readiness_eq_blocked.2
      ⟨a', ha', Attributes.isFailed_iff.2 ((hslots a a' hreads).trans (Attributes.isFailed_iff.1 hf))⟩
    rw [hwaiting] at hblocked
    cases hblocked

/-! ### Agendas -/

theorem Agendas.append {rs rs' us us' : List Rule} (h : D.Agendas rs rs') (hu : D.Agendas us us') :
    D.Agendas (rs ++ us) (rs' ++ us') := by
  induction h with
  | nil => exact hu
  | cons hr _ ih => exact .cons hr ih
  | copy _ ih => exact .copy ih

theorem Agendas.of_forall₂ {rs rs' : List Rule} (h : List.Forall₂ (Rule.Like D.frame) rs rs') :
    D.Agendas rs rs' := by
  induction h with
  | nil => exact .nil
  | cons hr _ ih => exact .cons hr ih

/-- A rule of the agenda with the detour copies, or stands beside one that is like it. -/
theorem Agendas.split {rs before after : List Rule} {r' : Rule} (h : D.Agendas rs (before ++ r' :: after)) :
    ∃ before₁ after₁, D.Agendas before₁ before ∧ D.Agendas after₁ after ∧
      ((r' = D.copy ∧ rs = before₁ ++ after₁) ∨
        ∃ r, r.Like D.frame r' ∧ rs = before₁ ++ r :: after₁) := by
  induction before generalizing rs with
  | nil =>
    cases h with
    | cons hr hs => exact ⟨[], _, .nil, hs, .inr ⟨_, hr, rfl⟩⟩
    | copy hs => exact ⟨[], _, .nil, hs, .inl ⟨rfl, rfl⟩⟩
  | cons x before ih =>
    cases h with
    | cons hx hs =>
      obtain ⟨before₁, after₁, hbefore, hafter, hsplit⟩ := ih hs
      refine ⟨_ :: before₁, after₁, .cons hx hbefore, hafter, ?_⟩
      rcases hsplit with ⟨hcopy, rfl⟩ | ⟨r, hr, rfl⟩
      · exact .inl ⟨hcopy, rfl⟩
      · exact .inr ⟨r, hr, rfl⟩
    | copy hs =>
      obtain ⟨before₁, after₁, hbefore, hafter, hsplit⟩ := ih hs
      exact ⟨before₁, after₁, .copy hbefore, hafter, hsplit⟩

theorem Agendas.exists_like {rs rs' : List Rule} (h : D.Agendas rs rs') {r : Rule} (hr : r ∈ rs) :
    ∃ r' ∈ rs', r.Like D.frame r' := by
  induction h with
  | nil => cases hr
  | cons hlike _ ih =>
    rcases List.mem_cons.1 hr with rfl | hr
    · exact ⟨_, List.mem_cons_self, hlike⟩
    · obtain ⟨r', hmem, hr'⟩ := ih hr
      exact ⟨r', List.mem_cons_of_mem _ hmem, hr'⟩
  | copy _ ih =>
    obtain ⟨r', hmem, hr'⟩ := ih hr
    exact ⟨r', List.mem_cons_of_mem _ hmem, hr'⟩

theorem Agendas.eq_copy {rs' : List Rule} (h : D.Agendas [] rs') : ∀ r' ∈ rs', r' = D.copy := by
  generalize hrs : ([] : List Rule) = rs at h
  induction h with
  | nil => simp
  | cons => cases hrs
  | copy _ ih =>
    rw [List.forall_mem_cons]
    exact ⟨rfl, ih hrs⟩

theorem ne_copy_of_like {r r' : Rule} (h : r.Like D.frame r') : r' ≠ D.copy := by
  rintro rfl
  have hmem : D.target ∈ r.outputs := by
    rw [h.outputs]
    exact List.mem_singleton_self _
  exact (h.writes _ hmem).1 rfl

/-- A step that does not copy leaves the copying to come or done. -/
theorem copied_of_ne {before after chained : List Rule} {r' : Rule} (hne : r' ≠ D.copy) {u : Attributes}
    (hgrows : t.Grows u) (h : D.copy ∈ before ++ r' :: after ∨ t.isKnown D.target = true) :
    D.copy ∈ before ++ (chained ++ after) ∨ u.isKnown D.target = true := by
  rcases h with hmem | hknown
  · left
    simp only [List.mem_append, List.mem_cons, hne.symm, false_or] at hmem ⊢
    exact hmem.imp_right .inr
  · exact .inr (hgrows.isKnown hknown)

/-! ### Steps -/

variable {ι : Type} [Preorder ι] {rank : Attribute → ι} {first first' : State}

section Steps

variable (hD : D.Passable) (hkept : Kept D.solution rank first S) (h : D.Beside S S')
include hD hkept h

theorem run_copy (hready : D.copy.readiness S'.attributes = .ready) :
    ∃ s, S.attributes.slot? D.source = some s ∧
      D.copy.body.run D.copy.node S'.attributes = .ok ⟨S'.attributes.write D.target s, [], []⟩ := by
  obtain ⟨v, hv⟩ := Attributes.isSet_iff.1 (readiness_eq_ready.1 hready D.source List.mem_cons_self)
  have hv' : S.attributes.slot? D.source = some (.set v) := (h.attributes.slot?_source hD).symm.trans hv
  obtain ⟨t, rfl⟩ := hD.types v (hkept.within _ _ hv')
  refine ⟨_, hv', ?_⟩
  have hget := Attributes.get?_eq_some.2 hv
  simp only [copy, Reaction.copyType_eq, Reaction.readType, Reaction.readValue, Reaction.run, hget]
  rfl

omit hD in
/-- A rule beside one that is ready runs, and both leave alike what they leave. -/
theorem run_like {r r' : Rule} (hr : r.Like D.frame r') (hmem : r ∈ S.agenda)
    (hready : r'.readiness S'.attributes = .ready) :
    ∃ e e', r.body.run r.node S.attributes = .ok e ∧ r'.body.run r'.node S'.attributes = .ok e' ∧
      e.Like D.frame D.Tables e' := by
  obtain ⟨e, he⟩ := hkept.safe r hmem (ready_of_like hr h.attributes hready)
  obtain ⟨e', he', hlike⟩ := Reaction.run_of_like carries_frame hr.body
    (shares_of_ready h.attributes hkept.within hready) h.attributes r.node r'.node he
  exact ⟨e, e', he, he', hlike⟩

theorem Beside.safe : Safe S' := by
  intro r' hr' hready
  obtain ⟨before, after, hsplit⟩ := List.append_of_mem hr'
  have hagenda := h.agenda
  rw [hsplit] at hagenda
  obtain ⟨_, _, _, _, ⟨rfl, _⟩ | ⟨r, hr, hrs⟩⟩ := hagenda.split
  · obtain ⟨s, _, hrun⟩ := run_copy hD hkept h hready
    exact ⟨_, hrun⟩
  · obtain ⟨_, e', _, he', _⟩ := run_like hkept h hr (by simp [hrs]) hready
    exact ⟨e', he'⟩

theorem Beside.step {S₁' : State} (hstep : Step S' S₁') :
    ∃ S₁, (S₁ = S ∨ Step S S₁) ∧ D.Beside S₁ S₁' := by
  obtain ⟨t, ds, agenda⟩ := S
  cases hstep with
  | @drop t' ds' before r' after hb =>
    obtain ⟨before₁, after₁, hbefore, hafter, ⟨rfl, rfl⟩ | ⟨r, hr, rfl⟩⟩ := h.agenda.split
    · obtain ⟨a, ha, hf⟩ := readiness_eq_blocked.1 hb
      obtain rfl : a = D.source := List.mem_singleton.1 ha
      have hs := (h.attributes.slot?_source hD).symm.trans (Attributes.isFailed_iff.1 hf)
      refine ⟨_, .inl rfl, h.attributes.copied hD hs, h.diagnostics, hbefore.append hafter, .inr ?_⟩
      exact Attributes.isKnown_failAll (List.mem_singleton_self _)
    · refine ⟨_, .inr (.drop (blocked_of_like hr h.attributes hb)), ?_, h.diagnostics,
        hbefore.append hafter, ?_⟩
      · rw [← hr.outputs]
        exact h.attributes.failAll hr.writes
      · show D.copy ∈ before ++ ([] ++ after) ∨ _
        exact copied_of_ne (ne_copy_of_like hr) (t'.grows_failAll _) h.copied
  | @fire t' ds' before r' after e' hready hrun =>
    obtain ⟨before₁, after₁, hbefore, hafter, ⟨rfl, rfl⟩ | ⟨r, hr, rfl⟩⟩ := h.agenda.split
    · obtain ⟨s, hs, hrun'⟩ := run_copy hD hkept h hready
      obtain rfl := Except.ok.inj (hrun.symm.trans hrun')
      refine ⟨_, .inl rfl, h.attributes.copied hD hs, ?_, hbefore.append hafter, .inr ?_⟩
      · simpa using h.diagnostics
      · rw [Attributes.isKnown, Attributes.slot?_write, if_pos rfl]
        rfl
    · obtain ⟨e, e₁', he, he', hlike⟩ := run_like hkept h hr (by simp) hready
      obtain rfl := Except.ok.inj (hrun.symm.trans he')
      refine ⟨_, .inr (.fire (ready_of_like hr h.attributes hready) he), hlike.attributes,
        List.rel_append h.diagnostics hlike.diagnostics,
        hbefore.append ((Agendas.of_forall₂ hlike.chained).append hafter), ?_⟩
      exact copied_of_ne (ne_copy_of_like hr) (Reaction.grows_run hrun) h.copied

end Steps

/-- Where all rules with the detour wait, nothing is left to be settled without it. -/
theorem Beside.agenda_eq_nil [WellFoundedLT ι] (hD : D.Passable) (hkept : Kept D.solution rank first S)
    (h : D.Beside S S') (hsource : first.Supplies D.source)
    (hwaiting : ∀ r ∈ S'.agenda, r.readiness S'.attributes = .waiting) :
    S.agenda = [] ∧ S'.agenda = [] := by
  have hcopy : D.copy ∈ S'.agenda → S.attributes.isKnown D.source = false := by
    intro hmem
    obtain ⟨a, ha, hunknown⟩ := unknown_of_waiting (hwaiting _ hmem)
    obtain rfl : a = D.source := List.mem_singleton.1 ha
    rw [← hunknown, Attributes.isKnown, Attributes.isKnown, h.attributes.slot?_source hD]
  have hnil : S.agenda = [] := by
    refine hkept.agenda_eq_nil fun r hr => ?_
    obtain ⟨r', hr', hlike⟩ := h.agenda.exists_like hr
    refine waiting_of_like hlike h.attributes (fun hknown => ?_) (hwaiting r' hr')
    refine h.copied.resolve_left fun hmem => ?_
    rw [hcopy hmem] at hknown
    cases hknown
  refine ⟨hnil, List.eq_nil_iff_forall_not_mem.2 fun r' hr' => ?_⟩
  have hagenda := h.agenda
  rw [hnil] at hagenda
  have hunknown := hcopy (hagenda.eq_copy r' hr' ▸ hr')
  rcases hkept.supplies _ hsource with hknown | ⟨r, hr, _⟩
  · rw [hknown] at hunknown
    cases hunknown
  · rw [hnil] at hr
    cases hr

/-- Rules with a detour are resolved, and to what rules without it can be resolved to. -/
theorem exists_resolve [WellFoundedLT ι] (hD : D.Passable) (hkept : Kept D.solution rank first first)
    (hsource : first.Supplies D.source) (h : D.Beside first first') :
    ∃ res S, Rule.resolve first'.attributes first'.agenda = .ok res ∧ ReflTransGen Step first S ∧
      S.agenda = [] ∧ D.Tables S.attributes res.attributes ∧
      List.Forall₂ D.told S.diagnostics (first'.diagnostics ++ res.diagnostics) := by
  obtain ⟨s, hs, ⟨S, hreached, hbeside⟩, hwaiting⟩ := @settle_of_invariant
    (fun S' => ∃ S, ReflTransGen Step first S ∧ D.Beside S S')
    (fun S₁ S₂ ⟨S, hreached, hbeside⟩ hstep => by
      obtain ⟨S₃, rfl | hstep', hbeside'⟩ := hbeside.step hD (hkept.steps hreached) hstep
      · exact ⟨_, hreached, hbeside'⟩
      · exact ⟨S₃, hreached.tail hstep', hbeside'⟩)
    (fun _ ⟨_, hreached, hbeside⟩ => hbeside.safe hD (hkept.steps hreached)) _ _ _ ⟨first, .refl, h⟩
  obtain ⟨hnil, hnil'⟩ := hbeside.agenda_eq_nil hD (hkept.steps hreached) hsource hwaiting
  have hnil' : s.waiting = [] := hnil'
  refine ⟨_, S, by rw [Rule.resolve, hs]; rfl, hreached, hnil, ?_⟩
  simp only [hnil', List.foldl_nil, stuckDiagnostics, List.append_nil]
  exact ⟨hbeside.attributes, hbeside.diagnostics⟩

end Detour

end Rule

end ScriptAnalysis
