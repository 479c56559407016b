import Mathlib.Logic.Relation
import Mathlib.Tactic.Common
import ScriptAnalysis.Propagation.Resolve
import ScriptAnalysis.Proofs.Attribute.Growth

/-!
Resolution as single steps. A step settles one rule of the agenda, wherever it stands; a sweep is a
sequence of such steps. What every step keeps therefore holds at the end of a resolution, and every
rule meets a fate: it still waits, it was dropped, or it fired and what it chained met a fate.
-/
namespace ScriptAnalysis

theorem exists_of_do {ε α β : Type} {x : Except ε α} {f : α → β} {y : β}
    (h : (do let a ← x; return f a) = Except.ok y) : ∃ a, x = .ok a ∧ f a = y := by
  cases x with
  | error e => cases h
  | ok a => exact ⟨a, rfl, Except.ok.inj h⟩

theorem Reaction.grows_run {node : Node} {r : Reaction} {t : Attributes} {e : Effect}
    (h : r.run node t = .ok e) : t.Grows e.attributes := by
  induction r generalizing t e with
  | done => cases h; exact .refl t
  | fault f => cases h
  | read a next ih => exact ih _ h
  | set a v next ih => exact (t.grows_set a v).trans (ih h)
  | fail a next ih => exact (t.grows_fail a).trans (ih h)
  | report d next ih =>
    obtain ⟨e', hn, rfl⟩ := exists_of_do h
    have hg := ih hn
    exact hg
  | chain label inputs outputs body next ihBody ihNext =>
    obtain ⟨e', hn, rfl⟩ := exists_of_do h
    have hg := ihNext hn
    exact hg

theorem Reaction.mem_of_refuse {node : Node} {d : Diagnostic} {failed : List Attribute}
    {t : Attributes} {e : Effect} (h : (refuse d failed).run node t = .ok e) :
    d ∈ e.diagnostics := by
  obtain ⟨e', _, rfl⟩ := exists_of_do h
  exact List.mem_cons_self

namespace Rule

open Relation (ReflTransGen)

theorem readiness_eq_ready {r : Rule} {t : Attributes} :
    r.readiness t = .ready ↔ ∀ a ∈ r.inputs, t.isSet a = true := by
  unfold readiness
  constructor
  · intro h
    split at h
    · cases h
    · split at h
      · next hs => simpa using hs
      · cases h
  · intro h
    have hf : r.inputs.any t.isFailed = false := by
      simp only [List.any_eq_false]
      intro a ha hfail
      obtain ⟨v, hv⟩ := Attributes.isSet_iff.1 (h a ha)
      rw [Attributes.isFailed_iff, hv] at hfail
      cases hfail
    have hs : r.inputs.all t.isSet = true := by simpa using h
    simp [hf, hs]

theorem readiness_eq_blocked {r : Rule} {t : Attributes} :
    r.readiness t = .blocked ↔ ∃ a ∈ r.inputs, t.isFailed a = true := by
  unfold readiness
  constructor
  · intro h
    split at h
    · next hf => simpa using hf
    · split at h <;> cases h
  · intro h
    have hf : r.inputs.any t.isFailed = true := by simpa using h
    simp [hf]

/-- A rule that waits has an input of which nothing is known. -/
theorem unknown_of_waiting {r : Rule} {t : Attributes} (h : r.readiness t = .waiting) :
    ∃ a ∈ r.inputs, t.isKnown a = false := by
  by_contra hall
  simp only [not_exists, not_and, Bool.not_eq_false] at hall
  have hset : ∀ a ∈ r.inputs, t.isSet a = true := by
    intro a ha
    obtain ⟨s, hs⟩ := Attributes.isKnown_iff.1 (hall a ha)
    cases s with
    | set v => exact Attributes.isSet_iff.2 ⟨v, hs⟩
    | failed =>
      have hb : r.readiness t = .blocked :=
        readiness_eq_blocked.2 ⟨a, ha, Attributes.isFailed_iff.2 hs⟩
      rw [h] at hb
      cases hb
  rw [readiness_eq_ready.2 hset] at h
  cases h

structure State where
  attributes : Attributes
  diagnostics : List Diagnostic
  agenda : List Rule

inductive Step : State → State → Prop
  | drop {t ds before r after} (h : r.readiness t = .blocked) :
      Step ⟨t, ds, before ++ r :: after⟩ ⟨t.failAll r.outputs, ds, before ++ after⟩
  | fire {t ds before r after e} (h : r.readiness t = .ready)
      (run : r.body.run r.node t = .ok e) :
      Step ⟨t, ds, before ++ r :: after⟩
        ⟨e.attributes, ds ++ e.diagnostics, before ++ (e.chained ++ after)⟩

theorem Step.grows {S S' : State} (h : Step S S') : S.attributes.Grows S'.attributes := by
  cases h with
  | drop _ => exact Attributes.grows_failAll _ _
  | fire _ run => exact Reaction.grows_run run

/-- A sweep that settles nothing leaves all as it was, and every rule waits. -/
theorem sweep_idle {t : Attributes} {rules : List Rule} {s : Sweep} (h : sweep t rules = .ok s)
    (he : s.events = []) :
    s.attributes = t ∧ ∀ r ∈ s.waiting, r.readiness t = .waiting := by
  induction rules generalizing s with
  | nil => cases h; exact ⟨rfl, by simp⟩
  | cons r rest ih =>
    rw [sweep] at h
    split at h
    · next hw =>
      obtain ⟨s', hs, rfl⟩ := exists_of_do h
      obtain ⟨ht, hall⟩ := ih hs he
      refine ⟨ht, fun r' hr' => ?_⟩
      rcases List.mem_cons.1 hr' with rfl | hr'
      · exact hw
      · exact hall r' hr'
    · obtain ⟨s', hs, rfl⟩ := exists_of_do h
      simp at he
    · cases hr : r.body.run r.node t with
      | error f => simp [hr, bind, Except.bind] at h
      | ok e =>
        cases hs : sweep e.attributes rest with
        | error f => simp [hr, hs, bind, Except.bind] at h
        | ok s' =>
          simp only [hr, hs, bind, Except.bind, pure, Except.pure, Except.ok.injEq] at h
          subst h
          simp at he

/-- No rule that is ready can break the engine. -/
def Safe (S : State) : Prop :=
  ∀ r ∈ S.agenda, r.readiness S.attributes = .ready →
    ∃ e, r.body.run r.node S.attributes = .ok e

/-- Where sweeps over a part of an agenda lead from a state: to what they leave, or to a state that is
not safe. -/
def Leads (S : State) (before : List Rule) : Except Fault Sweep → Prop
  | .ok s => ReflTransGen Step S ⟨s.attributes, S.diagnostics ++ s.diagnostics, before ++ s.waiting⟩
  | .error _ => ∃ S', ReflTransGen Step S S' ∧ ¬Safe S'

theorem leads_sweep (t : Attributes) (ds : List Diagnostic) (before rules : List Rule) :
    Leads ⟨t, ds, before ++ rules⟩ before (sweep t rules) := by
  induction rules generalizing t ds before with
  | nil => simpa [Leads, sweep] using ReflTransGen.refl
  | cons r rest ih =>
    rw [sweep]
    cases hr : r.readiness t with
    | waiting =>
      have hrest := ih t ds (before ++ [r])
      rw [List.append_assoc] at hrest
      cases hs : sweep t rest with
      | error f =>
        rw [hs] at hrest
        exact hrest
      | ok s =>
        rw [hs] at hrest
        simpa [Leads, bind, Except.bind, pure, Except.pure] using hrest
    | blocked =>
      have hstep : Step ⟨t, ds, before ++ r :: rest⟩ _ := .drop hr
      have hrest := ih (t.failAll r.outputs) ds before
      cases hs : sweep (t.failAll r.outputs) rest with
      | error f =>
        rw [hs] at hrest
        obtain ⟨S', hS', hunsafe⟩ := hrest
        exact ⟨S', .head hstep hS', hunsafe⟩
      | ok s =>
        rw [hs] at hrest
        exact ReflTransGen.head hstep hrest
    | ready =>
      cases he : r.body.run r.node t with
      | error f =>
        refine ⟨_, .refl, fun hsafe => ?_⟩
        obtain ⟨e, he'⟩ := hsafe r (by simp) hr
        rw [he] at he'
        cases he'
      | ok e =>
        have hstep : Step ⟨t, ds, before ++ r :: rest⟩ _ := .fire hr he
        have hrest := ih e.attributes (ds ++ e.diagnostics) (before ++ e.chained)
        rw [List.append_assoc] at hrest
        cases hs : sweep e.attributes rest with
        | error f =>
          rw [hs] at hrest
          obtain ⟨S', hS', hunsafe⟩ := hrest
          simp only [hs, bind, Except.bind]
          exact ⟨S', .head hstep hS', hunsafe⟩
        | ok s =>
          rw [hs] at hrest
          simp only [hs, bind, Except.bind, pure, Except.pure]
          have hall := ReflTransGen.head hstep hrest
          simpa [Leads, List.append_assoc] using hall

/-- A resolution leads to a state in which all rules wait, or to one that is not safe. -/
theorem leads_settle (t : Attributes) (ds : List Diagnostic) (rules : List Rule) :
    Leads ⟨t, ds, rules⟩ [] (settle t rules) ∧
      ∀ s, settle t rules = .ok s → ∀ r ∈ s.waiting, r.readiness s.attributes = .waiting := by
  induction rules using Agenda.shrinks_wf.induction generalizing t ds with
  | _ rules ih =>
    have hsweep := leads_sweep t ds [] rules
    rw [settle]
    split
    · next f hf =>
      rw [hf] at hsweep
      exact ⟨hsweep, by simp⟩
    · next s hs =>
      rw [hs] at hsweep
      split
      · next hend =>
        refine ⟨hsweep, fun s' hs' => ?_⟩
        cases hs'
        rcases hend with hevents | hwaiting
        · obtain ⟨ht, hall⟩ := sweep_idle hs hevents
          rw [ht]
          exact hall
        · simp [hwaiting]
      · next hend =>
        have hshrinks : Agenda.Shrinks s.waiting rules :=
          (replaces_of_sweep hs).2 fun hevents => hend (.inl hevents)
        obtain ⟨hlater, hwaits⟩ := ih _ hshrinks s.attributes (ds ++ s.diagnostics)
        cases hsettle : settle s.attributes s.waiting with
        | error f =>
          rw [hsettle] at hlater
          obtain ⟨S', hS', hunsafe⟩ := hlater
          exact ⟨⟨S', hsweep.trans hS', hunsafe⟩, by simp⟩
        | ok later =>
          rw [hsettle] at hlater
          constructor
          · have hall := hsweep.trans hlater
            simpa [Leads, List.append_assoc] using hall
          · intro s' hs'
            cases hs'
            exact hwaits later hsettle

/-- What every step keeps holds when all rules that can be settled are, and those left wait. -/
theorem settle_of_invariant {Inv : State → Prop}
    (step : ∀ S S', Inv S → Step S S' → Inv S') (safe : ∀ S, Inv S → Safe S)
    {t : Attributes} {ds : List Diagnostic} {rules : List Rule} (h : Inv ⟨t, ds, rules⟩) :
    ∃ s, settle t rules = .ok s ∧ Inv ⟨s.attributes, ds ++ s.diagnostics, s.waiting⟩ ∧
      ∀ r ∈ s.waiting, r.readiness s.attributes = .waiting := by
  have hinv : ∀ S, ReflTransGen Step ⟨t, ds, rules⟩ S → Inv S := by
    intro S hS
    induction hS with
    | refl => exact h
    | tail _ hstep ih => exact step _ _ ih hstep
  obtain ⟨hleads, hwaits⟩ := leads_settle t ds rules
  cases hs : settle t rules with
  | error f =>
    rw [hs] at hleads
    obtain ⟨S', hS', hunsafe⟩ := hleads
    exact absurd (safe S' (hinv S' hS')) hunsafe
  | ok s =>
    rw [hs] at hleads
    exact ⟨s, rfl, hinv _ hleads, hwaits s hs⟩

inductive Fate (S : State) : Rule → Prop
  | pending {r} (h : r ∈ S.agenda) : Fate S r
  | dropped {r} (i : Attribute) (hi : i ∈ r.inputs) (h : S.attributes.isFailed i = true) : Fate S r
  | fired {r t e} (inputs : ∀ i ∈ r.inputs, t.isSet i = true)
      (run : r.body.run r.node t = .ok e) (grows : e.attributes.Grows S.attributes)
      (told : ∀ d ∈ e.diagnostics, d ∈ S.diagnostics)
      (chained : ∀ c ∈ e.chained, Fate S c) : Fate S r

theorem Fate.step {S S' : State} {r : Rule} (h : Fate S r) (st : Step S S') : Fate S' r := by
  induction h with
  | @pending r h =>
    cases st with
    | @drop t ds before r₀ after hb =>
      rcases List.mem_append.1 h with h | h
      · exact .pending (List.mem_append_left _ h)
      · rcases List.mem_cons.1 h with rfl | h
        · obtain ⟨i, hi, hf⟩ := readiness_eq_blocked.1 hb
          exact .dropped i hi ((t.grows_failAll _).isFailed hf)
        · exact .pending (List.mem_append_right _ h)
    | @fire t ds before r₀ after e hready hrun =>
      rcases List.mem_append.1 h with h | h
      · exact .pending (List.mem_append_left _ h)
      · rcases List.mem_cons.1 h with rfl | h
        · refine .fired (readiness_eq_ready.1 hready) hrun (.refl _) (fun d hd => ?_) ?_
          · exact List.mem_append_right _ hd
          · intro c hc
            exact .pending (List.mem_append_right _ (List.mem_append_left _ hc))
        · exact .pending (List.mem_append_right _ (List.mem_append_right _ h))
  | dropped i hi h => exact .dropped i hi (st.grows.isFailed h)
  | fired inputs run grows told _ ih =>
    refine .fired inputs run (grows.trans st.grows) (fun d hd => ?_) ih
    cases st with
    | drop _ => exact told d hd
    | fire _ _ => exact List.mem_append_left _ (told d hd)

/-- A fate does not depend on the order of the findings. -/
theorem Fate.of_subset {t : Attributes} {ds ds' : List Diagnostic} {agenda : List Rule} {r : Rule}
    (h : Fate ⟨t, ds, agenda⟩ r) (hds : ∀ d ∈ ds, d ∈ ds') : Fate ⟨t, ds', agenda⟩ r := by
  induction h with
  | pending h => exact .pending h
  | dropped i hi h => exact .dropped i hi h
  | fired inputs run grows told _ ih =>
    exact .fired inputs run grows (fun d hd => hds d (told d hd)) ih

/-- A rule whose inputs are all set in the end has fired on their values, and what it chained has met a
fate. -/
theorem Fate.exists_fired {final : Attributes} {ds : List Diagnostic} {r : Rule}
    (h : Fate ⟨final, ds, []⟩ r) (hset : ∀ i ∈ r.inputs, final.isSet i = true) :
    ∃ t e, r.body.run r.node t = .ok e ∧ (∀ i ∈ r.inputs, t.get? i = final.get? i) ∧
      e.attributes.Grows final ∧ (∀ x ∈ e.diagnostics, x ∈ ds) ∧
      ∀ c ∈ e.chained, Fate ⟨final, ds, []⟩ c := by
  cases h with
  | pending h => cases h
  | dropped i hi hf =>
    obtain ⟨v, hv⟩ := Attributes.isSet_iff.1 (hset i hi)
    rw [Attributes.isFailed_iff, hv] at hf
    cases hf
  | @fired _ t e inputs run grows told chained =>
    have hgrows : t.Grows final := (Reaction.grows_run run).trans grows
    refine ⟨t, e, run, fun i hi => ?_, grows, told, chained⟩
    obtain ⟨v, hv⟩ := Option.isSome_iff_exists.1 (inputs i hi)
    rw [hv, hgrows.get? hv]

/-- What a rule whose inputs are all set in the end has found is told. -/
theorem Fate.exists_run {final : Attributes} {ds : List Diagnostic} {r : Rule}
    (h : Fate ⟨final, ds, []⟩ r) (hset : ∀ i ∈ r.inputs, final.isSet i = true) :
    ∃ t e, r.body.run r.node t = .ok e ∧ (∀ i ∈ r.inputs, t.get? i = final.get? i) ∧
      ∀ x ∈ e.diagnostics, x ∈ ds := by
  obtain ⟨t, e, hrun, hin, _, htold, _⟩ := h.exists_fired hset
  exact ⟨t, e, hrun, hin, htold⟩

end Rule

end ScriptAnalysis
