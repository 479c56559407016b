import Mathlib.Data.Fintype.Card
import Mathlib.Data.Set.Finite.List
import ScriptAnalysis.Proofs.Propagation.Confluence

/-!
The life cycle of rules. A resolution is told as a log of the rules that were settled, each with the table
that it met and what it left behind. Every rule that was given or chained stands in the log once, or is
stuck in the end (`Rule.History.perm`); stuck rules are explained by what nothing produces, or else by a
cycle among them (`Rule.exists_cycle`).
-/
namespace ScriptAnalysis

open Relation (TransGen)

def Event.rule : Event → Rule
  | .fired r | .dropped r => r

namespace Rule

structure Settling where
  event : Event
  met : Attributes
  left : Effect

/-- A rule fires when all its inputs are set, and leaves what its reaction leaves. It is dropped when an
input has failed; then it fails its outputs, and neither reports nor chains anything. -/
def Settling.Proper (s : Settling) : Prop :=
  match s.event with
  | .fired r => (∀ a ∈ r.inputs, s.met.isSet a = true) ∧ r.body.run r.node s.met = .ok s.left
  | .dropped r =>
    (∃ a ∈ r.inputs, s.met.isFailed a = true) ∧ s.left = { attributes := s.met.failAll r.outputs }

/-- Rules of the agenda are settled one after the other; what a rule chains takes its place. -/
inductive History : State → List Settling → State → Prop
  | done {S} : History S [] S
  | next {before after ds s log S} (proper : s.Proper)
      (later : History ⟨s.left.attributes, ds ++ s.left.diagnostics,
        before ++ (s.left.chained ++ after)⟩ log S) :
      History ⟨s.met, ds, before ++ s.event.rule :: after⟩ (s :: log) S

/-- A rule of the agenda has all its inputs, and its reaction breaks. -/
def State.Breaks (S : State) (f : Fault) : Prop :=
  ∃ r ∈ S.agenda, (∀ a ∈ r.inputs, S.attributes.isSet a = true) ∧
    r.body.run r.node S.attributes = .error f

theorem Settling.Proper.grows {s : Settling} (h : s.Proper) : s.met.Grows s.left.attributes := by
  unfold Proper at h
  split at h
  · exact Reaction.grows_run h.2
  · rw [h.2]
    exact s.met.grows_failAll _

/-- The outputs of a rule that was dropped are known from then on. -/
theorem Settling.Proper.known {s : Settling} (h : s.Proper) {r : Rule} (hr : s.event = .dropped r)
    {a : Attribute} (ha : a ∈ r.outputs) : s.left.attributes.isKnown a = true := by
  unfold Proper at h
  rw [hr] at h
  rw [h.2]
  exact Attributes.isKnown_failAll ha

namespace History

variable {S S' S'' : State} {log log' : List Settling}

theorem trans (h : History S log S') (h' : History S' log' S'') : History S (log ++ log') S'' := by
  induction h with
  | done => exact h'
  | next proper _ ih => exact .next proper (ih h')

theorem proper (h : History S log S') : ∀ s ∈ log, s.Proper := by
  induction h with
  | done => simp
  | next hs _ ih =>
    intro s hmem
    rcases List.mem_cons.1 hmem with rfl | hmem
    · exact hs
    · exact ih s hmem

/-- The findings of a resolution are those of the rules in its log. -/
theorem diagnostics (h : History S log S') :
    S'.diagnostics = S.diagnostics ++ log.flatMap (·.left.diagnostics) := by
  induction h with
  | done => simp
  | next _ _ ih => simp [ih]

/-- No rule is lost and none is settled twice. -/
theorem perm (h : History S log S') :
    (S.agenda ++ log.flatMap (·.left.chained)).Perm (log.map (·.event.rule) ++ S'.agenda) := by
  induction h with
  | done => simp
  | @next before after ds s log S _ _ ih =>
    have hmove : (before ++ s.event.rule :: after ++
        (s.left.chained ++ log.flatMap (·.left.chained))).Perm
        (s.event.rule :: (before ++ (s.left.chained ++ after) ++ log.flatMap (·.left.chained))) := by
      rw [← Multiset.coe_eq_coe]
      simp only [← Multiset.coe_add, ← Multiset.cons_coe, Multiset.add_cons, Multiset.cons_add]
      congr 1
      ac_rfl
    simpa using hmove.trans (ih.cons s.event.rule)

/-- The tables along a history only grow, up to the one that it ends with. -/
theorem pairwise (h : History S log S') :
    (S.attributes :: log.map (·.left.attributes)).Pairwise Attributes.Grows ∧
      ∀ t ∈ S.attributes :: log.map (·.left.attributes), t.Grows S'.attributes := by
  induction h with
  | done => simp [Attributes.Grows.refl]
  | @next before after ds s log S proper _ ih =>
    have hgrows := proper.grows
    obtain ⟨hpairs, hends⟩ := ih
    have hfirst : ∀ t ∈ s.left.attributes :: log.map (·.left.attributes), s.met.Grows t := by
      intro t ht
      rcases List.mem_cons.1 ht with rfl | hlater
      · exact hgrows
      · exact hgrows.trans ((List.pairwise_cons.1 hpairs).1 t hlater)
    constructor
    · exact List.pairwise_cons.2 ⟨hfirst, hpairs⟩
    · intro t ht
      rcases List.mem_cons.1 ht with rfl | ht
      · exact hgrows.trans (hends _ List.mem_cons_self)
      · exact hends t ht

end History

/-- What sweeps over a part of an agenda tell of: a history up to what they leave, or up to a rule that
breaks. -/
def Tells (S : State) (before : List Rule) : Except Fault Sweep → Prop
  | .ok s => ∃ log, s.events = log.map (·.event) ∧
      History S log ⟨s.attributes, S.diagnostics ++ s.diagnostics, before ++ s.waiting⟩
  | .error f => ∃ log S', History S log S' ∧ S'.Breaks f

theorem tells_sweep (t : Attributes) (ds : List Diagnostic) (before rules : List Rule) :
    Tells ⟨t, ds, before ++ rules⟩ before (sweep t rules) := by
  induction rules generalizing t ds before with
  | nil => exact ⟨[], rfl, by simpa using History.done⟩
  | cons r rest ih =>
    rw [sweep]
    cases hr : r.readiness t with
    | waiting =>
      have hrest := ih t ds (before ++ [r])
      rw [List.append_assoc] at hrest
      cases hs : sweep t rest with
      | error f =>
        rw [hs] at hrest
        exact hrest
      | ok s =>
        rw [hs] at hrest
        simpa [Tells, bind, Except.bind, pure, Except.pure] using hrest
    | blocked =>
      let settling : Settling := ⟨.dropped r, t, { attributes := t.failAll r.outputs }⟩
      have hproper : settling.Proper := ⟨readiness_eq_blocked.1 hr, rfl⟩
      have hrest := ih (t.failAll r.outputs) ds before
      cases hs : sweep (t.failAll r.outputs) rest with
      | error f =>
        rw [hs] at hrest
        obtain ⟨log, S', hlog, hbreaks⟩ := hrest
        refine ⟨settling :: log, S', .next hproper ?_, hbreaks⟩
        simpa [settling] using hlog
      | ok s =>
        rw [hs] at hrest
        obtain ⟨log, hevents, hlog⟩ := hrest
        refine ⟨settling :: log, by simp [hevents, settling], .next hproper ?_⟩
        simpa [settling] using hlog
    | ready =>
      have hinputs := readiness_eq_ready.1 hr
      cases he : r.body.run r.node t with
      | error f => exact ⟨[], _, .done, r, by simp, hinputs, he⟩
      | ok e =>
        have hproper : Settling.Proper ⟨.fired r, t, e⟩ := ⟨hinputs, he⟩
        have hrest := ih e.attributes (ds ++ e.diagnostics) (before ++ e.chained)
        rw [List.append_assoc] at hrest
        cases hs : sweep e.attributes rest with
        | error f =>
          rw [hs] at hrest
          obtain ⟨log, S', hlog, hbreaks⟩ := hrest
          simp only [hs, bind, Except.bind]
          exact ⟨_, S', .next hproper hlog, hbreaks⟩
        | ok s =>
          rw [hs] at hrest
          obtain ⟨log, hevents, hlog⟩ := hrest
          simp only [hs, bind, Except.bind, pure, Except.pure]
          refine ⟨⟨.fired r, t, e⟩ :: log, by simp [hevents], .next hproper ?_⟩
          simpa using hlog

theorem tells_settle (t : Attributes) (ds : List Diagnostic) (rules : List Rule) :
    Tells ⟨t, ds, rules⟩ [] (settle t rules) := by
  induction rules using Agenda.shrinks_wf.induction generalizing t ds with
  | _ rules ih =>
    have hsweep := tells_sweep t ds [] rules
    rw [settle]
    split
    · next f hf =>
      rw [hf] at hsweep
      exact hsweep
    · next s hs =>
      rw [hs] at hsweep
      split
      · exact hsweep
      · next hend =>
        have hshrinks : Agenda.Shrinks s.waiting rules :=
          (replaces_of_sweep hs).2 fun hevents => hend (.inl hevents)
        obtain ⟨log, hevents, hlog⟩ := hsweep
        have hlater := ih _ hshrinks s.attributes (ds ++ s.diagnostics)
        cases hsettle : settle s.attributes s.waiting with
        | error f =>
          rw [hsettle] at hlater
          obtain ⟨log', S', hlog', hbreaks⟩ := hlater
          exact ⟨log ++ log', S', hlog.trans hlog', hbreaks⟩
        | ok later =>
          rw [hsettle] at hlater
          obtain ⟨log', hevents', hlog'⟩ := hlater
          refine ⟨log ++ log', by simp [hevents, hevents'], ?_⟩
          simpa using hlog.trans hlog'

section Stuck

variable (fixed : Attributes) (stuck : List Rule)

/-- A stuck rule waits for an attribute that no stuck rule would produce. -/
def Missing (a : Attribute) : Prop :=
  (∃ r ∈ stuck, a ∈ r.inputs ∧ fixed.isKnown a = false) ∧ ∀ r ∈ stuck, a ∉ r.outputs

/-- A stuck rule waits for an output of another stuck rule, or of itself. -/
def WaitsFor (r r' : Rule) : Prop :=
  r ∈ stuck ∧ r' ∈ stuck ∧ ∃ a ∈ r.inputs, fixed.isKnown a = false ∧ a ∈ r'.outputs

/-- What is told about stuck rules: nothing if there are none, else each missing attribute once, at a rule
that waits for it; if none is missing, an attribute that a rule waits for, and the rules wait in a cycle. -/
inductive Report : List Diagnostic → Prop
  | nothing (none : stuck = []) : Report []
  | unresolved (missing : List (Attribute × Node)) (some : missing ≠ [])
      (once : (missing.map Prod.fst).Nodup)
      (exact : ∀ a, a ∈ missing.map Prod.fst ↔ Missing fixed stuck a)
      (place : ∀ p ∈ missing, ∃ r ∈ stuck, p.1 ∈ r.inputs ∧ p.2 = r.node) :
      Report (missing.map fun p => .atNode (.unresolvedAttribute p.1.render) p.2)
  | cyclic (r : Rule) (a : Attribute) (hr : r ∈ stuck) (ha : a ∈ r.inputs)
      (unknown : fixed.isKnown a = false) (none : ∀ b, ¬Missing fixed stuck b)
      (cycle : ∃ r ∈ stuck, TransGen (WaitsFor fixed stuck) r r) :
      Report [.atNode (.cyclicDependency a.render) r.node]

variable {fixed stuck}

/-- Among finitely many rules that each lead to another of them, some lead back to themselves. -/
theorem exists_cycle {R : Rule → Rule → Prop} {s : Set Rule} (hs : s.Finite) (hne : s.Nonempty)
    (h : ∀ r ∈ s, ∃ r' ∈ s, R r r') : ∃ r ∈ s, TransGen R r r := by
  by_contra hnone
  -- without a cycle, going from a rule to what it leads to comes to an end
  have hfinite : Finite s := hs
  let After (x y : s) : Prop := TransGen R y.1 x.1
  have htrans : IsTrans _ After := ⟨fun _ _ _ hxy hyz => hyz.trans hxy⟩
  have hirrefl : Std.Irrefl After := ⟨fun x hx => hnone ⟨x.1, x.2, hx⟩⟩
  have hwf : WellFounded After := Finite.wellFounded_of_trans_of_irrefl After
  obtain ⟨first, hfirst⟩ := hne
  obtain ⟨⟨last, hlast⟩, _, hmin⟩ := hwf.has_min Set.univ ⟨⟨first, hfirst⟩, trivial⟩
  obtain ⟨r', hr', hleads⟩ := h last hlast
  exact hmin ⟨r', hr'⟩ trivial (.single hleads)

theorem mem_unproducible {p : Attribute × Node} (h : p ∈ unproducible fixed stuck) :
    ∃ r ∈ stuck, p.1 ∈ r.inputs ∧ p.2 = r.node := by
  have hsub : ∀ (seen : List Attribute) (l : List (Attribute × Node)),
      p ∈ firstOccurrences seen l → p ∈ l := by
    intro seen l hp
    induction l generalizing seen with
    | nil => exact hp
    | cons q rest ih =>
      rw [firstOccurrences] at hp
      split at hp
      · exact List.mem_cons_of_mem q (ih seen hp)
      · rcases List.mem_cons.1 hp with rfl | hp
        · exact List.mem_cons_self
        · exact List.mem_cons_of_mem q (ih _ hp)
  obtain ⟨r, hr, hp⟩ := List.mem_flatMap.1 (hsub _ _ h)
  obtain ⟨a, ha, rfl⟩ := List.mem_map.1 hp
  exact ⟨r, hr, List.mem_of_mem_filter ha, rfl⟩

theorem nodup_firstOccurrences (seen : List Attribute) (l : List (Attribute × Node)) :
    ((firstOccurrences seen l).map Prod.fst).Nodup := by
  induction l generalizing seen with
  | nil => exact List.nodup_nil
  | cons p rest ih =>
    rw [firstOccurrences]
    split
    · exact ih seen
    · rw [List.map_cons, List.nodup_cons]
      refine ⟨fun hmem => ?_, ih _⟩
      obtain ⟨q, hq, hfst⟩ := List.mem_map.1 hmem
      have hnew := (exists_mem_firstOccurrences.1 ⟨q.2, hq⟩).1
      rw [hfst] at hnew
      exact hnew List.mem_cons_self

theorem mem_map_unproducible {a : Attribute} :
    a ∈ (unproducible fixed stuck).map Prod.fst ↔ Missing fixed stuck a := by
  have hmem : a ∈ (unproducible fixed stuck).map Prod.fst ↔
      ∃ n, (a, n) ∈ unproducible fixed stuck := by simp
  rw [hmem, exists_mem_unproducible, and_comm]
  simp [Missing, Attributes.isKnown]

theorem report_stuckDiagnostics (h : ∀ r ∈ stuck, ∃ a ∈ r.inputs, fixed.isKnown a = false) :
    Report fixed stuck (stuckDiagnostics fixed stuck) := by
  cases stuck with
  | nil => exact .nothing rfl
  | cons first rest =>
    have hexact : ∀ a, a ∈ (unproducible fixed (first :: rest)).map Prod.fst ↔
        Missing fixed (first :: rest) a := fun a => mem_map_unproducible
    rw [stuckDiagnostics]
    split
    · next hnil =>
      have hnone : ∀ b, ¬Missing fixed (first :: rest) b := by
        intro b hb
        have hmem := (hexact b).2 hb
        rw [hnil] at hmem
        cases hmem
      -- whatever a rule waits for is an output of some stuck rule
      have hwaits : ∀ r ∈ first :: rest, ∃ r' ∈ first :: rest, WaitsFor fixed (first :: rest) r r' := by
        intro r hr
        obtain ⟨a, ha, hu⟩ := h r hr
        by_contra hno
        apply hnone a
        refine ⟨⟨r, hr, ha, hu⟩, fun r' hr' hout => ?_⟩
        exact hno ⟨r', hr', hr, hr', a, ha, hu, hout⟩
      obtain ⟨a, ha, hu⟩ := h first List.mem_cons_self
      have hmem : a ∈ first.unknownInputs fixed := by simp [unknownInputs, ha, hu]
      cases hunknown : first.unknownInputs fixed with
      | nil =>
        rw [hunknown] at hmem
        cases hmem
      | cons b bs =>
        have hb : b ∈ first.unknownInputs fixed := by simp [hunknown]
        simp only [unknownInputs, List.mem_filter, Bool.not_eq_true'] at hb
        exact .cyclic first b List.mem_cons_self hb.1 hb.2 hnone
          (exists_cycle (List.finite_toSet _) ⟨first, List.mem_cons_self⟩ hwaits)
    · next hne =>
      exact .unresolved _ hne (nodup_firstOccurrences _ _) hexact fun p hp => mem_unproducible hp

end Stuck

/-- How a resolution went, by its log and the table at the fixed point: what is known stays as it is, rules
are fired or dropped as they should, every rule is settled once or stuck, and stuck rules wait for good. -/
structure LifeCycle (t : Attributes) (rules : List Rule) (res : Resolution) (log : List Settling)
    (fixed : Attributes) : Prop where
  history : History ⟨t, [], rules⟩ log ⟨fixed, log.flatMap (·.left.diagnostics), res.stuck⟩
  events : res.events = log.map (·.event)
  /-- The tables from the first to the last: whatever is set or failed in one is so in all later ones. -/
  kept : (t :: log.map (·.left.attributes) ++ [res.attributes]).Pairwise Attributes.Grows
  proper : ∀ s ∈ log, s.Proper
  dropped : ∀ s ∈ log, ∀ r, s.event = .dropped r → ∀ a ∈ r.outputs, s.left.attributes.isKnown a = true
  /-- Each rule that was given or chained is settled once or stuck once. -/
  once : (rules ++ log.flatMap (·.left.chained)).Perm (log.map (·.event.rule) ++ res.stuck)
  waiting : ∀ r ∈ res.stuck, (∀ a ∈ r.inputs, fixed.isFailed a = false) ∧
    ∃ a ∈ r.inputs, fixed.isKnown a = false
  known : ∀ r ∈ res.stuck, ∀ a ∈ r.outputs, res.attributes.isKnown a = true
  told : ∃ added, res.diagnostics = log.flatMap (·.left.diagnostics) ++ added ∧
    Report fixed res.stuck added

theorem waiting_of_readiness {r : Rule} {t : Attributes} (h : r.readiness t = .waiting) :
    (∀ a ∈ r.inputs, t.isFailed a = false) ∧ ∃ a ∈ r.inputs, t.isKnown a = false := by
  constructor
  · intro a ha
    have hnot := (readiness_eq_waiting h).1 a ha
    rw [Ne, ← Attributes.isFailed_iff] at hnot
    simpa using hnot
  · exact unknown_of_waiting h

/-- A resolution runs through a life cycle of its rules; the one way not to end is that a rule which has all
its inputs breaks. -/
theorem resolve_lifeCycle (t : Attributes) (rules : List Rule) :
    (∃ res log fixed, resolve t rules = .ok res ∧ LifeCycle t rules res log fixed) ∨
      ∃ f log S, resolve t rules = .error f ∧ History ⟨t, [], rules⟩ log S ∧ S.Breaks f := by
  have htells := tells_settle t [] rules
  rw [resolve_eq]
  cases hs : settle t rules with
  | error f =>
    rw [hs] at htells
    obtain ⟨log, S, hlog, hbreaks⟩ := htells
    exact .inr ⟨f, log, S, rfl, hlog, hbreaks⟩
  | ok s =>
    rw [hs] at htells
    obtain ⟨log, hevents, hlog⟩ := htells
    have htold : s.diagnostics = log.flatMap (·.left.diagnostics) := by simpa using hlog.diagnostics
    have hwaiting : ∀ r ∈ s.waiting, (∀ a ∈ r.inputs, s.attributes.isFailed a = false) ∧
        ∃ a ∈ r.inputs, s.attributes.isKnown a = false := fun r hr =>
      waiting_of_readiness ((leads_settle t [] rules).2 s hs r hr)
    obtain ⟨hpairs, hends⟩ := hlog.pairwise
    have hclose : s.attributes.Grows s.close.attributes := by
      intro a x hx
      rw [Sweep.slot?_close, hx]
      rfl
    refine .inl ⟨s.close, log, s.attributes, rfl, ?_⟩
    constructor
    case history => simpa [htold, Sweep.close] using hlog
    case events => exact hevents
    case kept =>
      rw [List.pairwise_append]
      refine ⟨hpairs, List.pairwise_singleton _ _, fun u hu v hv => ?_⟩
      rw [List.mem_singleton.1 hv]
      exact (hends u hu).trans hclose
    case proper => exact hlog.proper
    case dropped => exact fun u hu r hr a ha => (hlog.proper u hu).known hr ha
    case once => exact hlog.perm
    case waiting => exact hwaiting
    case known =>
      intro r hr a ha
      have hout : ∃ r ∈ s.waiting, a ∈ r.outputs := ⟨r, hr, ha⟩
      rw [Attributes.isKnown, Sweep.slot?_close, if_pos hout]
      cases s.attributes.slot? a <;> rfl
    case told =>
      exact ⟨_, by rw [← htold]; rfl, report_stuckDiagnostics fun r hr => (hwaiting r hr).2⟩

end Rule

end ScriptAnalysis
