import Mathlib.Algebra.Order.Group.Multiset
import ScriptAnalysis.Proofs.Propagation.Sweeps
import ScriptAnalysis.Proofs.Propagation.Trace

/-!
Confluence of resolution. Rules that read only their inputs, of which no two may write the same attribute,
can be settled in any order: two of them settled one after the other lead to the same configuration
(`Config.Step.diamond`), so all resolutions of the rules end alike, or all break (`Rule.resolve_perm`).
-/
namespace ScriptAnalysis

open Relation (ReflTransGen ReflGen)

structure Config where
  slots : Slots
  told : Multiset Diagnostic
  agenda : Multiset Rule

def Rule.State.config (S : Rule.State) : Config := ⟨S.attributes.slot?, S.diagnostics, S.agenda⟩

namespace Config

inductive Step : Config → Config → Prop
  | mk {s : Slots} (told : Multiset Diagnostic) {r : Rule} (rest : Multiset Rule) {tr : Trace}
      (h : r.Settles s tr) :
      Step ⟨s, told, r ::ₘ rest⟩ ⟨s.writeAll tr.writes, told + tr.diagnostics, tr.chained + rest⟩

open Classical in
structure Good (c : Config) : Prop where
  disciplined : ∀ r ∈ c.agenda, r.Disciplined
  owned : ∀ a, c.agenda.countP (·.Owns a) ≤ 1

/-- A trace owns no attribute more often than the rule that leaves it. -/
theorem countP_chained {r : Rule} {tr : Trace} (h : tr.Fits r.Owns true) (a : Attribute)
    [DecidablePred fun r : Rule => r.Owns a] :
    (tr.chained : Multiset Rule).countP (·.Owns a) ≤ if r.Owns a then 1 else 0 := by
  split
  · exact (Multiset.countP_le_card _ _).trans h.count
  · next hr =>
    rw [Nat.le_zero, Multiset.countP_eq_zero]
    intro c hc howns
    exact hr (h.owns c hc a howns)

theorem Step.good {c c' : Config} (h : Step c c') (hc : c.Good) : c'.Good := by
  classical
  cases h with
  | @mk s told r rest tr h =>
    have hfits := h.fits (hc.disciplined r (Multiset.mem_cons_self r rest))
    constructor
    · intro x hx
      rcases Multiset.mem_add.1 hx with hx | hx
      · exact hfits.disciplined x hx
      · exact hc.disciplined x (Multiset.mem_cons_of_mem hx)
    · intro a
      have howned := hc.owned a
      have hchained := countP_chained hfits a
      rw [Multiset.countP_cons] at howned
      rw [Multiset.countP_add]
      omega

theorem Step.known {c c' : Config} (h : Step c c') {a : Attribute} {x : Slot}
    (hx : c.slots a = some x) : c'.slots a = some x := by
  cases h with
  | mk _ _ h => exact Slots.writeAll_of_known hx

/-- Two rules of a configuration own different attributes. -/
theorem Good.apart {s : Slots} {told : Multiset Diagnostic} {r r' : Rule} {rest : Multiset Rule}
    (h : Good ⟨s, told, r ::ₘ r' ::ₘ rest⟩) {a : Attribute} (hr : r.Owns a) : ¬r'.Owns a := by
  classical
  intro hr'
  have howned := h.owned a
  rw [Multiset.countP_cons, Multiset.countP_cons, if_pos hr, if_pos hr'] at howned
  omega

/-- Two steps from one configuration lead to the same one, or can be made after each other. -/
theorem Step.diamond {c b b' : Config} (hc : c.Good) (h : Step c b) (h' : Step c b') :
    b = b' ∨ ∃ d, Step b d ∧ Step b' d := by
  cases h with
  | @mk s told r rest tr h =>
    generalize hagenda : r ::ₘ rest = agenda at h'
    cases h' with
    | @mk _ _ r' rest' tr' h' =>
      rcases Multiset.cons_eq_cons.1 hagenda with ⟨rfl, rfl⟩ | ⟨_, both, rfl, rfl⟩
      · left
        rw [h.unique h']
      · right
        have hd := hc.disciplined r (by simp)
        have hd' := hc.disciplined r' (by simp)
        have hapart : ∀ w ∈ tr.writes, ∀ w' ∈ tr'.writes, w.1 ≠ w'.1 := by
          intro w hw w' hw' heq
          apply hc.apart ((h.fits hd).writes w hw)
          rw [heq]
          exact (h'.fits hd').writes w' hw'
        -- either rule is settled as before, since the other has only added to what is known
        have hsettles : r'.Settles (s.writeAll tr.writes) tr' :=
          h'.mono hd' fun a x hx => Slots.writeAll_of_known hx
        have hsettles' : r.Settles (s.writeAll tr'.writes) tr :=
          h.mono hd fun a x hx => Slots.writeAll_of_known hx
        refine ⟨⟨(s.writeAll tr.writes).writeAll tr'.writes, told + tr.diagnostics + tr'.diagnostics,
          tr'.chained + (tr.chained + both)⟩, ?_, ?_⟩
        · rw [Multiset.add_cons]
          exact .mk _ _ hsettles
        · rw [Multiset.add_cons, Slots.writeAll_comm hapart, add_right_comm told,
            add_left_comm (tr'.chained : Multiset Rule)]
          exact .mk _ _ hsettles'

theorem good_of_steps {c b : Config} (hc : c.Good) (h : ReflTransGen Step c b) : b.Good := by
  induction h with
  | refl => exact hc
  | tail _ h ih => exact h.good ih

/-- What can be reached from a good configuration can be brought together again. -/
theorem join {c b b' : Config} (hc : c.Good) (h : ReflTransGen Step c b)
    (h' : ReflTransGen Step c b') : ∃ d, ReflTransGen Step b d ∧ ReflTransGen Step b' d := by
  let GoodStep (x y : Config) : Prop := x.Good ∧ Step x y
  have hlift : ∀ {x : Config}, ReflTransGen Step c x → ReflTransGen GoodStep c x := by
    intro x hx
    induction hx with
    | refl => exact .refl
    | tail hx hstep ih => exact ih.tail ⟨good_of_steps hc hx, hstep⟩
  have hdiamond : ∀ x y z, GoodStep x y → GoodStep x z →
      ∃ d, ReflGen GoodStep y d ∧ ReflTransGen GoodStep z d := by
    rintro x y z ⟨hx, hy⟩ ⟨_, hz⟩
    rcases hy.diamond hx hz with rfl | ⟨d, hyd, hzd⟩
    · exact ⟨y, .refl, .refl⟩
    · exact ⟨d, .single ⟨hy.good hx, hyd⟩, .single ⟨hz.good hx, hzd⟩⟩
  obtain ⟨d, hd, hd'⟩ := Relation.church_rosser hdiamond (hlift h) (hlift h')
  have hdrop : GoodStep ≤ Step := fun _ _ h => h.2
  exact ⟨d, ReflTransGen.mono hdrop _ _ hd, ReflTransGen.mono hdrop _ _ hd'⟩

def Idle (c : Config) : Prop :=
  ∀ r ∈ c.agenda, (∀ a ∈ r.inputs, c.slots a ≠ some .failed) ∧ ∃ a ∈ r.inputs, c.slots a = none

def Broken (c : Config) : Prop :=
  ∃ r ∈ c.agenda, (∀ a ∈ r.inputs, ∃ v, c.slots.value? a = some v) ∧
    ∃ f, r.body.follow r.node c.slots.value? = .error f

theorem Idle.not_set {c : Config} (h : c.Idle) {r : Rule} (hr : r ∈ c.agenda)
    (hset : ∀ a ∈ r.inputs, ∃ v, c.slots.value? a = some v) : False := by
  obtain ⟨_, a, ha, hnone⟩ := h r hr
  obtain ⟨v, hv⟩ := hset a ha
  rw [Slots.value?_eq_some, hnone] at hv
  cases hv

theorem Idle.eq_of_steps {c d : Config} (h : c.Idle) (hd : ReflTransGen Step c d) : c = d := by
  rcases hd.cases_head with rfl | ⟨b, hstep, _⟩
  · rfl
  · cases hstep with
    | @mk s told r rest tr hsettles =>
      have hr : r ∈ r ::ₘ rest := Multiset.mem_cons_self r rest
      cases hsettles with
      | drop a ha hf => exact absurd hf ((h r hr).1 a ha)
      | fire inputs _ => exact (h.not_set hr inputs).elim

/-- A rule that breaks stays, since no step can settle it. -/
theorem Broken.step {c c' : Config} (hc : c.Good) (h : c.Broken) (hstep : Step c c') : c'.Broken := by
  obtain ⟨r, hr, inputs, f, hf⟩ := h
  have hvalues := Rule.values_mono (fun a x hx => hstep.known hx) inputs
  have hrest : r ∈ c'.agenda := by
    cases hstep with
    | @mk s told r₀ rest tr hsettles =>
      rcases Multiset.mem_cons.1 hr with rfl | hr
      · cases hsettles with
        | drop a ha hfailed => exact (Rule.not_set_of_failed ha hfailed inputs).elim
        | fire _ run =>
          rw [hf] at run
          cases run
      · exact Multiset.mem_add.2 (.inr hr)
  refine ⟨r, hrest, fun a ha => ?_, f, ?_⟩
  · obtain ⟨v, _, hv⟩ := hvalues a ha
    exact ⟨v, hv⟩
  · rw [← Reaction.follow_congr (hc.disciplined r hr) hvalues]
    exact hf

theorem Broken.steps {c d : Config} (hc : c.Good) (h : c.Broken) (hd : ReflTransGen Step c d) :
    d.Broken := by
  induction hd with
  | refl => exact h
  | tail hx hstep ih => exact ih.step (good_of_steps hc hx) hstep

/-- All ways to settle rules end in one configuration. -/
theorem eq_of_idle {c b b' : Config} (hc : c.Good) (h : ReflTransGen Step c b)
    (h' : ReflTransGen Step c b') (hb : b.Idle) (hb' : b'.Idle) : b = b' := by
  obtain ⟨d, hd, hd'⟩ := join hc h h'
  rw [hb.eq_of_steps hd, hb'.eq_of_steps hd']

/-- If one way to settle rules ends, none breaks. -/
theorem not_broken_of_idle {c b b' : Config} (hc : c.Good) (h : ReflTransGen Step c b) (hb : b.Idle)
    (h' : ReflTransGen Step c b') : ¬b'.Broken := by
  intro hbroken
  obtain ⟨d, hd, hd'⟩ := join hc h h'
  obtain ⟨r, hr, inputs, _⟩ := hbroken.steps (good_of_steps hc h') hd'
  rw [← hb.eq_of_steps hd] at hr inputs
  exact hb.not_set hr inputs

end Config

namespace Rule

variable {t : Attributes} {ds : List Diagnostic} {rules rules' : List Rule}

theorem readiness_eq_waiting {r : Rule} (h : r.readiness t = .waiting) :
    (∀ a ∈ r.inputs, t.slot? a ≠ some .failed) ∧ ∃ a ∈ r.inputs, t.slot? a = none := by
  constructor
  · intro a ha hf
    have hblocked := readiness_eq_blocked.2 ⟨a, ha, Attributes.isFailed_iff.2 hf⟩
    rw [h] at hblocked
    cases hblocked
  · obtain ⟨a, ha, hu⟩ := unknown_of_waiting h
    exact ⟨a, ha, by simpa [Attributes.isKnown] using hu⟩

theorem values_of_ready {r : Rule} (h : r.readiness t = .ready) :
    ∀ a ∈ r.inputs, ∃ v, Slots.value? t.slot? a = some v := by
  intro a ha
  obtain ⟨v, hv⟩ := Attributes.isSet_iff.1 (readiness_eq_ready.1 h a ha)
  exact ⟨v, Slots.value?_eq_some.2 hv⟩

theorem run_eq_of_ready {r : Rule} (hd : r.Disciplined) (h : r.readiness t = .ready) :
    r.body.run r.node t = (r.body.follow r.node (Slots.value? t.slot?)).map (·.on t) := by
  apply Reaction.run_eq_follow hd
  intro a ha
  obtain ⟨v, hv⟩ := values_of_ready h a ha
  exact ⟨v, hv, hv⟩

theorem Step.config {S S' : State} (hS : S.config.Good) (h : Step S S') :
    Config.Step S.config S'.config := by
  cases h with
  | @drop t ds before r after hb =>
    obtain ⟨a, ha, hf⟩ := readiness_eq_blocked.1 hb
    have hsettles : r.Settles t.slot? _ := .drop a ha (Attributes.isFailed_iff.1 hf)
    have hstep := Config.Step.mk ds (before ++ after : List Rule) hsettles
    have hagenda : (r ::ₘ (before ++ after : List Rule)) = (before ++ r :: after : List Rule) :=
      Multiset.coe_eq_coe.2 List.perm_middle.symm
    rw [hagenda] at hstep
    simpa [State.config, Attributes.failAll_eq_writeAll, Attributes.slot?_writeAll] using hstep
  | @fire t ds before r after e hr run =>
    have hd : r.Disciplined := hS.disciplined r (by simp [State.config])
    rw [run_eq_of_ready hd hr] at run
    cases hfollow : r.body.follow r.node (Slots.value? t.slot?) with
    | error f =>
      rw [hfollow] at run
      cases run
    | ok tr =>
      rw [hfollow] at run
      cases run
      have hsettles : r.Settles t.slot? tr := .fire (values_of_ready hr) hfollow
      have hstep := Config.Step.mk ds (before ++ after : List Rule) hsettles
      have hagenda : (r ::ₘ (before ++ after : List Rule)) = (before ++ r :: after : List Rule) :=
        Multiset.coe_eq_coe.2 List.perm_middle.symm
      have hrest : ((before ++ (tr.chained ++ after) : List Rule) : Multiset Rule) =
          tr.chained + (before ++ after : List Rule) := by
        rw [← Multiset.coe_add, ← Multiset.coe_add, ← Multiset.coe_add, add_left_comm]
      rw [hagenda, ← hrest] at hstep
      simpa [State.config, Trace.on, Attributes.slot?_writeAll] using hstep

theorem config_of_steps {S S' : State} (hS : S.config.Good) (h : ReflTransGen Step S S') :
    ReflTransGen Config.Step S.config S'.config := by
  induction h with
  | refl => exact .refl
  | tail _ hstep ih => exact ih.tail (hstep.config (Config.good_of_steps hS ih))

theorem broken_of_not_safe {S : State} (hS : S.config.Good) (h : ¬Safe S) : S.config.Broken := by
  simp only [Safe, not_forall, not_exists] at h
  obtain ⟨r, hr, hready, hrun⟩ := h
  have hd : r.Disciplined := hS.disciplined r (Multiset.mem_coe.2 hr)
  refine ⟨r, Multiset.mem_coe.2 hr, values_of_ready hready, ?_⟩
  rw [run_eq_of_ready hd hready] at hrun
  show ∃ f, r.body.follow r.node (Slots.value? S.attributes.slot?) = .error f
  cases hfollow : r.body.follow r.node (Slots.value? S.attributes.slot?) with
  | error f => exact ⟨f, rfl⟩
  | ok tr =>
    rw [hfollow] at hrun
    exact absurd rfl (hrun _)

theorem exists_mem_firstOccurrences {seen : List Attribute} {l : List (Attribute × Node)}
    {a : Attribute} :
    (∃ n, (a, n) ∈ firstOccurrences seen l) ↔ a ∉ seen ∧ ∃ n, (a, n) ∈ l := by
  induction l generalizing seen with
  | nil => simp [firstOccurrences]
  | cons x rest ih =>
    rw [firstOccurrences]
    split
    · next hx =>
      rw [ih]
      constructor
      · rintro ⟨ha, n, hn⟩
        exact ⟨ha, n, List.mem_cons_of_mem _ hn⟩
      · rintro ⟨ha, n, hn⟩
        rcases List.mem_cons.1 hn with rfl | hn
        · exact absurd hx ha
        · exact ⟨ha, n, hn⟩
    · next hx =>
      constructor
      · rintro ⟨n, hn⟩
        rcases List.mem_cons.1 hn with rfl | hn
        · exact ⟨hx, n, List.mem_cons_self⟩
        · obtain ⟨ha, m, hm⟩ := ih.1 ⟨n, hn⟩
          exact ⟨fun h => ha (List.mem_cons_of_mem _ h), m, List.mem_cons_of_mem _ hm⟩
      · rintro ⟨ha, n, hn⟩
        by_cases hax : a = x.1
        · exact ⟨x.2, by simp [hax]⟩
        · rcases List.mem_cons.1 hn with rfl | hn
          · exact absurd rfl hax
          · have hseen : a ∉ x.1 :: seen := by simp [hax, ha]
            obtain ⟨m, hm⟩ := ih.2 ⟨hseen, n, hn⟩
            exact ⟨m, List.mem_cons_of_mem _ hm⟩

/-- An attribute cannot be produced if a stuck rule waits for it and none has it as an output. -/
theorem exists_mem_unproducible {stuck : List Rule} {a : Attribute} :
    (∃ n, (a, n) ∈ unproducible t stuck) ↔
      (∀ r ∈ stuck, a ∉ r.outputs) ∧ ∃ r ∈ stuck, a ∈ r.inputs ∧ t.slot? a = none := by
  rw [unproducible, exists_mem_firstOccurrences]
  simp [unknownInputs, Attributes.isKnown]

theorem exists_mem_stuckDiagnostics {stuck : List Rule} {text : String} :
    (∃ n, .atNode (.unresolvedAttribute text) n ∈ stuckDiagnostics t stuck) ↔
      ∃ a : Attribute, a.render = text ∧ ∃ n, (a, n) ∈ unproducible t stuck := by
  cases stuck with
  | nil => simp [stuckDiagnostics, unproducible, firstOccurrences]
  | cons first rest =>
    rw [stuckDiagnostics]
    split
    · next hnil => simp [hnil, Diagnostic.atNode]
    · next missing hne =>
      constructor
      · rintro ⟨n, hn⟩
        obtain ⟨⟨a, m⟩, hmem, heq⟩ := List.mem_map.1 hn
        simp only [Diagnostic.atNode, Diagnostic.mk.injEq, Cause.unresolvedAttribute.injEq] at heq
        exact ⟨a, heq.1, m, hmem⟩
      · rintro ⟨a, rfl, n, hn⟩
        exact ⟨n, List.mem_map.2 ⟨(a, n), hn, rfl⟩⟩

end Rule

theorem Attributes.slot?_failAll_eq (t : Attributes) (as : List Attribute) (b : Attribute) :
    (t.failAll as).slot? b = (t.slot? b).or (if b ∈ as then some .failed else none) := by
  induction as generalizing t with
  | nil => simp [failAll]
  | cons a as ih =>
    show ((t.fail a).failAll as).slot? b = _
    rw [ih, slot?_fail]
    by_cases hab : a = b
    · subst hab
      cases t.slot? a <;> simp
    · simp [hab, Ne.symm hab]

/-- The end of a resolution whose sweeps came to this: the rules that wait are stuck. -/
def Sweep.close (s : Sweep) : Resolution where
  attributes := s.waiting.foldl (fun t r => t.failAll r.outputs) s.attributes
  diagnostics := s.diagnostics ++ Rule.stuckDiagnostics s.attributes s.waiting
  events := s.events
  stuck := s.waiting

theorem Rule.resolve_eq (t : Attributes) (rules : List Rule) :
    resolve t rules = (settle t rules).map Sweep.close := by
  rw [resolve]
  cases settle t rules <;> rfl

/-- The resolutions that come from two sequences of sweeps end alike: every slot is the same, the rules
have told the same findings, the same rules are stuck, and the same attributes cannot be produced. -/
structure Sweep.Agrees (s s' : Sweep) : Prop where
  slots : ∀ a, s.close.attributes.slot? a = s'.close.attributes.slot? a
  told : s.diagnostics.Perm s'.diagnostics
  stuck : s.waiting.Perm s'.waiting
  missing : ∀ text,
    (∃ n, .atNode (.unresolvedAttribute text) n ∈ Rule.stuckDiagnostics s.attributes s.waiting) ↔
      ∃ n, .atNode (.unresolvedAttribute text) n ∈ Rule.stuckDiagnostics s'.attributes s'.waiting

theorem Sweep.slot?_close (s : Sweep) (a : Attribute) :
    s.close.attributes.slot? a =
      (s.attributes.slot? a).or (if ∃ r ∈ s.waiting, a ∈ r.outputs then some .failed else none) := by
  have hall : s.close.attributes = s.attributes.failAll (s.waiting.flatMap (·.outputs)) := by
    unfold close Attributes.failAll
    rw [List.foldl_flatMap]
  rw [hall, Attributes.slot?_failAll_eq]
  simp only [List.mem_flatMap]

theorem Sweep.agrees_of_perm {s s' : Sweep} (hslots : s.attributes.slot? = s'.attributes.slot?)
    (htold : s.diagnostics.Perm s'.diagnostics) (hstuck : s.waiting.Perm s'.waiting) :
    s.Agrees s' := by
  refine ⟨fun a => ?_, htold, hstuck, fun text => ?_⟩
  · rw [slot?_close, slot?_close, hslots]
    simp only [hstuck.mem_iff]
  · rw [Rule.exists_mem_stuckDiagnostics, Rule.exists_mem_stuckDiagnostics]
    simp only [Rule.exists_mem_unproducible, hslots, hstuck.mem_iff]

namespace Rule

variable {t : Attributes} {rules rules' : List Rule}

theorem config_good (ds : List Diagnostic) (hd : ∀ r ∈ rules, r.Disciplined)
    (howned : rules.Pairwise fun r r' => ∀ a, r.Owns a → ¬r'.Owns a) :
    (State.mk t ds rules).config.Good := by
  classical
  refine ⟨fun r hr => hd r (Multiset.mem_coe.1 hr), fun a => ?_⟩
  show (rules : Multiset Rule).countP (·.Owns a) ≤ 1
  rw [Multiset.coe_countP]
  induction howned with
  | nil => simp
  | @cons r rest hr _ ih =>
    have hrest := ih fun x hx => hd x (List.mem_cons_of_mem r hx)
    rw [List.countP_cons]
    by_cases hown : r.Owns a
    · have hnone : rest.countP (·.Owns a) = 0 := by
        rw [List.countP_eq_zero]
        intro x hx
        simpa using hr x hx a hown
      simp [hnone, hown]
    · simpa [hown] using hrest

/-- The state that sweeps end in, of which every rule waits. -/
theorem idle_of_settle {s : Sweep} (h : settle t rules = .ok s) (ds : List Diagnostic) :
    (State.mk s.attributes ds s.waiting).config.Idle := by
  intro r hr
  exact readiness_eq_waiting ((leads_settle t [] rules).2 s h r (Multiset.mem_coe.1 hr))

theorem resolve_perm (t : Attributes) (hperm : rules.Perm rules') (hd : ∀ r ∈ rules, r.Disciplined)
    (howned : rules.Pairwise fun r r' => ∀ a, r.Owns a → ¬r'.Owns a) :
    (∃ s s', settle t rules = .ok s ∧ settle t rules' = .ok s' ∧
      resolve t rules = .ok s.close ∧ resolve t rules' = .ok s'.close ∧ s.Agrees s') ∨
    ∃ f f', resolve t rules = .error f ∧ resolve t rules' = .error f' := by
  -- the order of the rules makes no difference to the configuration that both start in
  have hstart : (State.mk t [] rules').config = (State.mk t [] rules).config := by
    have hagenda : (rules' : Multiset Rule) = rules := Multiset.coe_eq_coe.2 hperm.symm
    simp only [State.config, hagenda]
  have hgood : (State.mk t [] rules).config.Good := config_good [] hd howned
  have hgood' := hgood
  rw [← hstart] at hgood'
  have hleads := (leads_settle t [] rules).1
  have hleads' := (leads_settle t [] rules').1
  rw [resolve_eq, resolve_eq]
  cases hs : settle t rules with
  | ok s =>
    rw [hs] at hleads
    have hsteps := config_of_steps hgood hleads
    have hidle := idle_of_settle hs s.diagnostics
    cases hs' : settle t rules' with
    | ok s' =>
      rw [hs'] at hleads'
      have hsteps' := config_of_steps hgood' hleads'
      rw [hstart] at hsteps'
      have heq := Config.eq_of_idle hgood hsteps hsteps' hidle (idle_of_settle hs' s'.diagnostics)
      simp only [State.config, List.nil_append, Config.mk.injEq, Multiset.coe_eq_coe] at heq
      exact .inl ⟨s, s', rfl, rfl, rfl, rfl, Sweep.agrees_of_perm heq.1 heq.2.1 heq.2.2⟩
    | error f' =>
      rw [hs'] at hleads'
      obtain ⟨S, hS, hunsafe⟩ := hleads'
      have hsteps' := config_of_steps hgood' hS
      have hbroken := broken_of_not_safe (Config.good_of_steps hgood' hsteps') hunsafe
      rw [hstart] at hsteps'
      exact absurd hbroken (Config.not_broken_of_idle hgood hsteps hidle hsteps')
  | error f =>
    rw [hs] at hleads
    obtain ⟨S, hS, hunsafe⟩ := hleads
    have hsteps := config_of_steps hgood hS
    have hbroken := broken_of_not_safe (Config.good_of_steps hgood hsteps) hunsafe
    cases hs' : settle t rules' with
    | error f' => exact .inr ⟨f, f', rfl, rfl⟩
    | ok s' =>
      rw [hs'] at hleads'
      have hsteps' := config_of_steps hgood' hleads'
      rw [hstart] at hsteps'
      have hidle' := idle_of_settle hs' s'.diagnostics
      exact absurd hbroken (Config.not_broken_of_idle hgood hsteps' hidle' hsteps)

/-- A rule that hands over to another, the rule that this one waits for, and a rule that nothing can
settle. -/
def handover : List Rule :=
  let node : Node := ⟨⟨9⟩, .null⟩
  [{ inputs := [.typeOf ⟨0⟩], outputs := [.typeOf ⟨1⟩], node
     body := .readType (.typeOf ⟨0⟩) fun _ =>
       .handOver [.typeOf ⟨2⟩] [.typeOf ⟨1⟩] .copyType },
   { inputs := [], outputs := [.typeOf ⟨2⟩], node
     body := .report (.atNode .missingReturn node) (.set (.typeOf ⟨2⟩) (.type .int) .done) },
   { inputs := [.typeOf ⟨3⟩], outputs := [.typeOf ⟨4⟩], node, body := .copyType [.typeOf ⟨3⟩] [.typeOf ⟨4⟩] }]

def handoverTable : Attributes := ({} : Attributes).set (.typeOf ⟨0⟩) (.type .bool)

theorem resolve_perm_handover :
    (∀ r ∈ handover, r.Disciplined) ∧
      (handover.Pairwise fun r r' => ∀ a, r.Owns a → ¬r'.Owns a) ∧
      ∃ s s' : Sweep, resolve handoverTable handover = .ok s.close ∧
        resolve handoverTable handover.reverse = .ok s'.close ∧ s.Agrees s' := by
  have hcopy : ∀ a b, (Reaction.copyType [a] [b]).Disciplined [a] true := fun a b =>
    Reaction.disciplined_readType (List.mem_singleton_self a) fun _ => trivial
  have hd : ∀ r ∈ handover, r.Disciplined := by
    simp only [handover, List.forall_mem_cons]
    refine ⟨?_, trivial, hcopy _ _, List.forall_mem_nil _⟩
    exact Reaction.disciplined_readType (List.mem_singleton_self _) fun _ => ⟨rfl, hcopy _ _, trivial⟩
  have howned : handover.Pairwise fun r r' => ∀ a, r.Owns a → ¬r'.Owns a := by
    simp [handover, Owns, Reaction.handOver, Reaction.copyType_eq, Reaction.writes_readType, Reaction.Writes]
    constructor <;> rintro a t (rfl | ⟨_, rfl⟩) <;> simp
  refine ⟨hd, howned, ?_⟩
  rcases resolve_perm handoverTable handover.reverse_perm.symm hd howned with
    ⟨s, s', _, _, hs, hs', hagrees⟩ | ⟨f, f', hf, _⟩
  · exact ⟨s, s', hs, hs', hagrees⟩
  · have hsome : (settleWithin 4 handoverTable handover).isSome = true := by decide +kernel
    obtain ⟨s, hs⟩ := Option.isSome_iff_exists.1 hsome
    rw [resolve_eq, settle_of_settleWithin hs] at hf
    cases hf

end Rule

end ScriptAnalysis
