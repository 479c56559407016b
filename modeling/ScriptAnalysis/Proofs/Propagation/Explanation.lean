import ScriptAnalysis.Proofs.Propagation.LifeCycle

/-!
What is told about stuck rules. A stuck rule depends on an attribute that nothing produces, or it waits for
rules that wait in a cycle (`Rule.depends_or_waitsInCycle`). Each attribute that nothing produces is told. A
cycle is told only where there is no such attribute at all, even one that has nothing to do with the cycle
(`Rule.stuck_explained`, `Rule.cycle_untold`).
-/
namespace ScriptAnalysis.Rule

open Relation (ReflTransGen TransGen)

inductive DependsOn (fixed : Attributes) (stuck : List Rule) : Rule → Attribute → Prop
  | here {r a} (hr : r ∈ stuck) (ha : a ∈ r.inputs) (unknown : fixed.isKnown a = false) :
      DependsOn fixed stuck r a
  | later {r r' a} (h : WaitsFor fixed stuck r r') (h' : DependsOn fixed stuck r' a) :
      DependsOn fixed stuck r a

def WaitsInCycle (fixed : Attributes) (stuck : List Rule) (r : Rule) : Prop :=
  ∃ r', ReflTransGen (WaitsFor fixed stuck) r r' ∧ TransGen (WaitsFor fixed stuck) r' r'

/-- How the findings at the end of a resolution account for a stuck rule. -/
inductive Explained (fixed : Attributes) (stuck : List Rule) (told : List Diagnostic) (r : Rule) : Prop
  /-- It depends on an attribute that nothing produces, and that is told. -/
  | missing (a : Attribute) (node : Node) (missing : Missing fixed stuck a)
      (depends : DependsOn fixed stuck r a)
      (told : .atNode (.unresolvedAttribute a.render) node ∈ told)
  | cyclic (a : Attribute) (node : Node) (cycle : WaitsInCycle fixed stuck r)
      (told : .atNode (.cyclicDependency a.render) node ∈ told)
  /-- It depends on nothing that is missing. Its cycle is not told, since other rules miss something. -/
  | overlooked (a : Attribute) (node : Node) (cycle : WaitsInCycle fixed stuck r)
      (none : ∀ b, DependsOn fixed stuck r b → ¬Missing fixed stuck b)
      (missing : Missing fixed stuck a) (told : .atNode (.unresolvedAttribute a.render) node ∈ told)

variable {fixed : Attributes} {stuck : List Rule} {r : Rule} {a : Attribute}

theorem DependsOn.of_reaches {r' : Rule} (h : ReflTransGen (WaitsFor fixed stuck) r r')
    (h' : DependsOn fixed stuck r' a) : DependsOn fixed stuck r a := by
  induction h using ReflTransGen.head_induction_on with
  | refl => exact h'
  | head hstep _ ih => exact .later hstep ih

/-- Each stuck rule depends on something missing, or waits for rules that wait in a cycle. -/
theorem depends_or_waitsInCycle (h : ∀ r ∈ stuck, ∃ a ∈ r.inputs, fixed.isKnown a = false)
    (hr : r ∈ stuck) :
    (∃ a, Missing fixed stuck a ∧ DependsOn fixed stuck r a) ∨ WaitsInCycle fixed stuck r := by
  by_cases hsome : ∃ a, Missing fixed stuck a ∧ DependsOn fixed stuck r a
  · exact .inl hsome
  -- otherwise every rule that can be reached waits for another one
  let reached : Set Rule := {r' | r' ∈ stuck ∧ ReflTransGen (WaitsFor fixed stuck) r r'}
  have hfinite : reached.Finite := (List.finite_toSet stuck).subset fun _ hr' => hr'.1
  have hnext : ∀ r₁ ∈ reached, ∃ r₂ ∈ reached, WaitsFor fixed stuck r₁ r₂ := by
    rintro r₁ ⟨hr₁, hreach⟩
    obtain ⟨a, ha, hu⟩ := h r₁ hr₁
    have hdepends : DependsOn fixed stuck r a := .of_reaches hreach (.here hr₁ ha hu)
    by_contra hno
    apply hsome
    refine ⟨a, ⟨⟨r₁, hr₁, ha, hu⟩, fun r₂ hr₂ hout => hno ?_⟩, hdepends⟩
    have hwaits : WaitsFor fixed stuck r₁ r₂ := ⟨hr₁, hr₂, a, ha, hu, hout⟩
    exact ⟨r₂, ⟨hr₂, hreach.tail hwaits⟩, hwaits⟩
  obtain ⟨r', ⟨_, hreach⟩, hcycle⟩ := exists_cycle hfinite ⟨r, hr, .refl⟩ hnext
  exact .inr ⟨r', hreach, hcycle⟩

/-- A missing attribute is told wherever something is told of missing attributes. -/
theorem exists_told {missing : List (Attribute × Node)}
    (exact : ∀ a, a ∈ missing.map Prod.fst ↔ Missing fixed stuck a) (ha : Missing fixed stuck a) :
    ∃ node, Diagnostic.atNode (.unresolvedAttribute a.render) node ∈
      missing.map fun p => .atNode (.unresolvedAttribute p.1.render) p.2 := by
  obtain ⟨p, hp, rfl⟩ := List.mem_map.1 ((exact a).2 ha)
  exact ⟨p.2, List.mem_map.2 ⟨p, hp, rfl⟩⟩

theorem Report.explained {told : List Diagnostic} (h : Report fixed stuck told)
    (hwaits : ∀ r ∈ stuck, ∃ a ∈ r.inputs, fixed.isKnown a = false) (hr : r ∈ stuck) :
    Explained fixed stuck told r := by
  cases h with
  | nothing none =>
    rw [none] at hr
    cases hr
  | unresolved missing some once exact place =>
    by_cases hdepends : ∃ a, Missing fixed stuck a ∧ DependsOn fixed stuck r a
    · obtain ⟨a, ha, hd⟩ := hdepends
      obtain ⟨node, htold⟩ := exists_told exact ha
      exact .missing a node ha hd htold
    · have hcycle := (depends_or_waitsInCycle hwaits hr).resolve_left hdepends
      obtain ⟨p, hp⟩ := List.exists_mem_of_ne_nil missing some
      have ha : Missing fixed stuck p.1 := (exact p.1).1 (List.mem_map_of_mem hp)
      obtain ⟨node, htold⟩ := exists_told exact ha
      exact .overlooked p.1 node hcycle (fun b hb hm => hdepends ⟨b, hm, hb⟩) ha htold
  | cyclic r₀ a hr₀ ha unknown none cycle =>
    have hcycle := (depends_or_waitsInCycle hwaits hr).resolve_left fun ⟨b, hb, _⟩ => none b hb
    exact .cyclic a r₀.node hcycle List.mem_cons_self

/-- Every rule that is stuck at the end of a resolution is accounted for by what is told there; the one way
not to end is that a rule which has all its inputs breaks. -/
theorem stuck_explained (t : Attributes) (rules : List Rule) :
    (∃ res log fixed told, resolve t rules = .ok res ∧ LifeCycle t rules res log fixed ∧
      res.diagnostics = log.flatMap (·.left.diagnostics) ++ told ∧
      ∀ r ∈ res.stuck, Explained fixed res.stuck told r) ∨
      ∃ f log S, resolve t rules = .error f ∧ History ⟨t, [], rules⟩ log S ∧ S.Breaks f := by
  rcases resolve_lifeCycle t rules with ⟨res, log, fixed, hres, hcycle⟩ | hbreaks
  · obtain ⟨told, htold, hreport⟩ := hcycle.told
    exact .inl ⟨res, log, fixed, told, hres, hcycle, htold, fun r hr =>
      hreport.explained (fun r hr => (hcycle.waiting r hr).2) hr⟩
  · exact .inr hbreaks

/-- Two rules that wait for each other, and one that waits for an attribute that nothing produces. -/
def crossing : List Rule :=
  [⟨"", [.typeOf ⟨1⟩], [.typeOf ⟨2⟩], ⟨⟨2⟩, .null⟩, .done⟩,
    ⟨"", [.typeOf ⟨2⟩], [.typeOf ⟨1⟩], ⟨⟨1⟩, .null⟩, .done⟩,
    ⟨"", [.typeOf ⟨3⟩], [.typeOf ⟨4⟩], ⟨⟨4⟩, .null⟩, .done⟩]

theorem resolve_crossing : resolve {} crossing =
    .ok ⟨({} : Attributes).failAll [.typeOf ⟨2⟩, .typeOf ⟨1⟩, .typeOf ⟨4⟩],
      [.atNode (.unresolvedAttribute "type of node 3") ⟨⟨4⟩, .null⟩], [], crossing⟩ := by
  have hsweep : sweep {} crossing = .ok { attributes := {}, waiting := crossing } := rfl
  rw [resolve, settle_of_done hsweep (.inl rfl)]
  rfl

/-- The rules that wait for each other depend on what the two produce. -/
theorem dependsOn_crossing (h : DependsOn {} crossing r a) (hr : r.node.id.index < 3) :
    a = .typeOf ⟨1⟩ ∨ a = .typeOf ⟨2⟩ := by
  induction h with
  | here hmem ha _ =>
    simp only [crossing, List.mem_cons, List.not_mem_nil, or_false] at hmem
    rcases hmem with rfl | rfl | rfl <;> simp_all
  | later hwaits _ ih =>
    obtain ⟨hmem, hmem', b, hb, _, hout⟩ := hwaits
    simp only [crossing, List.mem_cons, List.not_mem_nil, or_false] at hmem hmem'
    rcases hmem with rfl | rfl | rfl <;> rcases hmem' with rfl | rfl | rfl <;> simp_all

/-- Two rules wait in a cycle and depend on nothing that is missing. Neither a cycle is told nor anything that
they depend on. -/
theorem cycle_untold : ∃ res r, resolve {} crossing = .ok res ∧ r ∈ res.stuck ∧
    TransGen (WaitsFor {} res.stuck) r r ∧
    (∀ a, DependsOn {} res.stuck r a → ¬Missing {} res.stuck a ∧
      ∀ node, .atNode (.unresolvedAttribute a.render) node ∉ res.diagnostics) ∧
    ∀ text node, .atNode (.cyclicDependency text) node ∉ res.diagnostics := by
  have hwaits : WaitsFor {} crossing crossing[0] crossing[1] :=
    ⟨by simp [crossing], by simp [crossing], .typeOf ⟨1⟩, by simp [crossing], rfl, by simp [crossing]⟩
  have hwaits' : WaitsFor {} crossing crossing[1] crossing[0] :=
    ⟨by simp [crossing], by simp [crossing], .typeOf ⟨2⟩, by simp [crossing], rfl, by simp [crossing]⟩
  refine ⟨_, crossing[0], resolve_crossing, hwaits.1, .tail (.single hwaits) hwaits', fun a ha => ?_, ?_⟩
  · rcases dependsOn_crossing ha (by decide) with rfl | rfl
    · refine ⟨fun hm => hm.2 crossing[1] hwaits.2.1 (by simp [crossing]), fun node hmem => ?_⟩
      simp only [Diagnostic.atNode, List.mem_singleton, Diagnostic.mk.injEq, Cause.unresolvedAttribute.injEq] at hmem
      exact absurd hmem.1 (by decide)
    · refine ⟨fun hm => hm.2 crossing[0] hwaits.1 (by simp [crossing]), fun node hmem => ?_⟩
      simp only [Diagnostic.atNode, List.mem_singleton, Diagnostic.mk.injEq, Cause.unresolvedAttribute.injEq] at hmem
      exact absurd hmem.1 (by decide)
  · intro text node hmem
    simp [Diagnostic.atNode] at hmem

end ScriptAnalysis.Rule
