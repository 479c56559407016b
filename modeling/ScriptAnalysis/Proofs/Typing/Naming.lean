import ScriptAnalysis.Proofs.Typing.Completeness
import ScriptAnalysis.Proofs.Typing.Confinement

/-!
What the names of a program are bound to. A name takes the nearest binding of the moment the walk comes to
it, or else the nearest in the end; it is unresolved when there is none in the end either, and a variable
found only in the end has been used too early (`Program.names_resolve`).
-/
namespace ScriptAnalysis

theorem Walk.reference_cases {scope : ScopeId} {ref : Reference} {d d₁ : Draft}
    (h : reference scope ref d = .ok () d₁) :
    (∃ f, d.tables.scopes.Nearest scope ref.name f ∧
      d₁ = ((d.put (.declOf ref.node.id) (.decl f.declaration)).put (.scopeOf ref.node.id)
        (.scope f.scope)).owe ref.node (.copy (.typeOfDecl f.declaration) (.typeOf ref.node.id))) ∨
    (d.tables.scopes.Unbound scope ref.name ∧
      d₁ = d.owe ref.node (.lateReference scope ref.name)) := by
  obtain ⟨found, d', hlookup, h⟩ := bind_eq_ok.1 h
  obtain ⟨_, _, hget, hcheck⟩ := bind_eq_ok.1 hlookup
  cases hget
  cases hsearch : d.tables.scopes.lookup scope ref.name with
  | error f =>
    rw [hsearch] at hcheck
    cases hcheck
  | ok r =>
    rw [hsearch] at hcheck
    cases hcheck
    have hfinds := ScopeTable.finds_of_search hsearch
    cases found with
    | none =>
      cases h
      exact .inr ⟨ScopeTable.unbound_of_finds hfinds, rfl⟩
    | some f =>
      cases h
      exact .inl ⟨f, ScopeTable.nearest_of_finds hfinds, rfl⟩

inductive Program.Outcome (p : Program) (d d₀ : Draft) (ref : Reference) (scope : ScopeId) : Prop
  | early {f : Binding} (found : d₀.tables.scopes.Nearest scope ref.name f)
      (bound : d.bindingAt p ref.node.id = some f)
      (owed : ∀ o ∈ d.obligations.toList, o.node.id = ref.node.id →
        ∀ here name, o.goal ≠ .lateReference here name)
  | late (unbound : d₀.tables.scopes.Unbound scope ref.name)
      (lookup : d.tables.scopes.lookup scope ref.name = .ok (d.bindingAt p ref.node.id))
      (ahead : ∀ f, d.bindingAt p ref.node.id = some f →
        d.VariableIn {m | ref.node.id.index < m} f.declaration)
      (owes : ⟨ref.node, .lateReference scope ref.name⟩ ∈ d.obligations.toList)
      (owed : ∀ o ∈ d.obligations.toList, o.node.id = ref.node.id →
        ∀ here name, o.goal = .lateReference here name → here = scope ∧ name = ref.name)

namespace Program.Analysed

variable {p : Program} {d : Draft} {a : Analysis} {s : Site} {ref : Reference}

/-- The walk comes to each reference of a program, and the reference has its outcome. -/
theorem exists_outcome (hp : p.Numbered) (h : p.Analysed d a) (hs : s ∈ p.sites)
    (hr : s.reference? = some ref) :
    ∃ scope d₀, p.Meets ref.node.id scope d₀ ∧
      d₀.tables.scopes.Extends (fun _ => True) d.tables.scopes ∧ p.Outcome d d₀ ref scope := by
  obtain ⟨scope, d₀, d₁, hmeets, hfresh, hreference, hlater⟩ := exists_meets hp h.walked hs hr
  have hid := Site.id_of_reference? hr
  obtain ⟨e, he, hslots, howed⟩ := Drafted.reference_leaves h.drafted hs hr
  have hbinding := Drafted.bindingAt_eq hp h.drafted hs hr
  have hentry : ∀ o ∈ d.obligations.toList, o.node.id = ref.node.id →
      o ∈ (d.entry s.id).obligations := fun o ho hn =>
    List.mem_filter.2 ⟨ho, by simpa using hn.trans hid.symm⟩
  refine ⟨scope, d₀, hmeets, ?_, ?_⟩
  · rcases Walk.reference_cases hreference with ⟨f, _, rfl⟩ | ⟨_, rfl⟩
    · exact hlater.scopes
    · exact hlater.scopes
  rcases Walk.reference_cases hreference with ⟨f, hnearest, rfl⟩ | ⟨hunbound, rfl⟩
  · have hdecl : (d.entry s.id).slots .decl = some (.set (.decl f.declaration)) := by
      apply hlater.slots
      simp [hid, Draft.owe, Draft.put, Attributes.slot?_set, hfresh .decl rfl]
    have hscope : (d.entry s.id).slots .scope = some (.set (.scope f.scope)) := by
      apply hlater.slots
      simp [hid, Draft.owe, Draft.put, Attributes.slot?_set, hfresh .scope rfl]
    rcases hbinding with ⟨f', hf', hdecl', hscope', _⟩ | ⟨_, _, _, hnone, _⟩
    · obtain rfl : f = f' := by
        cases f
        cases f'
        simp_all
      refine .early hnearest hf' fun o ho hn here name hgoal => ?_
      rcases howed o (hentry o ho hn) with ho | ⟨text, ho⟩
      · cases he with
        | early _ _ _ =>
          rw [List.mem_singleton.1 ho] at hgoal
          cases hgoal
        | late _ _ =>
          rw [hslots] at hdecl
          cases hdecl
      · rw [hgoal] at ho
        cases ho
    · rw [hdecl] at hnone
      cases hnone
  · have howes : ⟨ref.node, .lateReference scope ref.name⟩ ∈ d.obligations.toList :=
      hlater.obligations _ (by simp [Draft.owe])
    rcases howed _ (hentry _ howes rfl) with hmem | ⟨text, hgoal⟩
    · cases he with
      | early _ _ _ => cases List.mem_singleton.1 hmem
      | @late scope' hopen _ =>
        cases List.mem_singleton.1 hmem
        rcases hbinding with ⟨_, _, hdecl, _⟩ | ⟨scope', hopen', hlookup, _, _, hahead⟩
        · rw [hslots] at hdecl
          cases hdecl
        · obtain rfl : scope = scope' := by
            have hslot := hopen.1.symm.trans hopen'.1
            simpa using hslot
          refine .late hunbound hlookup hahead howes fun o ho hn here name hgoal => ?_
          rcases howed o (hentry o ho hn) with ho | ⟨text, ho⟩
          · rw [List.mem_singleton.1 ho] at hgoal
            cases hgoal
            exact ⟨rfl, rfl⟩
          · rw [hgoal] at ho
            cases ho
    · cases hgoal

end Program.Analysed

def Analysis.causesAt (a : Analysis) (n : NodeId) : List Cause :=
  (a.diagnostics.filter (·.node = some n)).map (·.cause)

theorem Analysis.mem_causesAt {a : Analysis} {n : NodeId} {c : Cause} :
    c ∈ a.causesAt n ↔ ∃ x ∈ a.diagnostics, x.node = some n ∧ x.cause = c := by
  simp [causesAt, and_assoc]

namespace Program.Analysed

variable {p : Program} {d : Draft} {a : Analysis} {s : Site} {ref : Reference} {scope : ScopeId}

/-- What is found about the name of a reference is found by its late reference, for a reason. -/
theorem exists_late (hp : p.Numbered) (h : p.Analysed d a) (hs : s ∈ p.sites)
    (hr : s.reference? = some ref) {c : Cause} (hc : c ∈ a.causesAt ref.node.id)
    (hn : c.isNaming = true) :
    ∃ o ∈ d.obligations.toList, o.node.id = ref.node.id ∧
      ∃ scope name, o.goal = .lateReference scope name ∧ d.tables.Blames scope name c := by
  obtain ⟨x, hx, hnode, rfl⟩ := Analysis.mem_causesAt.1 hc
  obtain ⟨ds, hperm, hreached⟩ := h.reached
  let P : Diagnostic → Prop := fun x => x.cause.isNaming = true → x.node = some ref.node.id →
    ∃ o ∈ d.obligations.toList, o.node.id = ref.node.id ∧
      ∃ scope name, o.goal = .lateReference scope name ∧ d.tables.Blames scope name x.cause
  have htold : ∀ x ∈ d.state.diagnostics, P x := by
    intro x hx _ hnode
    obtain ⟨s', hs', hnone, hnode'⟩ := told_of_walk h.walked hx
    have hid : s'.id = s.id := by
      rw [Site.id_of_reference? hr]
      exact Option.some.inj (hnode'.symm.trans hnode)
    rw [hp.eq_of_id hs' hs hid, hr] at hnone
    cases hnone
  have hrules : ∀ r ∈ d.state.agenda, r.Confined P := by
    intro r hr
    obtain ⟨o, ho, rfl⟩ := List.mem_map.1 hr
    apply Goal.confined_react
    · intro x hx hnaming
      rw [hx] at hnaming
      cases hnaming
    · intro scope name c hgoal hc _ hnode
      exact ⟨o, ho, Option.some.inj hnode, scope, name, hgoal, hc⟩
  exact (Rule.confined_of_steps hrules htold hreached).2 x (hperm.mem_iff.1 hx) hn hnode

/-- What the rule of a late reference reports is found at its node. -/
theorem mem_causesAt_of_late (h : p.Analysed d a)
    (ho : ⟨ref.node, .lateReference scope ref.name⟩ ∈ d.obligations.toList) {c : Cause}
    (hreport : ∀ t e, ((Goal.lateReference scope ref.name).react d.tables ref.node).run ref.node t = .ok e →
      .atNode c ref.node ∈ e.diagnostics) :
    c ∈ a.causesAt ref.node.id := by
  have hr := List.mem_map_of_mem (f := (·.rule d.tables)) ho
  obtain ⟨t, e, hrun, _, htold⟩ := (h.fates _ hr).exists_run (by simp [Obligation.rule, Goal.inputs])
  exact Analysis.mem_causesAt.2 ⟨_, htold _ (hreport t e hrun), rfl, rfl⟩

/-- A late reference whose name is not found is reported. -/
theorem mem_unresolved (h : p.Analysed d a)
    (ho : ⟨ref.node, .lateReference scope ref.name⟩ ∈ d.obligations.toList)
    (hlookup : d.tables.scopes.lookup scope ref.name = .ok none) :
    .unresolvedName ref.name ∈ a.causesAt ref.node.id := by
  apply mem_causesAt_of_late h ho
  intro t e hrun
  rw [Goal.react, Goal.compute, Goal.resolveLate, hlookup] at hrun
  exact Reaction.mem_of_refuse hrun

/-- A late reference that finds a variable is reported. -/
theorem mem_usedBefore (h : p.Analysed d a)
    (ho : ⟨ref.node, .lateReference scope ref.name⟩ ∈ d.obligations.toList) {f : Binding}
    {x : Declaration} (hlookup : d.tables.scopes.lookup scope ref.name = .ok (some f))
    (hx : d.tables.declarations.get f.declaration = .ok x) (hk : x.kind = .variable) :
    .usedBeforeDeclaration ref.name ∈ a.causesAt ref.node.id := by
  apply mem_causesAt_of_late h ho
  intro t e hrun
  simp only [Goal.react, Goal.compute, Goal.resolveLate, hlookup, Reaction.attempt, hx, hk] at hrun
  exact Reaction.mem_of_refuse hrun

theorem slot?_boundDecl (hp : p.Numbered) (h : p.Analysed d a) (hs : s ∈ p.sites)
    (hr : s.reference? = some ref) : a.attributes.slot? (.declOf ref.node.id) =
      some (.of .decl ((d.bindingAt p ref.node.id).map (·.declaration))) :=
  h.slot?_of_input (Drafted.input_decl hp h.drafted hs hr)

theorem slot?_boundScope (hp : p.Numbered) (h : p.Analysed d a) (hs : s ∈ p.sites)
    (hr : s.reference? = some ref) : a.attributes.slot? (.scopeOf ref.node.id) =
      some (.of .scope ((d.bindingAt p ref.node.id).map (·.scope))) := by
  rw [h.slot?_of_input (Drafted.input_scope hp h.drafted hs hr), Drafted.scope_of_reference hp hs hr]

theorem slot?_boundType (hp : p.Numbered) (h : p.Analysed d a) (hs : s ∈ p.sites)
    (hr : s.reference? = some ref) : a.attributes.slot? (.typeOf ref.node.id) =
      some (.of .type ((d.names p).referenceType ref)) := by
  rw [← Site.id_of_reference? hr]
  apply h.slot?_eq (h.drafted.supplies_site hs (by simp [Drafted.reference_attributes hr]))
  rw [Drafted.solution_site hp hs]
  unfold Site.reference? at hr
  split at hr
  · next hpart =>
    cases hr
    simp only [Names.siteSlot, hpart]
  · next hpart =>
    cases hr
    simp only [Names.siteSlot, hpart, Names.typeIn, Names.type]
  · cases hr

end Program.Analysed

structure Analysis.Resolves (a : Analysis) (before : ScopeTable) (scope : ScopeId) (ref : Reference) :
    Prop where
  unresolved : (∃ name, .unresolvedName name ∈ a.causesAt ref.node.id) ↔
    a.tables.scopes.Unbound scope ref.name
  failed : a.tables.scopes.Unbound scope ref.name →
    a.attributes.isFailed (.declOf ref.node.id) = true ∧
    a.attributes.isFailed (.scopeOf ref.node.id) = true ∧
    a.attributes.isFailed (.typeOf ref.node.id) = true
  bound : ¬a.tables.scopes.Unbound scope ref.name → ∃ f : Binding,
    a.attributes.decl? (.declOf ref.node.id) = some f.declaration ∧
    a.attributes.scope? (.scopeOf ref.node.id) = some f.scope ∧
    a.tables.scopes.Outward scope f.scope ∧
    (before.Nearest scope ref.name f ∨
      before.Unbound scope ref.name ∧ a.tables.scopes.Nearest scope ref.name f)
  tooEarly : (∃ name, .usedBeforeDeclaration name ∈ a.causesAt ref.node.id) ↔
    before.Unbound scope ref.name ∧ ∃ f x, a.tables.scopes.Nearest scope ref.name f ∧
      a.tables.declarations.get f.declaration = .ok x ∧ x.kind = .variable
  untyped : (∃ name, .usedBeforeDeclaration name ∈ a.causesAt ref.node.id) →
    a.attributes.isSet (.declOf ref.node.id) = true ∧
    a.attributes.isSet (.scopeOf ref.node.id) = true ∧
    a.attributes.isFailed (.typeOf ref.node.id) = true

namespace Program.Analysed

variable {p : Program} {d d₀ : Draft} {a : Analysis} {s : Site} {ref : Reference} {scope : ScopeId}

/-- A name that is bound when the walk comes to it keeps this binding, and nothing is found about it. -/
theorem resolves_early (hp : p.Numbered) (h : p.Analysed d a) (hs : s ∈ p.sites)
    (hr : s.reference? = some ref) {f : Binding}
    (hext : d₀.tables.scopes.Extends (fun _ => True) a.tables.scopes)
    (hfound : d₀.tables.scopes.Nearest scope ref.name f) (hbound : d.bindingAt p ref.node.id = some f)
    (howed : ∀ o ∈ d.obligations.toList, o.node.id = ref.node.id →
      ∀ here name, o.goal ≠ .lateReference here name) :
    a.Resolves d₀.tables.scopes scope ref := by
  have hsilent : ∀ c, c.isNaming = true → c ∉ a.causesAt ref.node.id := by
    intro c hn hc
    obtain ⟨o, ho, hid, here, name, hgoal, _⟩ := exists_late hp h hs hr hc hn
    exact howed o ho hid here name hgoal
  have hfinal : ¬a.tables.scopes.Unbound scope ref.name := by
    intro hunbound
    exact hfound.not_unbound (hunbound.of_extends hext)
  have hdecl := slot?_boundDecl hp h hs hr
  have hscope := slot?_boundScope hp h hs hr
  rw [hbound] at hdecl hscope
  refine ⟨⟨?_, fun hu => absurd hu hfinal⟩, fun hu => absurd hu hfinal, fun _ => ⟨f, ?_, ?_, ?_, ?_⟩,
    ⟨?_, ?_⟩, ?_⟩
  · rintro ⟨name, hc⟩
    exact absurd hc (hsilent _ rfl)
  · exact Attributes.decl?_eq_some.2 hdecl
  · exact Attributes.scope?_eq_some.2 hscope
  · exact hfound.outward.of_extends hext
  · exact .inl hfound
  · rintro ⟨name, hc⟩
    exact absurd hc (hsilent _ rfl)
  · rintro ⟨hunbound, _⟩
    exact absurd hunbound hfound.not_unbound
  · rintro ⟨name, hc⟩
    exact absurd hc (hsilent _ rfl)

/-- A name that is bound neither when the walk comes to it nor in the end is reported as unresolved. -/
theorem resolves_unbound (hp : p.Numbered) (h : p.Analysed d a) (hs : s ∈ p.sites)
    (hr : s.reference? = some ref) (hbound : d.bindingAt p ref.node.id = none)
    (hlookup : d.tables.scopes.lookup scope ref.name = .ok none)
    (howes : ⟨ref.node, .lateReference scope ref.name⟩ ∈ d.obligations.toList)
    (hblames : ∀ c ∈ a.causesAt ref.node.id, c.isNaming = true → d.tables.Blames scope ref.name c) :
    a.Resolves d₀.tables.scopes scope ref := by
  have hfinal : a.tables.scopes.Unbound scope ref.name := by
    rw [h.tables]
    exact ScopeTable.unbound_of_finds (ScopeTable.finds_of_search hlookup)
  have hearly : ¬∃ name, .usedBeforeDeclaration name ∈ a.causesAt ref.node.id := by
    rintro ⟨name, hc⟩
    obtain ⟨f, x, hfound, _⟩ := hblames _ hc rfl
    rw [hlookup] at hfound
    cases hfound
  have hdecl := slot?_boundDecl hp h hs hr
  have hscope := slot?_boundScope hp h hs hr
  have htype := slot?_boundType hp h hs hr
  rw [hbound] at hdecl hscope
  rw [Drafted.referenceType_unbound hbound] at htype
  refine ⟨⟨fun _ => hfinal, fun _ => ⟨_, mem_unresolved h howes hlookup⟩⟩, fun _ => ?_,
    fun hnot => absurd hfinal hnot, ⟨fun hc => absurd hc hearly, ?_⟩, fun hc => absurd hc hearly⟩
  · exact ⟨Attributes.isFailed_iff.2 hdecl, Attributes.isFailed_iff.2 hscope,
      Attributes.isFailed_iff.2 htype⟩
  · rintro ⟨_, f, x, hnearest, _⟩
    exact absurd hfinal hnearest.not_unbound

/-- A name that is bound only after the walk came to it has its nearest binding in the end, and is reported
if that is a variable. -/
theorem resolves_late (hp : p.Numbered) (h : p.Analysed d a) (hs : s ∈ p.sites)
    (hr : s.reference? = some ref) {f : Binding} (hbefore : d₀.tables.scopes.Unbound scope ref.name)
    (hbound : d.bindingAt p ref.node.id = some f)
    (hlookup : d.tables.scopes.lookup scope ref.name = .ok (some f))
    (hahead : d.VariableIn {m | ref.node.id.index < m} f.declaration)
    (howes : ⟨ref.node, .lateReference scope ref.name⟩ ∈ d.obligations.toList)
    (hblames : ∀ c ∈ a.causesAt ref.node.id, c.isNaming = true → d.tables.Blames scope ref.name c) :
    a.Resolves d₀.tables.scopes scope ref := by
  have hnearest : a.tables.scopes.Nearest scope ref.name f := by
    rw [h.tables]
    exact ScopeTable.nearest_of_finds (ScopeTable.finds_of_search hlookup)
  have hblamed : ∀ name, .usedBeforeDeclaration name ∈ a.causesAt ref.node.id →
      ∃ x, d.tables.declarations.get f.declaration = .ok x ∧ x.kind = .variable := by
    intro name hc
    obtain ⟨f', x, hfound, hx, hk⟩ := hblames _ hc rfl
    rw [hlookup] at hfound
    cases hfound
    exact ⟨x, hx, hk⟩
  have hdecl := slot?_boundDecl hp h hs hr
  have hscope := slot?_boundScope hp h hs hr
  have htype := slot?_boundType hp h hs hr
  rw [hbound] at hdecl hscope
  refine ⟨⟨?_, fun hu => absurd hu hnearest.not_unbound⟩, fun hu => absurd hu hnearest.not_unbound,
    fun _ => ⟨f, ?_, ?_, hnearest.outward, .inr ⟨hbefore, hnearest⟩⟩, ⟨?_, ?_⟩, ?_⟩
  · rintro ⟨name, hc⟩
    have hnone : d.tables.scopes.lookup scope ref.name = .ok none := hblames _ hc rfl
    rw [hlookup] at hnone
    cases hnone
  · exact Attributes.decl?_eq_some.2 hdecl
  · exact Attributes.scope?_eq_some.2 hscope
  · rintro ⟨name, hc⟩
    obtain ⟨x, hx, hk⟩ := hblamed name hc
    exact ⟨hbefore, f, x, hnearest, h.tables ▸ hx, hk⟩
  · rintro ⟨_, f', x, hnearest', hx, hk⟩
    rw [h.tables] at hnearest hnearest' hx
    obtain rfl := hnearest.unique h.drafted.sound.rooted hnearest'
    exact ⟨_, mem_usedBefore h howes hlookup hx hk⟩
  · rintro ⟨name, hc⟩
    obtain ⟨x, hx, hk⟩ := hblamed name hc
    rw [Drafted.referenceType_late hbound hahead (Declarations.get_eq_ok.1 hx), if_pos hk] at htype
    exact ⟨Attributes.isSet_iff.2 ⟨_, hdecl⟩, Attributes.isSet_iff.2 ⟨_, hscope⟩,
      Attributes.isFailed_iff.2 htype⟩

end Program.Analysed

/-- Every reference of a program is resolved from the scope in which the walk comes to it. -/
def Analysis.ResolvesAll (a : Analysis) (p : Program) : Prop :=
  ∀ s ∈ p.sites, ∀ ref, s.reference? = some ref →
    ∃ scope d₀, p.Meets ref.node.id scope d₀ ∧ a.Resolves d₀.tables.scopes scope ref

/-- Every reference of a program that parses is resolved from the scope in which the walk comes to it: to
the nearest binding of that moment, or else of the end. -/
theorem Program.names_resolve {tokens : List Token} {file : String} {p : Program} {c : Cursor}
    (h : Program.parse tokens file = .ok p c) : ∃ a, p.analyse = .ok a ∧ a.ResolvesAll p := by
  have hp := numbered_of_parse h
  obtain ⟨d, a, ha, hd⟩ := analysed hp
  refine ⟨a, ha, fun s hs ref hr => ?_⟩
  obtain ⟨scope, d₀, hmeets, hext, hout⟩ := hd.exists_outcome hp hs hr
  refine ⟨scope, d₀, hmeets, ?_⟩
  cases hout with
  | early found bound owed => exact hd.resolves_early hp hs hr (hd.tables ▸ hext) found bound owed
  | late unbound lookup ahead owes owed =>
    have hblames : ∀ c ∈ a.causesAt ref.node.id, c.isNaming = true →
        d.tables.Blames scope ref.name c := by
      intro c hc hn
      obtain ⟨o, ho, hid, here, name, hgoal, hb⟩ := hd.exists_late hp hs hr hc hn
      obtain ⟨rfl, rfl⟩ := owed o ho hid here name hgoal
      exact hb
    cases hbound : d.bindingAt p ref.node.id with
    | none =>
      rw [hbound] at lookup
      exact hd.resolves_unbound hp hs hr hbound lookup owes hblames
    | some f =>
      rw [hbound] at lookup
      exact hd.resolves_late hp hs hr unbound hbound lookup (ahead f hbound) owes hblames

/-- A variable used in front of its declaration and behind it, a function used in front of its declaration,
and names that nothing binds. -/
def namesText : String :=
  "var a: Int = b + later(1) var b: Int = 2 \x7b var c: Int = b missing() \x7d
  fun later(n: Int): Int \x7b return n \x7d (create Gone)()"

theorem Program.names_resolve_late :
    ∃ tokens p c a, Token.tokenize namesText "names" = .ok tokens ∧
      Program.parse tokens "names" = .ok p c ∧ p.analyse = .ok a ∧
      (p.sites.filterMap Site.reference?).map (·.name) = ["b", "later", "b", "missing", "n", "Gone"] ∧
      a.ResolvesAll p := by
  obtain ⟨tokens, p, c, htokens, hparse, hnames⟩ := Program.exists_of_reads "names" namesText
    (fun p => (p.sites.filterMap Site.reference?).map (·.name) =
      ["b", "later", "b", "missing", "n", "Gone"]) (by decide +kernel)
  obtain ⟨a, ha, hresolve⟩ := Program.names_resolve hparse
  exact ⟨tokens, p, c, a, htokens, hparse, ha, of_decide_eq_true hnames, hresolve⟩

end ScriptAnalysis
