import ScriptAnalysis.Proofs.Typing.Rules.Call
import ScriptAnalysis.Proofs.Typing.Walk.Moment

/-!
The analysis of a program. Every rule that the walk leaves conforms to the solution of the program
(`Program.Drafted.sound_rule`), so the analysis succeeds and its table is the solution
(`Program.analysed`).
-/
namespace ScriptAnalysis

namespace Program.Drafted

variable {p : Program} {d : Draft} {s : Site} {st : Setting} {ref : Reference} {e : Entry}
  {o : Obligation}

theorem sound_of_final {r : Rule} (h : p.Final d r) : p.Sound d r := Rule.Final.sound h

theorem sound_reference (hp : p.Numbered) (hd : p.Drafted d) (hs : s ∈ p.sites)
    (hr : s.reference? = some ref)
    (hsol : (d.names p).solution (.typeOf ref.node.id) =
      some (.of .type ((d.names p).referenceType ref)))
    (hl : ref.Leaves d s.setting e) (hslots : (d.entry s.id).slots = e.slots)
    (ho : o ∈ e.obligations) : p.Sound d (o.rule d.tables) := by
  have hbinding := bindingAt_eq hp hd hs hr
  rw [hslots] at hbinding
  cases hl with
  | @early _ f _ _ h =>
    obtain rfl : o = _ := by simpa using ho
    rcases hbinding with ⟨f', hf', hdecl, hscope, _⟩ | ⟨_, _, _, hnone, _⟩
    · obtain rfl : f = f' := by
        cases f
        cases f'
        simp_all
      exact sound_of_final (final_early hp hd hsol hf' h)
    · simp at hnone
  | @late scope hopen h =>
    obtain rfl : o = _ := by simpa using ho
    rcases hbinding with ⟨_, _, hdecl, _⟩ | ⟨scope', hopen', hlookup, _, _, hlate⟩
    · simp at hdecl
    · obtain rfl : scope = scope' := by
        have hslot := hopen.1.symm.trans hopen'.1
        simpa using hslot
      exact sound_late hp hd hs hr hsol hlookup hlate

theorem sound_expr (hp : p.Numbered) (hd : p.Drafted d) {role role' : Role} {x : Expr}
    (hs : ⟨st, .expr role x⟩ ∈ p.sites) (hrole : role' = role ∨ role' = .free)
    (hl : x.Leaves d st role' e) (hslots : (d.entry x.id).slots = e.slots)
    (ho : o ∈ e.obligations) : p.Sound d (o.rule d.tables) := by
  cases hl with
  | int | float | string | emptyFree => simp at ho
  | symbol h => exact sound_reference hp hd hs rfl (solution_expr hp hs) h hslots ho
  | paren =>
    obtain rfl : o = _ := by simpa using ho
    exact sound_of_final (final_paren hp hd hs)
  | emptyValue h =>
    obtain rfl : o = _ := by simpa using ho
    obtain rfl : _ = role := by simpa using hrole
    exact sound_of_final (final_emptyForVariable hp hd hs h)
  | emptyArgument =>
    obtain rfl : o = _ := by simpa using ho
    obtain rfl : _ = role := by simpa using hrole
    exact sound_of_final (final_emptyForArgument hp hd hs)
  | literal =>
    obtain rfl : o = _ := by simpa using ho
    exact sound_of_final (final_literal hp hd hs)
  | not =>
    obtain rfl : o = _ := by simpa using ho
    exact sound_of_final (final_negation hp hd hs)
  | arithmetic h =>
    obtain rfl : o = _ := by simpa using ho
    exact sound_of_final (final_arithmetic hp hd hs h)
  | equality h =>
    obtain rfl : o = _ := by simpa using ho
    exact sound_of_final (final_equality hp hd hs)
  | comparison h =>
    obtain rfl : o = _ := by simpa using ho
    exact sound_of_final (final_comparison hp hd hs)
  | logic h =>
    obtain rfl : o = _ := by simpa using ho
    exact sound_of_final (final_logic hp hd hs)
  | assign =>
    obtain rfl : o = _ := by simpa using ho
    exact sound_of_final (final_assignment hp hd hs)
  | call =>
    obtain rfl : o = _ := by simpa using ho
    exact sound_call hp hd hs
  | templateCall =>
    obtain rfl : o = _ := by simpa using ho
    exact sound_of_final (final_templateCall hp hd hs)
  | index =>
    obtain rfl : o = _ := by simpa using ho
    exact sound_of_final (final_index hp hd hs)
  | member =>
    obtain rfl : o = _ := by simpa using ho
    exact sound_member hp hd hs
  | construct =>
    obtain rfl : o = _ := by simpa using ho
    exact sound_construct hp hd hs

/-- The rule of a block, which is a statement or the body of something. -/
theorem sound_block (st : Setting) (hp : p.Numbered) (hd : p.Drafted d) {scope : ScopeId}
    {node : Node} {body : List Stmt}
    (hsol : (d.names p).solution (.returnsOf node.id) = some (.set (.flag (Stmt.bodyReturns body))))
    (hbody : ∀ x ∈ body, ⟨st, .stmt x⟩ ∈ p.sites ∧ x.id.index < node.id.index)
    (ho : o ∈ (Entry.ofBlock scope node body).obligations) : p.Sound d (o.rule d.tables) := by
  unfold Entry.ofBlock at ho
  split at ho
  · simp at ho
  · next hne =>
    obtain rfl : o = _ := by simpa using ho
    exact sound_of_final (final_blockReturns hp hd hsol hbody hne)

/-- The rules of a function or template, for its type and for its body. -/
theorem sound_routine (hp : p.Numbered) (hd : p.Drafted d) {declared : Obligation} {node inner : Node}
    {body : List Stmt} {result : TypeExpr} (hbody : ⟨st, .body inner body⟩ ∈ p.sites)
    (hresult : ⟨st, .written result⟩ ∈ p.sites) (hdeclared : p.Final d (declared.rule d.tables))
    (ho : o = declared ∨ o = ⟨node, .bodyReturns inner.id result.id⟩) : p.Sound d (o.rule d.tables) := by
  rcases ho with rfl | rfl
  · exact sound_of_final hdeclared
  · exact sound_of_final (final_bodyReturns hp hd hbody hresult)

theorem sound_stmt (hp : p.Numbered) (hd : p.Drafted d) {x : Stmt} (hs : ⟨st, .stmt x⟩ ∈ p.sites)
    (hl : x.Leaves d st e) (ho : o ∈ e.obligations) : p.Sound d (o.rule d.tables) := by
  have hsite : (d.names p).site x.id = some ⟨st, .stmt x⟩ := hp.siteAt_eq hs
  have hpremise : ∀ c ∈ Site.ofStmt st x, c ∈ p.sites ∧ c.index < x.id.index :=
    fun c hc => hp.premise hs hc
  cases hl with
  | @block node body scope =>
    refine sound_block ⟨node.id, st.result⟩ hp hd ?_ (fun x hx => hpremise _ ?_) ho
    · exact (solution_site hp hs .returns).trans
        (by simp [Names.siteSlot, Stmt.isReturnContainer, Stmt.returns, Stmt.bodyReturns])
    · rw [Site.ofStmt]
      exact List.mem_map_of_mem hx
  | @«variable» b value id h =>
    have hw := (hpremise ⟨st, .written b.type⟩ (by simp [Site.ofStmt])).1
    have hv := (hpremise ⟨st, .expr (.value b) value⟩ (by simp [Site.ofStmt])).1
    have hsite' : (d.names p).site b.node.id = _ := hsite
    simp only [Entry.obligations_owing, Entry.obligations_declaring, List.nil_append,
      List.cons_append, List.mem_cons, List.not_mem_nil, or_false] at ho
    rcases ho with rfl | rfl
    · exact sound_of_final (final_declared hp hd hw h (by simp [Names.typeAt, hsite']))
    · exact sound_of_final (final_initializer hp hd hv h.lt_size)
  | @field b id h =>
    have hw := (hpremise ⟨st, .written b.type⟩ (by simp [Site.ofStmt])).1
    have hsite' : (d.names p).site b.node.id = _ := hsite
    obtain rfl : o = _ := by simpa using ho
    exact sound_of_final (final_declared hp hd hw h (by simp [Names.typeAt, hsite']))
  | @function node head inner body id scope h =>
    exact sound_routine hp hd (hpremise ⟨head.setting node, .body inner body⟩ (by simp [Site.ofStmt])).1
      (hpremise ⟨head.setting node, .written head.result⟩ (by simp [Site.ofStmt])).1
      (final_functionType hp hd hs h) (by simpa using ho)
  | @template node head inner body id scope ids h hids =>
    exact sound_routine hp hd (hpremise ⟨head.setting node, .body inner body⟩ (by simp [Site.ofStmt])).1
      (hpremise ⟨head.setting node, .written head.result⟩ (by simp [Site.ofStmt])).1
      (final_templateType hp hd hs h hids) (by simpa using ho)
  | ifElse =>
    unfold Entry.ofBranches at ho
    split at ho
    · next hboth =>
      obtain rfl : o = _ := by simpa using ho
      exact sound_of_final (final_branchesReturn hp hd hs hboth)
    · simp at ho
  | @ret node value =>
    unfold Entry.ofReturn at ho
    split at ho
    · next result x hresult =>
      obtain ⟨st', hr⟩ := exists_result hs hresult
      obtain rfl : o = _ := by simpa using ho
      exact sound_of_final (final_valueReturn hp hd hr
        (hpremise ⟨st, .expr .free x⟩ (by simp [Site.ofStmt])).1)
    · next result hresult =>
      obtain ⟨st', hr⟩ := exists_result hs hresult
      obtain rfl : o = _ := by simpa using ho
      exact sound_of_final (final_emptyReturn hp hd hr)
    · simp at ho
  | _ => simp at ho

theorem sound_site (hp : p.Numbered) (hd : p.Drafted d) (hs : s ∈ p.sites)
    (ho : o ∈ (d.entry s.id).obligations) : p.Sound d (o.rule d.tables) := by
  have hl := hd.leaves s hs
  have hsite : (d.names p).site s.id = some s := hp.siteAt_eq hs
  generalize he : d.entry s.id = e at hl ho
  have hslots := congrArg Entry.slots he
  cases hl with
  | typeName h =>
    obtain rfl : o = _ := by simpa using ho
    exact sound_typeName hp hd hs h
  | containerType =>
    obtain rfl : o = _ := by simpa using ho
    exact sound_of_final (final_containerType hp hd hs)
  | reference h => exact sound_reference hp hd hs rfl (solution_site hp hs .type) h hslots ho
  | expr _ h => exact sound_expr hp hd hs (.inl rfl) h hslots ho
  | @condition st statement x e h =>
    rcases List.mem_append.1 ho with ho | ho
    · exact sound_expr hp hd hs (.inr rfl) h hslots ho
    · obtain rfl : o = _ := by simpa using ho
      exact sound_of_final (final_condition hp hd hs statement)
  | @field st b id h | @parameter st b id h =>
    have hw := (hp.premise hs (c := ⟨st, .written b.type⟩) (by simp [Site.premises])).1
    have hsite' : (d.names p).site b.node.id = _ := hsite
    obtain rfl : o = _ := by simpa using ho
    exact sound_of_final (final_declared hp hd hw h (by simp [Names.typeAt, hsite']))
  | typeParameter => simp at ho
  | @body st node stmts scope =>
    refine sound_block st hp hd (solution_site hp hs .returns)
      (fun x hx => hp.premise hs (List.mem_map_of_mem hx)) ho
  | stmt h => exact sound_stmt hp hd hs h ho

/-- All that is owed is owed at some site. -/
theorem exists_owing (hd : p.Drafted d) (ho : o ∈ d.obligations.toList) :
    ∃ s ∈ p.sites, s.id = o.node.id ∧ o ∈ (d.entry s.id).obligations := by
  have hmem : o ∈ (d.entry o.node.id).obligations := List.mem_filter.2 ⟨ho, by simp⟩
  by_cases hsite : ∃ s ∈ p.sites, s.id = o.node.id
  · obtain ⟨s, hs, hid⟩ := hsite
    exact ⟨s, hs, hid, hid ▸ hmem⟩
  · by_cases hown : o.node.id = p.node.id
    · rw [hown, hd.own] at hmem
      cases hmem
    · rw [hd.only _ hown (by simpa using hsite)] at hmem
      cases hmem

/-- Every rule that the walk over a program leaves conforms to the solution of the program. -/
theorem sound_rule (hp : p.Numbered) (hd : p.Drafted d) : ∀ r ∈ d.rules, p.Sound d r := by
  intro r hr
  obtain ⟨o, ho, rfl⟩ := List.mem_map.1 hr
  obtain ⟨s, hs, _, hmem⟩ := hd.exists_owing ho
  exact sound_site hp hd hs hmem

end Program.Drafted

/-- The resolution of the draft of a program starts as the solution says. -/
theorem Program.Drafted.kept {p : Program} {d : Draft} (hp : p.Numbered) (hd : p.Drafted d) :
    Rule.Kept (d.names p).solution Attribute.rank d.state d.state :=
  Rule.kept_of_conforms (hd.within hp) (hd.sound_rule hp) hd.sound.tells hd.sound.causes

structure Program.Analysed (p : Program) (d : Draft) (a : Analysis) : Prop where
  drafted : p.Drafted d
  tables : a.tables = d.tables
  within : a.attributes.Within (d.names p).solution
  known : ∀ x, d.state.Supplies x → a.attributes.isKnown x = true
  tells : ∀ x, a.attributes.isFailed x = true → a.diagnostics ≠ []
  causes : ∀ x ∈ a.diagnostics, x.cause.isStuck = false
  fates : ∀ r ∈ d.rules, r.Fate ⟨a.attributes, a.diagnostics, []⟩
  walked : Draft.after (p.walk Walk.reference) = .ok d
  resolved : d.resolve = .ok a
  reached : ∃ ds, a.diagnostics.Perm ds ∧
    Relation.ReflTransGen Rule.Step d.state ⟨a.attributes, ds, []⟩

/-- The analysis of a numbered program succeeds, and its table is the solution of the program. -/
theorem Program.analysed {p : Program} (hp : p.Numbered) :
    ∃ d a, p.analyse = .ok a ∧ p.Analysed d a := by
  obtain ⟨d, hwalk, hd⟩ := Program.drafted hp
  obtain ⟨res, hres, _, hc⟩ := Rule.resolve_of_kept (hd.kept hp)
  have hres' : Rule.resolve d.attributes d.rules = .ok res := hres
  obtain ⟨ds, hds, hrun⟩ : ∃ ds : List Diagnostic, ds.Perm (d.diagnostics ++ res.diagnostics) ∧
      d.resolve = .ok ⟨d.tables, res.attributes, ds⟩ := by
    refine ⟨_, List.mergeSort_perm _ fun a b => a.span.start.offset ≤ b.span.start.offset, ?_⟩
    simp only [Draft.resolve, hres', bind, Except.bind, pure, Except.pure]
  have hanalyse : p.analyse = .ok ⟨d.tables, res.attributes, ds⟩ := by
    rw [Program.analyse, hwalk]
    exact hrun
  refine ⟨d, ⟨d.tables, res.attributes, ds⟩, hanalyse, hd, rfl, hc.within, hc.known, ?_, ?_, ?_, hwalk,
    hrun, _, hds, hc.reached⟩
  · intro x hx hnil
    exact hc.tells x hx (List.perm_nil.1 (hnil ▸ hds.symm))
  · intro x hx
    exact hc.causes x (hds.mem_iff.1 hx)
  · intro r hr
    exact (hc.fates r hr).of_subset fun x hx => hds.mem_iff.2 hx

end ScriptAnalysis
