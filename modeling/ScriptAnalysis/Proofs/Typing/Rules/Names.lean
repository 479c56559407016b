import ScriptAnalysis.Proofs.Typing.Rules.Input

/-! The rules of written types, names and declarations conform to the solution. -/
namespace ScriptAnalysis

open Reaction

namespace Attribute

theorem rank_typeOf {m n : NodeId} (h : m.index < n.index) : (typeOf m).rank < (typeOf n).rank := by
  simp [rank, Prod.Lex.toLex_lt_toLex, h]

theorem rank_valueOf {m n : NodeId} (h : m.index < n.index) :
    (valueOf m).rank < (valueOf n).rank := by
  simp [rank, Prod.Lex.toLex_lt_toLex, h]

theorem rank_returnsOf {m n : NodeId} (h : m.index < n.index) :
    (returnsOf m).rank < (returnsOf n).rank := by
  simp [rank, Prod.Lex.toLex_lt_toLex, h]

end Attribute

namespace Program.Drafted

variable {p : Program} {d : Draft} {s : Site} {st : Setting} {id : DeclId} {role : Role} {e : Expr}
  {w : TypeExpr} {ref : Reference} {node : Node}

section Inputs

theorem solution_expr (hp : p.Numbered) (hs : ⟨st, .expr role e⟩ ∈ p.sites) :
    (d.names p).solution (.typeOf e.id) = some (.of .type ((d.names p).typeIn st role e)) :=
  solution_site hp hs .type

theorem input_expr (hp : p.Numbered) (hd : p.Drafted d) (hs : ⟨st, .expr role e⟩ ∈ p.sites) :
    p.Input d .type (.typeOf e.id) ((d.names p).typeIn st role e) where
  solved := solution_expr hp hs
  supplied := by
    refine supplies_site hd hs ?_
    cases e <;> simp [Site.attributes]

theorem input_written (hp : p.Numbered) (hd : p.Drafted d) (hs : ⟨st, .written w⟩ ∈ p.sites) :
    p.Input d .type (.valueOf w.id) ((d.names p).writtenType st.home w) where
  solved := solution_site hp hs .value
  supplied := supplies_site hd hs (by simp [Site.attributes])

theorem input_declaration (hp : p.Numbered) (hd : p.Drafted d) (hid : id.index < d.size) :
    p.Input d .type (.typeOfDecl id) ((d.names p).declarationType id) where
  solved := rfl
  supplied := supplies_typeOfDecl hp hd hid

theorem input_introduced (hp : p.Numbered) (hd : p.Drafted d) {t : Ty}
    (h : d.tables.introduced id = some t) : p.Input d .type (.declaredBy id) (some t) where
  solved := by
    have htables : (d.names p).tables = d.tables := rfl
    simp [Names.solution, htables, h, Slot.of]
  supplied := supplies_declaredBy hp hd h

theorem reference_attributes (hr : s.reference? = some ref) :
    s.attributes = [.type, .decl, .scope] := by
  unfold Site.reference? at hr
  unfold Site.attributes
  split at hr <;> simp_all

theorem input_decl (hp : p.Numbered) (hd : p.Drafted d) (hs : s ∈ p.sites)
    (hr : s.reference? = some ref) :
    p.Input d .decl (.declOf ref.node.id) ((d.names p).decl ref.node.id) where
  solved := by
    rw [← Site.id_of_reference? hr, solution_site hp hs, siteSlot_decl hr, Site.id_of_reference? hr]
  supplied := by
    rw [← Site.id_of_reference? hr]
    exact supplies_site hd hs (by simp [reference_attributes hr])

theorem input_scope (hp : p.Numbered) (hd : p.Drafted d) (hs : s ∈ p.sites)
    (hr : s.reference? = some ref) :
    p.Input d .scope (.scopeOf ref.node.id) ((d.names p).scope ref.node.id) where
  solved := by
    rw [← Site.id_of_reference? hr, solution_site hp hs, siteSlot_scope hr, Site.id_of_reference? hr]
  supplied := by
    rw [← Site.id_of_reference? hr]
    exact supplies_site hd hs (by simp [reference_attributes hr])

theorem input_stmt (hp : p.Numbered) (hd : p.Drafted d) {x : Stmt} (hs : ⟨st, .stmt x⟩ ∈ p.sites)
    (hx : x.isReturnContainer = true) : p.Input d .flag (.returnsOf x.id) (some x.returns) where
  solved := (solution_site hp hs .returns).trans (by simp [Names.siteSlot, hx, Slot.of])
  supplied := supplies_site hd hs (by simp [Site.attributes, hx])

theorem input_body (hp : p.Numbered) (hd : p.Drafted d) {stmts : List Stmt}
    (hs : ⟨st, .body node stmts⟩ ∈ p.sites) :
    p.Input d .flag (.returnsOf node.id) (some (Stmt.bodyReturns stmts)) where
  solved := solution_site hp hs .returns
  supplied := supplies_site hd hs (by simp [Site.attributes])

end Inputs

/-- A type copied from an input is that of the input. -/
theorem final_copy {a b : Attribute} {o : Option Ty} {label : String} (ha : p.Input d .type a o)
    (hb : (d.names p).solution b = some (.of .type o)) (hrank : a.rank < b.rank) :
    p.Final d ⟨label, [a], [b], node, copyType [a] [b]⟩ := by
  refine ha.reads.conforms (fun t x ht hx hget => ?_) (fun ho c hc => ?_) (by simpa using hrank)
  · subst hx
    exact conforms_readType hget (conforms_give ht hb)
  · rw [List.mem_singleton.1 hc, hb, ho]
    rfl

theorem sound_typeName (hp : p.Numbered) (hd : p.Drafted d) {text : String} {scope : ScopeId}
    (hs : ⟨st, .written (.name node text)⟩ ∈ p.sites) (hopen : d.Opens st.home scope) :
    p.Sound d (Obligation.rule d.tables ⟨node, .typeName scope text⟩) := by
  obtain ⟨hlookup, hbound⟩ := lookup_eq hp hd hopen text
  have hsol : (d.names p).solution (.valueOf node.id) =
      some (.of .type ((d.names p).writtenType st.home (.name node text))) :=
    solution_site hp hs .value
  have htables : (d.names p).tables = d.tables := rfl
  refine ⟨fun t ht _ => ?_, by simp [Obligation.rule, Goal.inputs],
    by simp [Obligation.rule, Goal.inputs], by simp [Obligation.rule, Goal.inputs]⟩
  refine conforms_attempt hlookup ?_
  cases hfound : (d.names p).lookup st.home text with
  | none =>
    refine conforms_refuse_one ht ?_ rfl
    rw [hsol, Names.writtenType, hfound]
    rfl
  | some f =>
    obtain ⟨x, hx⟩ := Declarations.exists_item (hbound f hfound)
    have hwritten : (d.names p).writtenType st.home (.name node text) =
        if x.kind.isType then d.tables.introduced f.declaration else none := by
      simp [Names.writtenType, hfound, htables, hx]
    refine conforms_attempt (Declarations.get_eq_ok.2 hx) ?_
    cases hk : x.kind.isType with
    | true =>
      obtain ⟨ty, hty⟩ := introduced_of_isType hp hd hx hk
      simp only [hwritten, hk, if_true, hty] at hsol
      refine conforms_chain (final_copy (input_introduced hp hd hty) hsol ?_)
        (conforms_done ht (by simp [Obligation.rule, Goal.outputs]))
      simp [Attribute.rank, Prod.Lex.toLex_lt_toLex]
    | false =>
      refine conforms_refuse_one ht ?_ rfl
      rw [hsol, hwritten, hk]
      rfl

theorem final_containerType (hp : p.Numbered) (hd : p.Drafted d) {c : Container}
    (hs : ⟨st, .written (.container node c w)⟩ ∈ p.sites) :
    p.Final d (Obligation.rule d.tables ⟨node, .containerType c w.id⟩) := by
  obtain ⟨hc, hlt⟩ := hp.premise hs (c := ⟨st, .written w⟩) (by simp [Site.premises])
  have hsol : (d.names p).solution (.valueOf node.id) =
      some (.of .type ((d.names p).writtenType st.home (.container node c w))) :=
    solution_site hp hs .value
  rw [Names.writtenType] at hsol
  refine (input_written hp hd hc).reads.conforms (fun t x ht hx hget => ?_) (fun ho b hb => ?_) ?_
  · rw [hx] at hsol
    exact conforms_readType hget (conforms_give ht hsol)
  · rw [ho] at hsol
    rw [List.mem_singleton.1 hb]
    exact hsol
  · simpa [Goal.outputs] using Attribute.rank_valueOf (m := w.id) (n := node.id) hlt

/-- A name bound where it stands has the type of its declaration. -/
theorem final_early (hp : p.Numbered) (hd : p.Drafted d) {f : Binding}
    (hsol : (d.names p).solution (.typeOf ref.node.id) =
      some (.of .type ((d.names p).referenceType ref)))
    (hf : d.bindingAt p ref.node.id = some f)
    (h : d.VariableIn {m | m < ref.node.id.index} f.declaration) :
    p.Final d (Obligation.rule d.tables
      ⟨ref.node, .copy (.typeOfDecl f.declaration) (.typeOf ref.node.id)⟩) := by
  rw [referenceType_early hf h] at hsol
  refine final_copy (input_declaration hp hd h.lt_size) hsol ?_
  simp [Attribute.rank, Prod.Lex.toLex_lt_toLex]

/-- A name that is bound later has the type of its declaration, unless that is a variable. -/
theorem sound_late (hp : p.Numbered) (hd : p.Drafted d) (hs : s ∈ p.sites)
    (hr : s.reference? = some ref) {scope : ScopeId}
    (hsol : (d.names p).solution (.typeOf ref.node.id) =
      some (.of .type ((d.names p).referenceType ref)))
    (hlookup : d.tables.scopes.lookup scope ref.name = .ok (d.bindingAt p ref.node.id))
    (h : ∀ f, d.bindingAt p ref.node.id = some f →
      d.VariableIn {m | ref.node.id.index < m} f.declaration) :
    p.Sound d (Obligation.rule d.tables ⟨ref.node, .lateReference scope ref.name⟩) := by
  have hdecl := (input_decl hp hd hs hr).solved
  have hscope := (input_scope hp hd hs hr).solved
  rw [decl_of_reference] at hdecl
  rw [scope_of_reference hp hs hr] at hscope
  refine ⟨fun t ht _ => ?_, by simp [Obligation.rule, Goal.inputs],
    by simp [Obligation.rule, Goal.inputs], by simp [Obligation.rule, Goal.inputs]⟩
  refine conforms_attempt hlookup ?_
  cases hf : d.bindingAt p ref.node.id with
  | none =>
    rw [hf] at hdecl hscope
    rw [referenceType_unbound hf] at hsol
    exact conforms_refuse ht rfl (by simpa [Goal.outputs] using ⟨hdecl, hscope, hsol⟩)
      (by simp [Obligation.rule, Goal.outputs])
  | some f =>
    rw [hf] at hdecl hscope
    have hv := h f hf
    obtain ⟨x, hx, _⟩ := h f hf
    rw [referenceType_late hf hv hx] at hsol
    have ht' := (ht.set hdecl).set hscope
    refine conforms_set (conforms_set (conforms_attempt (Declarations.get_eq_ok.2 hx) ?_))
    split
    · next hk =>
      rw [if_pos hk] at hsol
      refine conforms_refuse ht' rfl (List.forall_mem_singleton.2 hsol) ?_
      simp [Obligation.rule, Goal.outputs, Attributes.isKnown_set]
    · next hk =>
      rw [if_neg hk] at hsol
      refine conforms_chain (final_copy (input_declaration hp hd hv.lt_size) hsol ?_)
        (conforms_done ht' ?_)
      · simp [Attribute.rank, Prod.Lex.toLex_lt_toLex]
      · simp [Obligation.rule, Goal.outputs, Attributes.isKnown_set]

section Declarations

variable {n : NodeId} {name : String} {kind : DeclarationKind} {type declared : Option Slot}

theorem solution_declaration (h : d.Introduces n name kind type declared id) :
    (d.names p).solution (.typeOfDecl id) = some (.of .type ((d.names p).typeAt n)) := by
  obtain ⟨x, hx, _, hn, _⟩ := h.item
  have hmem : id ∈ (d.entry n).declared := Declarations.mem_idsAt.2 ⟨x, hx, hn⟩
  rw [← declarationType_at hmem]
  rfl

/-- A declared name has the type written there. -/
theorem final_declared (hp : p.Numbered) (hd : p.Drafted d) (hw : ⟨st, .written w⟩ ∈ p.sites)
    (h : d.Introduces n name kind type declared id)
    (htype : (d.names p).typeAt n = (d.names p).writtenType st.home w) :
    p.Final d (Obligation.rule d.tables ⟨node, .copy (.valueOf w.id) (.typeOfDecl id)⟩) := by
  have hsol := solution_declaration (p := p) h
  rw [htype] at hsol
  refine final_copy (input_written hp hd hw) hsol ?_
  simp [Attribute.rank, Prod.Lex.toLex_lt_toLex]

theorem input_binder (hp : p.Numbered) (hd : p.Drafted d) {sort : BinderSort} {b : Binder}
    (hs : ⟨st, .binder sort b⟩ ∈ p.sites) :
    p.Input d .type (.valueOf b.type.id) ((d.names p).writtenType st.home b.type) :=
  input_written hp hd (hp.premise hs (c := ⟨st, .written b.type⟩) (by simp [Site.premises])).1

theorem final_functionType (hp : p.Numbered) (hd : p.Drafted d) {head : FunctionHead} {inner : Node}
    {body : List Stmt} (hs : ⟨st, .stmt (.function node head inner body)⟩ ∈ p.sites)
    (h : d.Introduces node.id name kind type declared id) :
    p.Final d (Obligation.rule d.tables
      ⟨node, .functionType id head.result.id (head.parameters.map (·.type.id))⟩) := by
  have hsite : (d.names p).site node.id = some _ := hp.siteAt_eq hs
  have hsol := solution_declaration (p := p) h
  simp only [Names.typeAt, hsite, Option.bind_eq_bind, Option.bind_some] at hsol
  have hresult : p.Input d .type (.valueOf head.result.id) _ :=
    input_written hp hd (hp.premise hs (c := ⟨head.setting node, .written head.result⟩)
      (by simp [Site.premises, Site.ofStmt])).1
  have hparameters : ∀ b ∈ head.parameters, p.Input d .type (.valueOf b.type.id)
      ((d.names p).writtenType node.id b.type) := by
    intro b hb
    exact input_binder hp hd (hp.premise hs (c := ⟨head.setting node, .binder .parameter b⟩)
      (by simp [Site.premises, Site.ofStmt, hb])).1
  refine hresult.reads.conforms₂ (reads_all List.map_map.symm hparameters)
    (fun t r ps ht hr hps hget hgets => ?_) (fun hnone => List.forall_mem_singleton.2 ?_) ?_
  · have hr' : (d.names p).writtenType node.id head.result = some r := hr
    rw [hr', hps] at hsol
    exact conforms_of_eq (Goal.react_functionType ..)
      (conforms_readType hget (conforms_readTypes hgets (conforms_give ht hsol)))
  · rw [hsol]
    rcases hnone with hr | hps
    · have hr' : (d.names p).writtenType node.id head.result = none := hr
      simp [hr', Slot.of]
    · rw [hps]
      cases (d.names p).writtenType node.id head.result <;> rfl
  · simp [Goal.outputs, Attribute.rank, Prod.Lex.toLex_lt_toLex]

/-- The declaration of a type parameter is the only one at its node, and introduces a type. -/
theorem typeParameter_at (hd : p.Drafted d) {b : Binder}
    (hs : ⟨st, .binder .typeParameter b⟩ ∈ p.sites)
    (hid : id ∈ d.tables.declarations.idsAt b.node.id) :
    d.tables.declarations.forNode? b.node.id = some id ∧
      ∃ t, d.tables.introduced id = some t := by
  have hl := hd.leaves _ hs
  generalize he : d.entry _ = e at hl
  cases hl with
  | @typeParameter _ _ id' h =>
    have hids : d.tables.declarations.idsAt b.node.id = [id'] := congrArg Entry.declared he
    rw [hids] at hid
    obtain rfl : id = id' := by simpa using hid
    exact ⟨by simp [Declarations.forNode?_eq, hids], _, introduced_typeParameter h⟩

theorem final_templateType (hp : p.Numbered) (hd : p.Drafted d) {head : TemplateHead} {inner : Node}
    {body : List Stmt} {ids : List DeclId}
    (hs : ⟨st, .stmt (.template node head inner body)⟩ ∈ p.sites)
    (h : d.Introduces node.id name kind type declared id)
    (hids : List.Forall₂ (fun (b : Binder) id => id ∈ d.tables.declarations.idsAt b.node.id)
      head.typeParameters ids) :
    p.Final d (Obligation.rule d.tables
      ⟨node, .templateType id head.result.id ids (head.parameters.map (·.type.id))⟩) := by
  have hsite : (d.names p).site node.id = some _ := hp.siteAt_eq hs
  have hsol := solution_declaration (p := p) h
  simp only [Names.typeAt, hsite, Option.bind_eq_bind, Option.bind_some] at hsol
  have hbinder : ∀ b ∈ head.typeParameters, ⟨head.setting node, .binder .typeParameter b⟩ ∈ p.sites :=
    fun b hb => (hp.premise hs (by simp [Site.premises, Site.ofStmt, hb])).1
  have hresult : p.Input d .type (.valueOf head.result.id) _ :=
    input_written hp hd (hp.premise hs (c := ⟨head.setting node, .written head.result⟩)
      (by simp [Site.premises, Site.ofStmt])).1
  have hparameters : ∀ b ∈ head.parameters, p.Input d .type (.valueOf b.type.id)
      ((d.names p).writtenType node.id b.type) := by
    intro b hb
    exact input_binder hp hd (hp.premise hs (c := ⟨head.setting node, .binder .parameter b⟩)
      (by simp [Site.premises, Site.ofStmt, hb])).1
  have hplaceholders : ∀ id ∈ ids, p.Input d .type (.declaredBy id) (d.tables.introduced id) := by
    refine forall_of_forall₂ hids fun b hb id hid => ?_
    obtain ⟨_, t, ht⟩ := typeParameter_at hd (hbinder b hb) hid
    exact ht ▸ input_introduced hp hd ht
  have hmapM : (head.typeParameters.mapM fun b =>
      (d.tables.declarations.forNode? b.node.id).bind d.tables.introduced) =
        ids.mapM d.tables.introduced := by
    refine mapM_congr_forall₂ (((List.forall₂_and_left head.typeParameters ids).2
      ⟨hbinder, hids⟩).imp fun b id hb => ?_)
    rw [(typeParameter_at hd hb.1 hb.2).1]
    rfl
  have htables : (d.names p).tables = d.tables := rfl
  simp only [htables, hmapM] at hsol
  refine hresult.reads.conforms₃ (reads_all rfl hplaceholders)
    (reads_all List.map_map.symm hparameters)
    (fun t r ts ps ht hr hts hps hget hgets hgets' => ?_)
    (fun hnone => List.forall_mem_singleton.2 ?_) ?_
  · have hr' : (d.names p).writtenType node.id head.result = some r := hr
    rw [hr', hts, hps, hids.length_eq] at hsol
    exact conforms_of_eq (Goal.react_templateType ..) (conforms_readType hget
      (conforms_readTypes (List.rel_append hgets hgets') (conforms_give ht hsol)))
  · rw [hsol]
    rcases hnone with hr | hts | hps
    · have hr' : (d.names p).writtenType node.id head.result = none := hr
      simp [hr', Slot.of]
    · rw [hts]
      cases (d.names p).writtenType node.id head.result <;> rfl
    · rw [hps]
      cases (d.names p).writtenType node.id head.result <;>
        cases ids.mapM d.tables.introduced <;> rfl
  · simp [Goal.outputs, Attribute.rank, Prod.Lex.toLex_lt_toLex, or_imp, forall_and]

end Declarations

end Program.Drafted

end ScriptAnalysis
