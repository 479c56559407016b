import ScriptAnalysis.Proofs.Typing.Rules.Stmt

/-! The rules of expressions other than calls conform to the solution. -/
namespace ScriptAnalysis

open Reaction

theorem Names.types_eq (N : Names) (home : NodeId) (es : List Expr) :
    N.types home es = es.mapM (N.type home none) := by
  induction es with
  | nil => rw [Names.types]; rfl
  | cons e rest ih => rw [Names.types, ih, List.mapM_cons]

theorem Ty.Regular.parameterAt {n : Nat} {t : Ty} (h : t.Regular n) (i : Nat) :
    Goal.parameterAt t i = .ok (Names.parameterType t i) := by
  cases h with
  | @template r k ps hk _ _ =>
    simp only [Names.parameterType, Goal.parameterAt, splitParameters_eq hk]
    rfl
  | _ => rfl

theorem Names.indexedType_eq_none {t : Ty} (harray : ∀ u, t = .array u → False)
    (hplaceholder : ∀ n, t = .placeholder n → False) : indexedType t = none := by
  unfold indexedType
  split
  · exact (harray _ rfl).elim
  · exact (hplaceholder _ rfl).elim
  · rfl

namespace Reaction

variable {sol : Solution} {K : Rule → Prop} {node : Node} {told : Bool} {t : Attributes}
  {c : Container}

theorem conforms_emptyLiteral {expected : Option Ty} (ht : t.Within sol)
    (hsol : sol (.typeOf node.id) = some (.of .type (expected.filter (·.isContainer c)))) :
    Conforms sol K node [.typeOf node.id] told (emptyLiteral c node [.typeOf node.id] expected) t := by
  unfold emptyLiteral
  cases expected with
  | none => exact conforms_refuse_one ht hsol rfl
  | some ty =>
    dsimp only
    rw [Option.filter_some] at hsol
    split at hsol
    · next hc =>
      rw [if_pos hc]
      exact conforms_give ht hsol
    · next hc =>
      rw [if_neg hc]
      exact conforms_refuse_one ht hsol rfl

section Literal

variable {place : Node} {s ty : Ty} {rest : List (Node × Ty)} {outs : List Attribute}

theorem literalType_void {soFar : Option Ty} (h : ty.isVoid = true) :
    literalType c node outs soFar ((place, ty) :: rest) =
      .report (.atNode (.voidElement c.word) place) (literalType c node outs soFar rest) := by
  cases soFar <;> rw [literalType, if_pos h]

theorem literalType_first (h : ¬ty.isVoid = true) :
    literalType c node outs none ((place, ty) :: rest) = literalType c node outs (some ty) rest := by
  rw [literalType, if_neg h]

theorem literalType_next (h : ¬ty.isVoid = true) :
    literalType c node outs (some s) ((place, ty) :: rest) =
      match s.commonSupertype? ty with
      | some u => literalType c node outs (some u) rest
      | none => refuse (.atNode (.noCommonSupertype c.word) node) outs := by
  cases hu : s.commonSupertype? ty <;> simp [literalType, h, hu]

end Literal

/-- The type of a literal is found from its elements one by one. If no element counts, one without value
has been reported. -/
theorem conforms_literalType {soFar : Option Ty} {elements : List (Node × Ty)} (ht : t.Within sol)
    (hsol : sol (.typeOf node.id) =
      some (.of .type ((Names.elementType soFar (elements.map (·.2))).map (.container c))))
    (htold : soFar = none → elements = [] → told = true) :
    Conforms sol K node [.typeOf node.id] told (literalType c node [.typeOf node.id] soFar elements) t := by
  induction elements generalizing soFar told with
  | nil =>
    cases soFar with
    | none =>
      rw [htold rfl rfl, literalType]
      exact conforms_failAll (conforms_done (ht.failAll (List.forall_mem_singleton.2 hsol))
        fun a ha => Attributes.isKnown_failAll ha)
    | some ty =>
      rw [literalType]
      exact conforms_give ht hsol
  | cons element rest ih =>
    obtain ⟨place, ty⟩ := element
    rw [List.map_cons] at hsol
    unfold Names.elementType at hsol
    by_cases hv : ty.isVoid = true
    · rw [literalType_void hv]
      rw [if_pos hv] at hsol
      exact conforms_report rfl (ih hsol fun _ _ => rfl)
    · rw [if_neg hv] at hsol
      cases soFar with
      | none =>
        rw [literalType_first hv]
        exact ih hsol (by simp)
      | some s =>
        rw [literalType_next hv]
        cases hu : s.commonSupertype? ty with
        | none =>
          simp only [hu] at hsol
          exact conforms_refuse_one ht hsol rfl
        | some u =>
          simp only [hu] at hsol
          exact ih hsol (by simp)

end Reaction

namespace Program.Drafted

variable {p : Program} {d : Draft} {st : Setting} {role : Role} {node : Node} {left right e : Expr}
  {c : Container}

/-- The parts of an expression are inputs that come before it. -/
theorem input_part (hp : p.Numbered) (hd : p.Drafted d) (hs : ⟨st, .expr role e⟩ ∈ p.sites)
    {x : Expr} (hx : ⟨st, .expr .free x⟩ ∈ Site.ofExpr st e) :
    p.Input d .type (.typeOf x.id) ((d.names p).type st.home none x) ∧ x.id.index < e.id.index := by
  obtain ⟨hsite, hlt⟩ := hp.premise hs (c := ⟨st, .expr .free x⟩) (List.mem_append_right _ hx)
  exact ⟨input_expr hp hd hsite, hlt⟩

theorem final_paren (hp : p.Numbered) (hd : p.Drafted d)
    (hs : ⟨st, .expr role (.paren node e)⟩ ∈ p.sites) :
    p.Final d (Obligation.rule d.tables ⟨node, .copy (.typeOf e.id) (.typeOf node.id)⟩) := by
  obtain ⟨hinput, hlt⟩ := input_part hp hd hs (x := e) (by simp [Site.ofExpr])
  have hsol : (d.names p).solution (.typeOf node.id) = _ := solution_expr hp hs
  rw [Names.typeIn, Names.type] at hsol
  exact final_copy hinput hsol (Attribute.rank_typeOf hlt)

theorem final_emptyForVariable (hp : p.Numbered) (hd : p.Drafted d) {b : Binder} {id : DeclId}
    (hs : ⟨st, .expr (.value b) (.literal node c [])⟩ ∈ p.sites)
    (hid : id ∈ d.tables.declarations.idsAt b.node.id) :
    p.Final d (Obligation.rule d.tables ⟨node, .emptyForVariable c id⟩) := by
  have htype : (d.names p).declarationType id = (d.names p).typeAt b.node.id :=
    declarationType_at hid
  obtain ⟨x, hx, _⟩ := Declarations.mem_idsAt.1 hid
  have hinput := input_declaration hp hd (Declarations.lt_size_of_getElem? hx)
  have hsol : (d.names p).solution (.typeOf node.id) = _ := solution_expr hp hs
  rw [Names.typeIn, Names.type, Names.expectation, ← htype] at hsol
  refine hinput.reads.conforms (fun t ty ht hty hget => ?_)
    (fun hnone => List.forall_mem_singleton.2 ?_) ?_
  · rw [hty] at hsol
    exact conforms_readType hget (conforms_emptyLiteral ht hsol)
  · rw [hnone] at hsol
    exact hsol
  · simp [Goal.outputs, Attribute.rank, Prod.Lex.toLex_lt_toLex]

theorem final_emptyForArgument (hp : p.Numbered) (hd : p.Drafted d) {callee : Expr} {i : Nat}
    (hs : ⟨st, .expr (.argument callee i) (.literal node c [])⟩ ∈ p.sites) :
    p.Final d (Obligation.rule d.tables ⟨node, .emptyForArgument c callee.id i⟩) := by
  obtain ⟨hsite, hlt⟩ := hp.premise hs (c := ⟨st, .expr .free callee⟩)
    (by simp [Site.premises, Site.ofRole])
  have hinput : p.Input d .type (.typeOf callee.id) ((d.names p).type st.home none callee) :=
    input_expr hp hd hsite
  have hsol : (d.names p).solution (.typeOf node.id) = _ := solution_expr hp hs
  rw [Names.typeIn, Names.type, Names.expectation] at hsol
  refine hinput.reads.conforms (fun t ty ht hty hget => ?_)
    (fun hnone => List.forall_mem_singleton.2 ?_) ?_
  · rw [hty] at hsol
    exact conforms_readType hget (conforms_attempt
      ((Names.type_regular callee (by simp) hty).parameterAt i) (conforms_emptyLiteral ht hsol))
  · rw [hnone] at hsol
    exact hsol
  · simpa [Goal.outputs] using Attribute.rank_typeOf (m := callee.id) (n := node.id) hlt

theorem final_literal (hp : p.Numbered) (hd : p.Drafted d) {first : Expr} {rest : List Expr}
    (hs : ⟨st, .expr role (.literal node c (first :: rest))⟩ ∈ p.sites) :
    p.Final d (Obligation.rule d.tables ⟨node, .literal c ((first :: rest).map Expr.node)⟩) := by
  have hparts : ∀ x ∈ first :: rest, ⟨st, .expr .free x⟩ ∈
      Site.ofExpr st (.literal node c (first :: rest)) := by
    intro x hx
    rw [Site.ofExpr]
    exact List.mem_map_of_mem hx
  have hinputs : ∀ x ∈ first :: rest, p.Input d .type (.typeOf x.id)
      ((d.names p).type st.home none x) := fun x hx => (input_part hp hd hs (hparts x hx)).1
  have hsol : (d.names p).solution (.typeOf node.id) = _ := solution_expr hp hs
  rw [Names.typeIn, Names.type, Names.types_eq, List.isEmpty_cons, if_neg Bool.false_ne_true] at hsol
  refine (reads_all List.map_map.symm hinputs).conforms
    (fun t tys ht htys hgets => ?_) (fun hnone => List.forall_mem_singleton.2 ?_) ?_
  · have hlen : tys.length ≤ ((first :: rest).map Expr.node).length := by
      rw [List.length_map, (mapM_eq_some_iff.1 htys).length_eq]
    refine conforms_of_eq (Goal.react_literal ..)
      (conforms_readTypes hgets (conforms_literalType ht ?_ fun _ hnil => ?_))
    · rw [List.map_snd_zip hlen, hsol, htys]
      cases hu : Names.elementType none tys <;> simp [hu]
    · cases mapM_eq_some_iff.1 htys
      simp at hnil
  · rw [hnone] at hsol
    exact hsol
  · simp only [Goal.outputs, List.forall_mem_singleton, List.forall_mem_map]
    exact fun x hx => Attribute.rank_typeOf (input_part hp hd hs (hparts x hx)).2

section Checks

theorem final_negation (hp : p.Numbered) (hd : p.Drafted d)
    (hs : ⟨st, .expr role (.not node e)⟩ ∈ p.sites) :
    p.Final d (Obligation.rule d.tables ⟨node, .negation e.id⟩) := by
  obtain ⟨hinput, _⟩ := input_part hp hd hs (x := e) (by simp [Site.ofExpr])
  refine hinput.reads.conforms (fun t ty ht hty hget => conforms_readType hget ?_)
    (by simp [Goal.outputs]) (by simp [Goal.outputs])
  exact conforms_requireBool (fun _ => rfl) (Names.type_regular e (by simp) hty)
    fun _ => conforms_checked ht

variable {op : BinaryOp}

/-- The rule of an expression with two parts, which reads their types. -/
theorem final_sides (hp : p.Numbered) (hd : p.Drafted d) {label : String} {outs : List Attribute}
    {next : Ty → Ty → Reaction} (hs : ⟨st, .expr role e⟩ ∈ p.sites)
    (hleft : ⟨st, .expr .free left⟩ ∈ Site.ofExpr st e) (hright : ⟨st, .expr .free right⟩ ∈ Site.ofExpr st e)
    (houts : outs ⊆ [.typeOf e.id])
    (fires : ∀ t l r, t.Within (d.names p).solution → l.Regular d.size → r.Regular d.size →
      (d.names p).type st.home none left = some l → (d.names p).type st.home none right = some r →
      (next l r).Conforms (d.names p).solution (fun _ => False) node outs false t)
    (blocks : (d.names p).type st.home none left = none ∨ (d.names p).type st.home none right = none →
      ∀ b ∈ outs, (d.names p).solution b = some .failed) :
    p.Final d ⟨label, [.typeOf left.id] ++ [.typeOf right.id], outs, node,
      readType (.typeOf left.id) fun l => readType (.typeOf right.id) (next l)⟩ := by
  obtain ⟨hinput, hlt⟩ := input_part hp hd hs hleft
  obtain ⟨hinput', hlt'⟩ := input_part hp hd hs hright
  refine hinput.reads.conforms₂ hinput'.reads (fun t l r ht hl hr hget hget' => ?_) blocks fun b hb => ?_
  · exact conforms_readType hget (conforms_readType hget' (fires t l r ht
      (Names.type_regular left (by simp) hl) (Names.type_regular right (by simp) hr) hl hr))
  · rw [List.mem_singleton.1 (houts hb)]
    simpa using ⟨Attribute.rank_typeOf hlt, Attribute.rank_typeOf hlt'⟩

theorem final_equality (hp : p.Numbered) (hd : p.Drafted d)
    (hs : ⟨st, .expr role (.binary node op left right)⟩ ∈ p.sites) :
    p.Final d (Obligation.rule d.tables ⟨node, .equality left.id right.id⟩) := by
  refine final_sides hp hd hs (by simp [Site.ofExpr]) (by simp [Site.ofExpr]) (by simp [Goal.outputs])
    (fun t l r ht hl hr _ _ => ?_) (by simp [Goal.outputs])
  split
  · exact conforms_checked ht
  · exact conforms_reportTypes (fun _ _ => rfl) hl hr (conforms_checked ht)

theorem final_logic (hp : p.Numbered) (hd : p.Drafted d)
    (hs : ⟨st, .expr role (.binary node op left right)⟩ ∈ p.sites) :
    p.Final d (Obligation.rule d.tables ⟨node, .logic left.node right.node⟩) := by
  refine final_sides hp hd hs (by simp [Site.ofExpr]) (by simp [Site.ofExpr]) (by simp [Goal.outputs])
    (fun t l r ht hl hr _ _ => ?_) (by simp [Goal.outputs])
  exact conforms_requireBool (fun _ => rfl) hl fun _ =>
    conforms_requireBool (fun _ => rfl) hr fun _ => conforms_checked ht

theorem final_comparison (hp : p.Numbered) (hd : p.Drafted d)
    (hs : ⟨st, .expr role (.binary node op left right)⟩ ∈ p.sites) :
    p.Final d (Obligation.rule d.tables ⟨node, .comparison left.node right.node⟩) := by
  refine final_sides hp hd hs (by simp [Site.ofExpr]) (by simp [Site.ofExpr]) (by simp [Goal.outputs])
    (fun t l r ht hl hr _ _ => ?_) (by simp [Goal.outputs])
  exact conforms_requireNumber (fun _ => rfl) hl fun _ =>
    conforms_requireNumber (fun _ => rfl) hr fun _ => conforms_checked ht

end Checks

theorem final_arithmetic (hp : p.Numbered) (hd : p.Drafted d) {op : BinaryOp}
    (hs : ⟨st, .expr role (.binary node op left right)⟩ ∈ p.sites) (hop : op.family = .arithmetic) :
    p.Final d (Obligation.rule d.tables ⟨node, .arithmetic op left.id right.id⟩) := by
  have hsol : (d.names p).solution (.typeOf node.id) = _ := solution_expr hp hs
  rw [Names.typeIn, Names.type, hop] at hsol
  refine final_sides hp hd hs (by simp [Site.ofExpr]) (by simp [Site.ofExpr]) (List.Subset.refl _)
    (fun t l r ht hl' hr' hl hr => ?_) fun hnone => List.forall_mem_singleton.2 ?_
  · simp only [hl, hr] at hsol
    cases hty : Ty.arithmetic? op l r with
    | some ty => exact conforms_give ht (hsol.trans (by simp [hty, Slot.of]))
    | none =>
      exact conforms_withText hl' fun _ => conforms_withText hr' fun _ =>
        conforms_refuse_one ht (hsol.trans (by simp [hty, Slot.of])) rfl
  · rw [hsol]
    rcases hnone with hnone | hnone <;> simp [hnone, Slot.of]

theorem final_assignment (hp : p.Numbered) (hd : p.Drafted d)
    (hs : ⟨st, .expr role (.assign node left right)⟩ ∈ p.sites) :
    p.Final d (Obligation.rule d.tables ⟨node, .assignment left.node left.isPlace right.id⟩) := by
  have hsol : (d.names p).solution (.typeOf node.id) = _ := solution_expr hp hs
  rw [Names.typeIn, Names.type] at hsol
  refine final_sides hp hd hs (by simp [Site.ofExpr]) (by simp [Site.ofExpr]) (List.Subset.refl _)
    (fun t l r ht hl' hr' hl hr => ?_) fun hnone => List.forall_mem_singleton.2 ?_
  · rw [hl, hr] at hsol
    have hdone : ∀ told, (Reaction.done).Conforms (d.names p).solution (fun _ => False) node
        [.typeOf node.id] told (t.set (.typeOf node.id) (.type l)) := by
      intro told
      refine conforms_done (ht.set hsol) ?_
      simp [Attributes.isKnown_set]
    refine conforms_set ?_
    split
    · exact conforms_report rfl (hdone true)
    · split
      · exact hdone false
      · exact conforms_report rfl (hdone true)
  · rw [hsol]
    rcases hnone with hnone | hnone <;> simp [hnone, Slot.of]

theorem final_index (hp : p.Numbered) (hd : p.Drafted d)
    (hs : ⟨st, .expr role (.index node left right)⟩ ∈ p.sites) :
    p.Final d (Obligation.rule d.tables ⟨node, .index left.id right.node⟩) := by
  have hsol : (d.names p).solution (.typeOf node.id) = _ := solution_expr hp hs
  rw [Names.typeIn, Names.type] at hsol
  refine final_sides hp hd hs (by simp [Site.ofExpr]) (by simp [Site.ofExpr]) (List.Subset.refl _)
    (fun t l r ht hl' hr' hl hr => ?_) fun hnone => List.forall_mem_singleton.2 ?_
  · simp only [hl, hr, Option.bind_eq_bind, Option.bind_some] at hsol
    have hposition : ∀ element : Reaction,
        (∀ told, element.Conforms (d.names p).solution (fun _ => False) node [.typeOf node.id] told t) →
        (if r.same .int || r.isPlaceholder then element
          else .report (.atNode .nonIntegerIndex right.node) element).Conforms
          (d.names p).solution (fun _ => False) node [.typeOf node.id] false t := by
      intro element h
      split
      · exact h false
      · exact conforms_report rfl (h true)
    refine hposition _ fun told => ?_
    split
    · exact conforms_give ht hsol
    · exact conforms_give ht hsol
    · next harray hplaceholder =>
      refine conforms_withText hl' fun _ => conforms_refuse_one ht ?_ rfl
      rw [hsol, Names.indexedType_eq_none harray hplaceholder]
      rfl
  · rw [hsol]
    rcases hnone with hnone | hnone <;> simp [hnone, Slot.of]

end Program.Drafted

end ScriptAnalysis
