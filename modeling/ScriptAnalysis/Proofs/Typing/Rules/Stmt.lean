import ScriptAnalysis.Proofs.Typing.Rules.Names

/-! The rules of statements conform to the solution. -/
namespace ScriptAnalysis

open Reaction

namespace Reaction

variable {sol : Solution} {K : Rule → Prop} {node : Node} {outs : List Attribute} {told : Bool}
  {t : Attributes}

theorem conforms_readAllFlags {as : List Attribute} {bs : List Bool} {next : Bool → Reaction}
    (ha : List.Forall₂ (fun a b => t.get? a = some (.flag b)) as bs)
    (h : Conforms sol K node outs told (next (bs.all id)) t) :
    Conforms sol K node outs told (readAllFlags as next) t := by
  induction ha with
  | nil => exact h
  | @cons a b as bs hget _ ih =>
    refine conforms_readFlag hget ?_
    cases b with
    | true => exact ih h
    | false => exact h

theorem conforms_requireBool {n : Nat} {cause : String → Cause} {ty : Ty} {place : Node}
    {next : Reaction} (hc : ∀ text, (cause text).isStuck = false) (hty : ty.Regular n)
    (h : ∀ told, Conforms sol K node outs told next t) :
    Conforms sol K node outs told (Goal.requireBool cause ty place next) t := by
  unfold Goal.requireBool
  split
  · exact h told
  · exact conforms_reportType hc hty (h true)

theorem conforms_requireNumber {n : Nat} {cause : String → Cause} {ty : Ty} {place : Node}
    {next : Reaction} (hc : ∀ text, (cause text).isStuck = false) (hty : ty.Regular n)
    (h : ∀ told, Conforms sol K node outs told next t) :
    Conforms sol K node outs told (Goal.requireNumber cause ty place next) t := by
  unfold Goal.requireNumber
  split
  · exact h told
  · exact conforms_reportType hc hty (h true)

theorem conforms_checked (h : t.Within sol) : Conforms sol K node [] told .done t :=
  conforms_done h (by simp)

end Reaction

namespace Program.Drafted

variable {p : Program} {d : Draft} {st : Setting} {node : Node}

/-- A block returns if it has return containers and all of them return. -/
theorem final_blockReturns (hp : p.Numbered) (hd : p.Drafted d) {body : List Stmt}
    (hsol : (d.names p).solution (.returnsOf node.id) = some (.set (.flag (Stmt.bodyReturns body))))
    (hbody : ∀ x ∈ body, ⟨st, .stmt x⟩ ∈ p.sites ∧ x.id.index < node.id.index)
    (hne : body.filter Stmt.isReturnContainer ≠ []) :
    p.Final d (Obligation.rule d.tables
      ⟨node, .blockReturns ((body.filter Stmt.isReturnContainer).map Stmt.id)⟩) := by
  have hinputs : ∀ x ∈ body.filter Stmt.isReturnContainer,
      p.Input d .flag (.returnsOf x.id) (some x.returns) := by
    intro x hx
    obtain ⟨hx, hcontainer⟩ := List.mem_filter.1 hx
    exact input_stmt hp hd (hbody x hx).1 hcontainer
  have hany : body.any Stmt.isReturnContainer = true := by
    by_contra hnone
    exact hne (List.filter_eq_nil_iff.2 (by simpa using hnone))
  have hflags : Stmt.bodyReturns body =
      ((body.filter Stmt.isReturnContainer).map Stmt.returns).all id := by
    rw [Stmt.bodyReturns, hany, Stmt.allReturn_eq, List.all_map]
    rfl
  have hall : (body.filter Stmt.isReturnContainer).mapM (fun x => some x.returns) =
      some ((body.filter Stmt.isReturnContainer).map Stmt.returns) := List.mapM_pure
  refine (reads_all List.map_map.symm hinputs).conforms (fun t bs ht hbs hgets => ?_)
    (fun hnone => ?_) ?_
  · rw [hall] at hbs
    cases hbs
    exact conforms_of_eq (Goal.react_blockReturns ..)
      (conforms_readAllFlags hgets (conforms_give ht (hflags ▸ hsol)))
  · rw [hall] at hnone
    cases hnone
  · simp only [Goal.outputs, List.mem_singleton, forall_eq, List.mem_map, forall_exists_index,
      and_imp]
    rintro a n x hx rfl rfl
    exact Attribute.rank_returnsOf (hbody x (List.mem_filter.1 hx).1).2

theorem final_branchesReturn (hp : p.Numbered) (hd : p.Drafted d) {c : Expr} {thenBody elseBody : Stmt}
    (hs : ⟨st, .stmt (.ifElse node c thenBody elseBody)⟩ ∈ p.sites)
    (h : (thenBody.isReturnContainer && elseBody.isReturnContainer) = true) :
    p.Final d (Obligation.rule d.tables ⟨node, .branchesReturn thenBody.id elseBody.id⟩) := by
  obtain ⟨hthen, hlt⟩ := hp.premise hs (c := ⟨st, .stmt thenBody⟩)
    (by simp [Site.premises, Site.ofStmt])
  obtain ⟨helse, hlt'⟩ := hp.premise hs (c := ⟨st, .stmt elseBody⟩)
    (by simp [Site.premises, Site.ofStmt])
  obtain ⟨hthen', helse'⟩ := Bool.and_eq_true_iff.1 h
  have hsol : (d.names p).solution (.returnsOf node.id) = _ := solution_site hp hs .returns
  simp only [Names.siteSlot, Stmt.isReturnContainer, if_true] at hsol
  refine (input_stmt hp hd hthen hthen').reads.conforms₂ (input_stmt hp hd helse helse').reads
    (fun t b b' ht hb hb' hget hget' => ?_) (by simp) ?_
  · cases hb
    cases hb'
    refine conforms_readAllFlags (.cons hget (.cons hget' .nil)) (conforms_give ht ?_)
    rw [hsol, Stmt.returns, hthen', helse']
    simp
  · simp only [Goal.outputs, List.forall_mem_singleton, List.cons_append, List.nil_append,
      List.forall_mem_cons]
    exact ⟨Attribute.rank_returnsOf hlt, Attribute.rank_returnsOf hlt'⟩

/-- The value of a variable is checked against its type. -/
theorem final_initializer (hp : p.Numbered) (hd : p.Drafted d) {b : Binder} {value : Expr}
    {id : DeclId} (hs : ⟨st, .expr (.value b) value⟩ ∈ p.sites) (hid : id.index < d.size) :
    p.Final d (Obligation.rule d.tables ⟨b.node, .initializer id b.name value.node⟩) := by
  refine (input_declaration hp hd hid).reads.conforms₂ (input_expr hp hd hs).reads
    (fun t x y ht hx hy hget hget' => conforms_readType hget (conforms_readType hget' ?_))
    (by simp [Goal.outputs]) (by simp [Goal.outputs])
  split
  · exact conforms_checked ht
  · exact conforms_reportTypes (fun _ _ => rfl) (Names.declarationType_regular hx)
      (Names.typeIn_regular hy) (conforms_checked ht)

/-- A body is checked to return if there is a result. -/
theorem final_bodyReturns (hp : p.Numbered) (hd : p.Drafted d) {st' : Setting} {inner : Node}
    {body : List Stmt} {result : TypeExpr} (hbody : ⟨st, .body inner body⟩ ∈ p.sites)
    (hresult : ⟨st', .written result⟩ ∈ p.sites) :
    p.Final d (Obligation.rule d.tables ⟨node, .bodyReturns inner.id result.id⟩) := by
  refine (input_body hp hd hbody).reads.conforms₂ (input_written hp hd hresult).reads
    (fun t b x ht _ _ hget hget' => conforms_readFlag hget (conforms_readType hget' ?_))
    (by simp [Goal.outputs]) (by simp [Goal.outputs])
  split
  · exact conforms_checked ht
  · exact conforms_report rfl (conforms_checked ht)

theorem final_condition (hp : p.Numbered) (hd : p.Drafted d) {role : Role} {e : Expr}
    (hs : ⟨st, .expr role e⟩ ∈ p.sites) (statement : String) :
    p.Final d (Obligation.rule d.tables ⟨e.node, .condition statement⟩) := by
  refine (input_expr hp hd hs).reads.conforms
    (fun t x ht hx hget => conforms_readType hget ?_) (by simp [Goal.outputs]) (by simp [Goal.outputs])
  exact conforms_requireBool (fun _ => rfl) (Names.typeIn_regular hx) fun _ => conforms_checked ht

theorem final_emptyReturn (hp : p.Numbered) (hd : p.Drafted d) {result : TypeExpr}
    (hresult : ⟨st, .written result⟩ ∈ p.sites) :
    p.Final d (Obligation.rule d.tables ⟨node, .emptyReturn result.id⟩) := by
  refine (input_written hp hd hresult).reads.conforms
    (fun t x ht _ hget => conforms_readType hget ?_) (by simp [Goal.outputs]) (by simp [Goal.outputs])
  split
  · exact conforms_checked ht
  · exact conforms_report rfl (conforms_checked ht)

theorem final_valueReturn (hp : p.Numbered) (hd : p.Drafted d) {st' : Setting} {result : TypeExpr}
    {role : Role} {e : Expr} (hresult : ⟨st', .written result⟩ ∈ p.sites)
    (hs : ⟨st, .expr role e⟩ ∈ p.sites) :
    p.Final d (Obligation.rule d.tables ⟨node, .valueReturn result.id e.node⟩) := by
  refine (input_written hp hd hresult).reads.conforms₂ (input_expr hp hd hs).reads
    (fun t x y ht hx hy hget hget' => conforms_readType hget (conforms_readType hget' ?_))
    (by simp [Goal.outputs]) (by simp [Goal.outputs])
  split
  · exact conforms_report rfl (conforms_checked ht)
  · split
    · exact conforms_checked ht
    · exact conforms_reportTypes (fun _ _ => rfl) (Names.writtenType_plain hx).regular
        (Names.typeIn_regular hy) (conforms_checked ht)

end Program.Drafted

end ScriptAnalysis
