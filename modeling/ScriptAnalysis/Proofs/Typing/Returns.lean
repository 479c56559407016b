import ScriptAnalysis.Proofs.Typing.Constraints

/-!
Bodies that return. A statement completes if control can pass its end, where every branch may be taken
and every loop may be left. The analysis marks a statement as returning only if it cannot complete, and
it reports every body with a result type that it does not mark (`Program.returns_sound`).
-/
namespace ScriptAnalysis

inductive Stmt.Completes : Stmt → Prop
  | block {node : Node} {body : List Stmt} (h : ∀ x ∈ body, x.Completes) : Completes (.block node body)
  | ifThen {node : Node} {e : Expr} {thenBody : Stmt} : Completes (.ifThen node e thenBody)
  | thenBranch {node : Node} {e : Expr} {thenBody elseBody : Stmt} (h : thenBody.Completes) :
      Completes (.ifElse node e thenBody elseBody)
  | elseBranch {node : Node} {e : Expr} {thenBody elseBody : Stmt} (h : elseBody.Completes) :
      Completes (.ifElse node e thenBody elseBody)
  | loop {node : Node} {e : Expr} {body : Stmt} : Completes (.loop node e body)
  | action {node : Node} {e : Expr} : Completes (.action node e)
  | variable {b : Binder} {value : Expr} : Completes (.variable b value)
  | field {b : Binder} : Completes (.field b)
  | struct {node : Node} {name : String} {fields : List Binder} : Completes (.struct node name fields)
  | function {node inner : Node} {head : FunctionHead} {body : List Stmt} :
      Completes (.function node head inner body)
  | cls {node inner : Node} {head : ClassHead} {body : List Stmt} : Completes (.cls node head inner body)
  | template {node inner : Node} {head : TemplateHead} {body : List Stmt} :
      Completes (.template node head inner body)

/-- Control can pass the end of a body: of each statement in turn. -/
def Stmt.CompletesAll (body : List Stmt) : Prop := ∀ x ∈ body, x.Completes

namespace Stmt

/-- A body whose statements do not return does not return: it has no return container, or one that does
not return. -/
theorem bodyReturns_eq_false {body : List Stmt} (h : ∀ x ∈ body, x.returns = false) :
    bodyReturns body = false := by
  rw [bodyReturns, allReturn_eq]
  by_cases hany : body.any isReturnContainer = true
  · obtain ⟨x, hx, hcontainer⟩ := List.any_eq_true.1 hany
    have hall : (body.filter isReturnContainer).all returns = false := by
      apply List.all_eq_false.2
      exact ⟨x, List.mem_filter.2 ⟨hx, hcontainer⟩, by simp [h x hx]⟩
    simp [hall]
  · simp [hany]

theorem Completes.returns_eq_false {x : Stmt} (h : x.Completes) : x.returns = false := by
  induction h with
  | block _ ih => exact bodyReturns_eq_false ih
  | thenBranch _ ih => simp [returns, ih]
  | elseBranch _ ih => simp [returns, ih]
  | _ => simp [returns]

theorem CompletesAll.bodyReturns_eq_false {body : List Stmt} (h : CompletesAll body) :
    bodyReturns body = false := by
  apply Stmt.bodyReturns_eq_false
  intro x hx
  exact (h x hx).returns_eq_false

end Stmt

namespace Program.Analysed

variable {p : Program} {d : Draft} {a : Analysis} {st : Setting}

theorem slot?_returns (hp : p.Numbered) (h : p.Analysed d a) {x : Stmt} (hs : ⟨st, .stmt x⟩ ∈ p.sites)
    (hx : x.isReturnContainer = true) :
    a.attributes.slot? (.returnsOf x.id) = some (.set (.flag x.returns)) :=
  h.slot?_of_input (Drafted.input_stmt hp h.drafted hs hx)

theorem slot?_bodyReturns (hp : p.Numbered) (h : p.Analysed d a) {inner : Node} {body : List Stmt}
    (hs : ⟨st, .body inner body⟩ ∈ p.sites) :
    a.attributes.slot? (.returnsOf inner.id) = some (.set (.flag (Stmt.bodyReturns body))) :=
  h.slot?_of_input (Drafted.input_body hp h.drafted hs)

/-- A body that is not marked as returning is reported if a result is expected of it. -/
theorem mem_missingReturn (h : p.Analysed d a) {n : NodeId} {node inner : Node} {result : TypeExpr}
    {t : Ty} (ho : ⟨node, .bodyReturns inner.id result.id⟩ ∈ (d.entry n).obligations)
    (hflag : a.attributes.slot? (.returnsOf inner.id) = some (.set (.flag false)))
    (ht : a.writtenType? result = some t) (hvoid : t.isVoid = false) :
    .atNode .missingReturn node ∈ a.diagnostics := by
  have hr : Obligation.rule d.tables ⟨node, .bodyReturns inner.id result.id⟩ ∈ d.rules :=
    List.mem_map.2 ⟨_, (List.mem_filter.1 ho).1, rfl⟩
  have htype : a.attributes.slot? (.valueOf result.id) = some (.set (.type t)) :=
    Attributes.type?_eq_some.1 ht
  have hset : ∀ i ∈ [Attribute.returnsOf inner.id, .valueOf result.id],
      a.attributes.isSet i = true := by
    simp [Attributes.isSet_iff, hflag, htype]
  obtain ⟨table, e, hrun, hinputs, htold⟩ := (h.fates _ hr).exists_run hset
  have hreturns : table.get? (.returnsOf inner.id) = some (.flag false) := by
    rw [hinputs _ (by simp [Obligation.rule, Goal.inputs])]
    exact Attributes.get?_eq_some.2 hflag
  have hresult : table.get? (.valueOf result.id) = some (.type t) := by
    rw [hinputs _ (by simp [Obligation.rule, Goal.inputs])]
    exact Attributes.get?_eq_some.2 htype
  apply htold
  have hbody : Goal.react d.tables node (.bodyReturns inner.id result.id) =
      Reaction.readFlag (.returnsOf inner.id) fun returns => Reaction.readType (.valueOf result.id) fun t =>
        if returns || t.isVoid then .done else .report (.atNode .missingReturn node) .done := rfl
  simp only [Obligation.rule, hbody, Reaction.readFlag, Reaction.readType, Reaction.readValue,
    Reaction.run, hreturns, hresult, hvoid, Bool.or_self, Bool.false_eq_true, ↓reduceIte, bind,
    Except.bind, pure, Except.pure, Except.ok.injEq] at hrun
  rw [← hrun]
  exact List.mem_cons_self

end Program.Analysed

/-- The result of a function or template as an analysis treats it: where a type other than `Void` is
written and no missing return is reported, control cannot pass the end of the body. -/
def Analysis.Guards (a : Analysis) (node : Node) (result : TypeExpr) (body : List Stmt) : Prop :=
  ∀ t, a.writtenType? result = some t → t.isVoid = false →
    .atNode .missingReturn node ∉ a.diagnostics → ¬Stmt.CompletesAll body

/-- An analysis that marks statements and bodies as the recursion over them does, and as returning only
if control cannot pass their end. -/
structure Analysis.ReturnsSoundly (a : Analysis) (p : Program) : Prop where
  stmts : ∀ st x, ⟨st, .stmt x⟩ ∈ p.sites → x.isReturnContainer = true →
    a.attributes.slot? (.returnsOf x.id) = some (.set (.flag x.returns)) ∧
      (x.returns = true → ¬x.Completes)
  bodies : ∀ st inner body, ⟨st, .body inner body⟩ ∈ p.sites →
    a.attributes.slot? (.returnsOf inner.id) = some (.set (.flag (Stmt.bodyReturns body))) ∧
      (Stmt.bodyReturns body = true → ¬Stmt.CompletesAll body)
  functions : ∀ st node head inner body, ⟨st, .stmt (.function node head inner body)⟩ ∈ p.sites →
    a.Guards node head.result body
  templates : ∀ st node head inner body, ⟨st, .stmt (.template node head inner body)⟩ ∈ p.sites →
    a.Guards node head.result body

/-- A body is marked as not returning if it completes, so it is reported where a result is expected. -/
theorem Program.Analysed.guards {p : Program} {d : Draft} {a : Analysis} (hp : p.Numbered)
    (h : p.Analysed d a) {st : Setting} {n : NodeId} {node inner : Node} {result : TypeExpr}
    {body : List Stmt} (hs : ⟨st, .body inner body⟩ ∈ p.sites)
    (ho : ⟨node, .bodyReturns inner.id result.id⟩ ∈ (d.entry n).obligations) :
    a.Guards node result body := by
  intro t ht hvoid hnot hall
  apply hnot
  have hflag := h.slot?_bodyReturns hp hs
  rw [hall.bodyReturns_eq_false] at hflag
  exact h.mem_missingReturn ho hflag ht hvoid

theorem Program.Analysed.guards_stmt {p : Program} {d : Draft} {a : Analysis} (hp : p.Numbered)
    (h : p.Analysed d a) {st : Setting} {x : Stmt} (hs : ⟨st, .stmt x⟩ ∈ p.sites) :
    match x with
    | .function node head _ body => a.Guards node head.result body
    | .template node head _ body => a.Guards node head.result body
    | _ => True := by
  have hl := h.drafted.leaves _ hs
  have hpremise : ∀ c ∈ Site.ofStmt st x, c ∈ p.sites := fun c hc => (hp.premise hs hc).1
  generalize he : d.entry (Site.id ⟨st, .stmt x⟩) = e at hl
  cases hl with
  | stmt hl =>
    cases hl with
    | @function node head inner body =>
      have hbody : ⟨head.setting node, .body inner body⟩ ∈ p.sites :=
        hpremise _ (by simp [Site.ofStmt])
      apply h.guards hp hbody
      rw [show d.entry node.id = _ from he]
      exact Entry.mem_owing _ _
    | @template node head inner body =>
      have hbody : ⟨head.setting node, .body inner body⟩ ∈ p.sites :=
        hpremise _ (by simp [Site.ofStmt])
      apply h.guards hp hbody
      rw [show d.entry node.id = _ from he]
      exact Entry.mem_owing _ _
    | _ => trivial

theorem Program.returns_sound {tokens : List Token} {file : String} {p : Program} {c : Cursor}
    (h : Program.parse tokens file = .ok p c) : ∃ a, p.analyse = .ok a ∧ a.ReturnsSoundly p := by
  have hp := numbered_of_parse h
  obtain ⟨d, a, ha, hd⟩ := analysed hp
  refine ⟨a, ha, ?_, ?_, ?_, ?_⟩
  · intro st x hs hx
    refine ⟨hd.slot?_returns hp hs hx, fun htrue hcompletes => ?_⟩
    rw [hcompletes.returns_eq_false] at htrue
    cases htrue
  · intro st inner body hs
    refine ⟨hd.slot?_bodyReturns hp hs, fun htrue hall => ?_⟩
    rw [hall.bodyReturns_eq_false] at htrue
    cases htrue
  · intro st node head inner body hs
    exact hd.guards_stmt hp hs
  · intro st node head inner body hs
    exact hd.guards_stmt hp hs

/-- A function that returns on every path, but for a loop that may be left. -/
def signText : String :=
  "fun sign(n: Int): Int \x7b while (n > 1) \x7b return 1 \x7d
  if (n == 0) return 0 else \x7b if (n > 0) return 1 else return 0 - 1 \x7d \x7d"

theorem Program.returns_sound_sign :
    ∃ tokens p c a, Token.tokenize signText "sign" = .ok tokens ∧
      Program.parse tokens "sign" = .ok p c ∧ p.analyse = .ok a ∧ a.diagnostics = [] ∧
      a.ReturnsSoundly p := by
  obtain ⟨tokens, p, c, a, htokens, hparse, ha, hnil, _⟩ :=
    Program.exists_of_accepts 8 "sign" signText (fun _ _ => true) (by decide +kernel)
  obtain ⟨a', ha', hsound⟩ := Program.returns_sound hparse
  obtain rfl : a = a' := by simpa [ha] using ha'
  exact ⟨tokens, p, c, a, htokens, hparse, ha, hnil, hsound⟩

end ScriptAnalysis
