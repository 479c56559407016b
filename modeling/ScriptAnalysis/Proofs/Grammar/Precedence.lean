import ScriptAnalysis.Proofs.Grammar.ExprSound

/-!
How operators group. Whatever an expression is read from, and at whatever power: everywhere in it the
operands bind tightly enough for the operator above them, its own last operator or suffix binds more
tightly than the power, and the token behind it does not (`Parser.expr_groups`).
-/
namespace ScriptAnalysis

open Word (mark firstKind)

namespace Expr

/-- The operands directly below an operator or suffix bind as tightly as it asks for. What is no operator
has the highest power, and the operand of a suffix is neither a negation nor looser than one. -/
def OperandsFit : Expr → Prop
  | .not _ operand => ¬ operand.power < .unary
  | .binary _ op left right => ¬ left.power < op.power ∧ op.power < right.power
  | .assign _ target _ => .assignment < target.power
  | .call _ stem _ | .templateCall _ stem _ _ | .index _ stem _ | .member _ _ stem _ =>
    .unary < stem.power
  | _ => True

mutual

/-- An expression and the expressions inside it. -/
def parts : Expr → List Expr
  | e@(.paren _ inner) => e :: inner.parts
  | e@(.literal _ _ elements) => e :: partsAll elements
  | e@(.not _ operand) => e :: operand.parts
  | e@(.binary _ _ left right) => e :: (left.parts ++ right.parts)
  | e@(.assign _ target value) => e :: (target.parts ++ value.parts)
  | e@(.call _ callee arguments) => e :: (callee.parts ++ partsAll arguments)
  | e@(.templateCall _ callee _ arguments) => e :: (callee.parts ++ partsAll arguments)
  | e@(.index _ base position) => e :: (base.parts ++ position.parts)
  | e@(.member _ _ stem _) => e :: stem.parts
  | e => [e]

def partsAll : List Expr → List Expr
  | [] => []
  | e :: rest => e.parts ++ partsAll rest

end

mutual

theorem Reads.operandsFit {input rest : List Word} {e : Expr} (h : e.Reads input rest) :
    ∀ x ∈ e.parts, x.OperandsFit := by
  cases h with
  | int | negativeInt | float | negativeFloat | string | symbol | construct =>
    exact List.forall_mem_singleton.2 trivial
  | paren hinner => exact List.forall_mem_cons.2 ⟨trivial, hinner.operandsFit⟩
  | literal helements => exact List.forall_mem_cons.2 ⟨trivial, operandsFit_items helements⟩
  | not hoperand hpower => exact List.forall_mem_cons.2 ⟨hpower, hoperand.operandsFit⟩
  | binary hleft hright hleftPower hrightPower =>
    exact List.forall_mem_cons.2 ⟨⟨hleftPower, hrightPower⟩,
      List.forall_mem_append.2 ⟨hleft.operandsFit, hright.operandsFit⟩⟩
  | assign htarget hvalue hpower =>
    exact List.forall_mem_cons.2 ⟨hpower,
      List.forall_mem_append.2 ⟨htarget.operandsFit, hvalue.operandsFit⟩⟩
  | call hcallee hpower harguments =>
    exact List.forall_mem_cons.2 ⟨hpower,
      List.forall_mem_append.2 ⟨hcallee.operandsFit, operandsFit_items harguments⟩⟩
  | @templateCall _ callee _ _ _ _ _ hcallee hnamed harguments =>
    have hpower : .unary < callee.power := by
      rw [power_of_isNamed hnamed]
      decide
    exact List.forall_mem_cons.2 ⟨hpower,
      List.forall_mem_append.2 ⟨hcallee.operandsFit, operandsFit_items harguments⟩⟩
  | index hbase hpower hposition =>
    exact List.forall_mem_cons.2 ⟨hpower,
      List.forall_mem_append.2 ⟨hbase.operandsFit, hposition.operandsFit⟩⟩
  | member hstem hpower => exact List.forall_mem_cons.2 ⟨hpower, hstem.operandsFit⟩

theorem operandsFit_items {input rest : List Word} {close : TokenKind} {items : List Expr}
    (h : Items Expr.Reads input close items rest) : ∀ x ∈ partsAll items, x.OperandsFit := by
  cases h with
  | nil => exact List.forall_mem_nil _
  | last ha => exact List.forall_mem_append.2 ⟨ha.operandsFit, List.forall_mem_nil _⟩
  | more ha hitems => exact List.forall_mem_append.2 ⟨ha.operandsFit, operandsFit_items hitems⟩

end

end Expr

namespace Parser

/-- Operators group by their powers, and an expression takes all that binds more tightly than the power
it is read at. Operators of one power group to the left and assignments to the right: the left operand of
an operator may have the same power, its right operand has not, and an assignment is the target of none.
-/
theorem expr_groups {p : Power} {e : Expr} {c d : Cursor} (h : Parser.expr p c = .ok e d) :
    (∀ x ∈ e.parts, x.OperandsFit) ∧ (∀ q, e.lastPower? = some q → p < q) ∧
      (∀ q, d.kind.extensionPower? = some q → ¬ p < q) ∧ (p < .call → d.atTemplateCall e = false) := by
  have hread := (runs_expr p c).of_ok h
  refine ⟨hread.read.reads.operandsFit, hread.last, hread.power, ?_⟩
  intro hp
  by_contra htemplate
  obtain ⟨hless, hnamed, hahead⟩ : d.kind = .less ∧ e.isNamed ∧ typeArgumentsAhead d.kindsAhead := by
    simpa [Cursor.atTemplateCall] using htemplate
  have hnone := hread.less hp hless (by rwa [Expr.tip_of_isNamed hnamed])
  rw [hahead] at hnone
  cases hnone

/-- The words of `x = !a.f<Int>(1) - -2 * b$c[0] < d == e`. -/
def mixedOperators : List Word :=
  [⟨.identifier, "x"⟩, mark .assignment, mark .not, ⟨.identifier, "a"⟩, mark .dot, ⟨.identifier, "f"⟩,
    mark .less, ⟨.identifier, "Int"⟩, mark .greater, mark .openParen, ⟨.number, "1"⟩, mark .closeParen,
    mark .dash, mark .dash, ⟨.number, "2"⟩, mark .star, ⟨.identifier, "b"⟩, mark .dollar,
    ⟨.identifier, "c"⟩, mark .openBracket, ⟨.number, "0"⟩, mark .closeBracket, mark .less,
    ⟨.identifier, "d"⟩, mark .equals, ⟨.identifier, "e"⟩]

def memberCall : List Word :=
  [⟨.identifier, "a"⟩, mark .dollar, ⟨.identifier, "b"⟩, mark .openParen, ⟨.number, "1"⟩,
    mark .closeParen]

/-- An assignment of operators of several powers, and a member that is read at the power of calls. -/
theorem expr_groups_mixed :
    (∃ e d, Parser.expr .lowest (.ofWords mixedOperators) = .ok e d ∧
      (∀ x ∈ e.parts, x.OperandsFit) ∧ (∀ q, d.kind.extensionPower? = some q → ¬ Power.lowest < q) ∧
      d.atTemplateCall e = false) ∧
    ∃ e d, Parser.expr .call (.ofWords memberCall) = .ok e d ∧
      ∀ q, e.lastPower? = some q → .call < q := by
  constructor
  · obtain ⟨e, d, hrun⟩ :=
      exists_of_succeeds (Parser.expr .lowest) (.ofWords mixedOperators) (by decide +kernel)
    obtain ⟨hfit, _, hends, htemplate⟩ := expr_groups hrun
    exact ⟨e, d, hrun, hfit, hends, htemplate (by decide)⟩
  · obtain ⟨e, d, hrun⟩ :=
      exists_of_succeeds (Parser.expr .call) (.ofWords memberCall) (by decide +kernel)
    exact ⟨e, d, hrun, (expr_groups hrun).2.1⟩

end Parser

end ScriptAnalysis
