import ScriptAnalysis.Typing.Obligation

/-! What goals may find. -/
namespace ScriptAnalysis

def Cause.isNaming : Cause → Bool
  | .unresolvedName _ | .usedBeforeDeclaration _ => true
  | _ => false

/-- The tables give reason for a finding about a name that was not bound where it stands. -/
def Tables.Blames (t : Tables) (scope : ScopeId) (name : String) : Cause → Prop
  | .unresolvedName _ => t.scopes.lookup scope name = .ok none
  | .usedBeforeDeclaration _ => ∃ f x, t.scopes.lookup scope name = .ok (some f) ∧
    t.declarations.get f.declaration = .ok x ∧ x.kind = .variable
  | _ => False

inductive Goal.Tells (tables : Tables) (node : Node) : Goal → Diagnostic → Prop
  | unresolvedType {scope name} :
      Tells tables node (.typeName scope name) (.atNode (.unresolvedType name) node)
  | notAType {scope name word} :
      Tells tables node (.typeName scope name) (.atNode (.notAType name word) node)
  | initializer {declaration name value expected received} :
      Tells tables node (.initializer declaration name value)
        (.atNode (.incompatibleInitializer name expected received) value)
  | missingReturn {body result} :
      Tells tables node (.bodyReturns body result) (.atNode .missingReturn node)
  | condition {statement text} :
      Tells tables node (.condition statement) (.atNode (.nonBooleanCondition statement text) node)
  | emptyReturn {result} : Tells tables node (.emptyReturn result) (.atNode .returnWithoutValue node)
  | voidReturn {result value} :
      Tells tables node (.valueReturn result value) (.atNode .returnWithValueInVoid node)
  | valueReturn {result value expected received} :
      Tells tables node (.valueReturn result value)
        (.atNode (.incompatibleReturn expected received) value)
  | late {scope name cause} (h : tables.Blames scope name cause) :
      Tells tables node (.lateReference scope name) (.atNode cause node)
  | emptyForVariable {c declaration} :
      Tells tables node (.emptyForVariable c declaration) (.atNode (.uninferableLiteral c.word) node)
  | emptyForArgument {c callee index} :
      Tells tables node (.emptyForArgument c callee index) (.atNode (.uninferableLiteral c.word) node)
  | voidElement {c elements element} (h : element ∈ elements) :
      Tells tables node (.literal c elements) (.atNode (.voidElement c.word) element)
  | noCommonSupertype {c elements} :
      Tells tables node (.literal c elements) (.atNode (.noCommonSupertype c.word) node)
  | negation {operand text} :
      Tells tables node (.negation operand) (.atNode (.invalidNegation text) node)
  | arithmetic {op left right l r} :
      Tells tables node (.arithmetic op left right) (.atNode (.invalidArithmetic op.verb l r) node)
  | equality {left right l r} :
      Tells tables node (.equality left right) (.atNode (.incomparable l r) node)
  | logic {left right side text} (h : side = left ∨ side = right) :
      Tells tables node (.logic left right) (.atNode (.nonBooleanLogic text) side)
  | comparison {left right side text} (h : side = left ∨ side = right) :
      Tells tables node (.comparison left right) (.atNode (.nonNumericComparison text) side)
  | nonAssignable {target value} :
      Tells tables node (.assignment target false value) (.atNode .nonAssignable target)
  | incompatibleTarget {target value} :
      Tells tables node (.assignment target true value) (.atNode .incompatibleTarget node)
  | nonIntegerIndex {base position} :
      Tells tables node (.index base position) (.atNode .nonIntegerIndex position)
  | nonArrayIndexed {base position text} :
      Tells tables node (.index base position) (.atNode (.nonArrayIndexed text) node)
  | nonLength {c stem name} :
      Tells tables node (.member c stem name) (.atNode (.nonLengthArrayMember c.memberWord) node)
  | missingMember {c stem name owner} :
      Tells tables node (.member c stem name) (.atNode (.missingMember name c.word owner) node)
  | invalidMemberTarget {c stem name text} :
      Tells tables node (.member c stem name) (.atNode (.invalidMemberTarget c text) node)
  | notConstructible {c ref name} :
      Tells tables node (.construct c ref name) (.atNode (.notConstructible c name) node)
  | notCallable {callee arguments} :
      Tells tables node (.call callee arguments) (.atNode (.notCallable callee.text) node)
  | noMatchingOverload {callee arguments m n} :
      Tells tables node (.call callee arguments) (.atNode (.noMatchingOverload m n) node)
  | wrongArity {callee arguments m n} :
      Tells tables node (.call callee arguments) (.atNode (.wrongArity m n) node)
  | argument {callee arguments argument i expected received} (h : argument ∈ arguments) :
      Tells tables node (.call callee arguments)
        (.atNode (.incompatibleArgument i expected received) argument)
  | notATemplate {callee text types arguments} :
      Tells tables node (.templateCall callee text types arguments) (.atNode (.notATemplate text) node)
  | templateArity {callee text types arguments m n} :
      Tells tables node (.templateCall callee text types arguments) (.atNode (.wrongArity m n) node)
  | typeArgumentCount {callee text types arguments m n} :
      Tells tables node (.templateCall callee text types arguments)
        (.atNode (.wrongTypeArgumentCount m n) node)
  | templateArgument {callee text types arguments argument i expected received}
      (h : argument ∈ arguments) :
      Tells tables node (.templateCall callee text types arguments)
        (.atNode (.incompatibleArgument i expected received) argument)

end ScriptAnalysis
