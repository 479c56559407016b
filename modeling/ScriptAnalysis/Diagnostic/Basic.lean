import ScriptAnalysis.Basic
import ScriptAnalysis.Text.Basic

/-!
Diagnostics: what is wrong with a program, where, and in which words. A cause holds the facts of one
finding; its message, its title and its tip are functions of it.
-/
namespace ScriptAnalysis

inductive Cause where
  | unrecognised (text : String)
  | unexpected (token : String)
  | unexpectedBecause (token message : String)
  | badNumber (text : String)
  | unresolvedName (name : String)
  | unresolvedType (name : String)
  | usedBeforeDeclaration (name : String)
  | notAType (name kind : String)
  | invalidSuperclass (name kind : String)
  | incompatibleInitializer (variableName expected received : String)
  | incompatibleArgument (index : Nat) (expected received : String)
  | incompatibleReturn (expected received : String)
  | returnWithoutValue
  | returnWithValueInVoid
  | incompatibleTarget
  | nonAssignable
  | invalidArithmetic (operation left right : String)
  | nonNumericComparison (type : String)
  | nonBooleanLogic (type : String)
  | incomparable (left right : String)
  | invalidNegation (type : String)
  | nonBooleanCondition (statement type : String)
  | nonIntegerIndex
  | nonArrayIndexed (type : String)
  | nonLengthArrayMember (member : String)
  | invalidMemberTarget (composite : Composite) (type : String)
  | missingMember (member ownerKind owner : String)
  | notCallable (callee : String)
  | notConstructible (composite : Composite) (name : String)
  | notATemplate (callee : String)
  | wrongArity (expected received : Nat)
  | noMatchingOverload (expected received : Nat)
  | wrongTypeArgumentCount (expected received : Nat)
  | missingReturn
  | voidElement (literal : String)
  | noCommonSupertype (literal : String)
  | uninferableLiteral (literal : String)
  | unresolvedAttribute (attr : String)
  | cyclicDependency (attr : String)
  deriving DecidableEq, Repr

namespace Cause

def message : Cause → String
  | .unrecognised text => "unrecognised token: " ++ Text.quote text
  | .unexpected token => "unexpected token: " ++ Text.quote token
  | .unexpectedBecause token message =>
    "unexpected token (" ++ Text.quote message ++ "): " ++ Text.quote token
  | .badNumber text => "error parsing number: " ++ Text.quote text
  | .unresolvedName name => "Could not resolve: " ++ name
  | .unresolvedType name => "could not resolve: " ++ name
  | .usedBeforeDeclaration name => "Variable used before declaration: " ++ name
  | .notAType name kind =>
    name ++ " did not resolve to a type declaration but to a " ++ kind ++ " declaration"
  | .invalidSuperclass name kind =>
    name ++ " did not resolve to a class declaration but to a " ++ kind ++ " declaration"
  | .incompatibleInitializer variableName expected received =>
    "incompatible initializer type provided for variable `" ++ variableName ++ "`: expected " ++
      expected ++ " but got " ++ received
  | .incompatibleArgument index expected received =>
    "incompatible argument provided for argument " ++ toString index ++ ": expected " ++ expected ++
      " but got " ++ received
  | .incompatibleReturn expected received =>
    "Incompatible return type, expected " ++ expected ++ " but got " ++ received
  | .returnWithoutValue => "Return without value in a function with a return type."
  | .returnWithValueInVoid => "Return with value in a Void function."
  | .incompatibleTarget => "Trying to assign a value to a non-compatible lvalue."
  | .nonAssignable => "Trying to assign to an non-lvalue expression."
  | .invalidArithmetic operation left right =>
    "Trying to " ++ operation ++ " " ++ left ++ " with " ++ right
  | .nonNumericComparison type =>
    "Attempting to perform arithmetic comparison on non-numeric type: " ++ type
  | .nonBooleanLogic type => "Attempting to perform binary logic on non-boolean type: " ++ type
  | .incomparable left right => "Trying to compare incomparable types " ++ left ++ " and " ++ right
  | .invalidNegation type => "Trying to negate type: " ++ type
  | .nonBooleanCondition statement type =>
    statement ++ " statement with a non-boolean condition of type: " ++ type
  | .nonIntegerIndex => "Indexing an array using a non-Int-valued expression"
  | .nonArrayIndexed type => "Trying to index a non-array expression of type " ++ type
  | .nonLengthArrayMember member => "Trying to access a non-length " ++ member ++ " on an array"
  | .invalidMemberTarget .struct type => "Trying to access a field on an expression of type " ++ type
  | .invalidMemberTarget .cls type =>
    "Trying to access a class element on an expression of type " ++ type
  | .missingMember member ownerKind owner =>
    "Trying to access missing field " ++ member ++ " on " ++ ownerKind ++ " " ++ owner
  | .notCallable callee => "trying to call a non-function expression: " ++ callee
  | .notConstructible .struct name =>
    "Applying the constructor operator ($) to non-struct reference for: " ++ name
  | .notConstructible .cls name =>
    "Applying the class constructor (create) to non-class reference for: " ++ name
  | .notATemplate callee => "trying to call a non-template expression: " ++ callee
  | .wrongArity expected received =>
    "wrong number of arguments, expected " ++ toString expected ++ " but got " ++ toString received
  | .noMatchingOverload expected received =>
    "wrong number of arguments/wrong args type, expected " ++ toString expected ++ " but got " ++
      toString received
  | .wrongTypeArgumentCount expected received =>
    "wrong number of types passed, expected " ++ toString expected ++ " but got " ++
      toString received
  | .missingReturn => "Missing return in function."
  | .voidElement literal => "Void-valued expression in " ++ literal ++ " literal"
  | .noCommonSupertype literal => "Could not find common supertype in " ++ literal ++ " literal."
  | .uninferableLiteral literal => "Could not infer the type of an empty " ++ literal ++ " literal"
  | .unresolvedAttribute attr => "Could not compute " ++ attr
  | .cyclicDependency attr => "Cyclic dependency while computing " ++ attr

def title : Cause → String
  | .unrecognised _ => "UnrecognisedToken"
  | .unexpected _ => "UnexpectedToken"
  | .unexpectedBecause _ _ => "UnexpectedTokenDetailed"
  | .badNumber _ => "NumberParseError"
  | .unresolvedName _ | .unresolvedType _ => "UnresolvedName"
  | .usedBeforeDeclaration _ => "UsedBeforeDeclaration"
  | .notAType _ _ | .invalidSuperclass _ _ => "UnexpectedDeclaration"
  | .incompatibleInitializer _ _ _ | .incompatibleArgument _ _ _ | .incompatibleReturn _ _
  | .incompatibleTarget | .returnWithoutValue | .returnWithValueInVoid | .invalidArithmetic _ _ _
  | .nonNumericComparison _ | .nonBooleanLogic _ | .invalidNegation _ => "TypeMismatch"
  | .incomparable _ _ => "IncomparableTypes"
  | .nonBooleanCondition _ _ => "NonBooleanCondition"
  | .nonIntegerIndex => "NonIntegerIndex"
  | .nonArrayIndexed _ | .nonLengthArrayMember _ | .invalidMemberTarget _ _ => "InvalidAccessTarget"
  | .missingMember _ _ _ => "MissingMember"
  | .wrongArity _ _ | .noMatchingOverload _ _ | .wrongTypeArgumentCount _ _ => "WrongArity"
  | .missingReturn => "MissingReturn"
  | .nonAssignable => "NonLvalue"
  | .notCallable _ | .notConstructible _ _ | .notATemplate _ => "NotCallable"
  | .voidElement _ => "VoidLiteralElement"
  | .noCommonSupertype _ => "NoCommonSupertype"
  | .uninferableLiteral _ => "UninferableLiteral"
  | .unresolvedAttribute _ => "UnresolvedAttribute"
  | .cyclicDependency _ => "CyclicDependency"

/-- The hint that stands beside the title, if there is one. -/
def tip? : Cause → Option String
  | .unrecognised _ => none
  | .unexpected token => some ("Unexpected token: `" ++ token ++ "`")
  | .unexpectedBecause token message => some ("Unexpected token: `" ++ token ++ "`, " ++ message)
  | .badNumber text => some ("Invalid number: `" ++ text ++ "`, is it above the integer limit?")
  | cause => some cause.message

end Cause

structure Diagnostic where
  cause : Cause
  span : Span
  node : Option NodeId := none
  deriving DecidableEq, Repr

namespace Diagnostic

/-- A finding at a position, before there is a tree. -/
def atPosition (cause : Cause) (p : Position) : Diagnostic := { cause, span := .empty p }

def atNode (cause : Cause) (node : Node) : Diagnostic :=
  { cause, span := node.span, node := some node.id }

end Diagnostic

end ScriptAnalysis
