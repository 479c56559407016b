/-!
What all parts of the analysis share: places in source files, the numbers of nodes, declarations and scopes,
what can go wrong, the families of types that are built from others, and operators.
-/
namespace ScriptAnalysis

structure Position where
  offset : Nat
  file : String
  deriving DecidableEq, Repr

/-- The position of a byte index. Offsets have 32 bits, so an index wraps at 2^32. -/
def Position.ofIndex (index : Nat) (file : String) : Position := ⟨index % UInt32.size, file⟩

def Position.origin (file : String) : Position := ⟨0, file⟩

structure Span where
  start : Position
  stop : Position
  deriving DecidableEq, Repr

namespace Span

def empty (p : Position) : Span := ⟨p, p⟩

/-- The span from the start of one to the end of another. -/
def upTo (first last : Span) : Span := ⟨first.start, last.stop⟩

def null : Span := empty (Position.origin "<null>")

end Span

structure NodeId where
  index : Nat
  deriving DecidableEq, Repr

structure Node where
  id : NodeId
  span : Span
  deriving DecidableEq, Repr

structure DeclId where
  index : Nat
  deriving DecidableEq, Repr

structure ScopeId where
  index : Nat
  deriving DecidableEq, Repr

inductive Fault where
  | unknownScope
  | scopeCycle
  | unknownDeclaration
  /-- A template type with fewer parameters than it counts type parameters. -/
  | shortTemplate
  | noSuchInput
  | noSuchOutput
  | unsetInput
  | wrongKind
  /-- A field of a report that is too wide to be filled. -/
  | wideField
  deriving DecidableEq, Repr

inductive Container where
  | array | set
  deriving DecidableEq, Repr

def Container.word : Container → String
  | .array => "array"
  | .set => "set"

def Container.suffix : Container → String
  | .array => "[]"
  | .set => "\x7b\x7d"

inductive Composite where
  | struct | cls
  deriving DecidableEq, Repr

def Composite.word : Composite → String
  | .struct => "struct"
  | .cls => "class"

def Composite.memberWord : Composite → String
  | .struct => "field"
  | .cls => "attribute"

def Composite.accessMark : Composite → String
  | .struct => "."
  | .cls => "$"

def Composite.constructorMark : Composite → String
  | .struct => "$"
  | .cls => "create "

inductive BinaryOp where
  | multiply | divide | remainder | add | subtract
  | greater | lower | greaterEqual | lowerEqual
  | equal | notEqual
  | and | or
  deriving DecidableEq, Repr

inductive OperatorFamily where
  | arithmetic | comparison | equality | logic
  deriving DecidableEq, Repr

namespace BinaryOp

def symbol : BinaryOp → String
  | .multiply => "*"
  | .divide => "/"
  | .remainder => "%"
  | .add => "+"
  | .subtract => "-"
  | .greater => ">"
  | .lower => "<"
  | .greaterEqual => ">="
  | .lowerEqual => "<="
  | .equal => "=="
  | .notEqual => "!="
  | .and => "&&"
  | .or => "||"

def verb : BinaryOp → String
  | .multiply => "multiply"
  | .divide => "divide"
  | .remainder => "remainder"
  | .add => "add"
  | .subtract => "subtract"
  | .greater => "greater"
  | .lower => "lower"
  | .greaterEqual => "greater_equal"
  | .lowerEqual => "lower_equal"
  | .equal => "equality"
  | .notEqual => "not_equals"
  | .and => "and"
  | .or => "or"

def family : BinaryOp → OperatorFamily
  | .multiply | .divide | .remainder | .add | .subtract => .arithmetic
  | .greater | .lower | .greaterEqual | .lowerEqual => .comparison
  | .equal | .notEqual => .equality
  | .and | .or => .logic

end BinaryOp

end ScriptAnalysis
