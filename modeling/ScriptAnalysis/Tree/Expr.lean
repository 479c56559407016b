import ScriptAnalysis.Basic
import ScriptAnalysis.Number.Shortest
import ScriptAnalysis.Text.Basic

/-! Types as a program writes them, and expressions, with their texts. -/
namespace ScriptAnalysis

inductive TypeExpr where
  | name (node : Node) (text : String)
  | container (node : Node) (c : Container) (component : TypeExpr)
  deriving DecidableEq, Repr

namespace TypeExpr

def node : TypeExpr → Node
  | .name node _ => node
  | .container node _ _ => node

def id (t : TypeExpr) : NodeId := t.node.id

def render : TypeExpr → String
  | .name _ text => text
  | .container _ c component => component.render ++ c.suffix

end TypeExpr

structure Reference where
  node : Node
  name : String
  deriving DecidableEq, Repr

inductive Expr where
  | int (node : Node) (value : Int)
  | float (node : Node) (value : Binary64)
  | string (node : Node) (value : String)
  | symbol (ref : Reference)
  | paren (node : Node) (inner : Expr)
  | literal (node : Node) (c : Container) (elements : List Expr)
  | not (node : Node) (operand : Expr)
  | binary (node : Node) (op : BinaryOp) (left right : Expr)
  | assign (node : Node) (target value : Expr)
  | call (node : Node) (callee : Expr) (arguments : List Expr)
  | templateCall (node : Node) (callee : Expr) (types : List TypeExpr) (arguments : List Expr)
  | index (node : Node) (base position : Expr)
  | member (node : Node) (c : Composite) (stem : Expr) (name : String)
  | construct (node : Node) (c : Composite) (ref : Reference)
  deriving Repr

namespace Expr

def node : Expr → Node
  | .int node _ | .float node _ | .string node _ | .paren node _ | .literal node _ _ | .not node _
  | .binary node _ _ _ | .assign node _ _ | .call node _ _ | .templateCall node _ _ _
  | .index node _ _ | .member node _ _ _ | .construct node _ _ => node
  | .symbol ref => ref.node

def id (e : Expr) : NodeId := e.node.id

def span (e : Expr) : Span := e.node.span

/-- Whether an expression is a place that a value can be stored in. -/
def isPlace : Expr → Bool
  | .symbol _ | .member _ _ _ _ | .index _ _ _ => true
  | _ => false

/-- Whether an expression is a name or a member, so that type arguments may follow. -/
def isNamed : Expr → Bool
  | .symbol _ | .member _ _ _ _ => true
  | _ => false

def isAction : Expr → Bool
  | .assign _ _ _ | .call _ _ _ | .templateCall _ _ _ _ => true
  | _ => false

def calleeName? : Expr → Option String
  | .symbol ref => some ref.name
  | .member _ _ _ name => some name
  | .paren _ inner => inner.calleeName?
  | _ => none

mutual

def render : Expr → String
  | .int _ value => toString value
  | .float _ value => value.render
  | .string _ value => Text.quote value
  | .symbol ref => ref.name
  | .paren _ inner => "(" ++ inner.render ++ ")"
  | .literal _ .array elements => "[" ++ String.intercalate ", " (renderAll elements) ++ "]"
  | .literal _ .set elements => "\x7b" ++ String.intercalate ", " (renderAll elements) ++ "\x7d"
  | .not _ operand => "!" ++ operand.render
  | .binary _ op left right => left.render ++ " " ++ op.symbol ++ " " ++ right.render
  | .assign _ target value => target.render ++ " = " ++ value.render
  | .call _ callee arguments =>
    callee.render ++ "(" ++ String.intercalate ", " (renderAll arguments) ++ ")"
  | .templateCall _ callee types arguments =>
    callee.render ++ "<" ++ String.intercalate ", " (types.map TypeExpr.render) ++ ">(" ++
      String.intercalate ", " (renderAll arguments) ++ ")"
  | .index _ base position => base.render ++ "[" ++ position.render ++ "]"
  | .member _ c stem name => stem.render ++ c.accessMark ++ name
  | .construct _ c ref => c.constructorMark ++ ref.name

def renderAll : List Expr → List String
  | [] => []
  | e :: rest => e.render :: renderAll rest

end

end Expr

end ScriptAnalysis
