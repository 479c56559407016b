import ScriptAnalysis.Table.Declaration
import ScriptAnalysis.Tree.Expr

/-! Statements and programs. -/
namespace ScriptAnalysis

structure Binder where
  node : Node
  name : String
  type : TypeExpr
  deriving DecidableEq, Repr

structure Superclass where
  name : String
  span : Span
  deriving DecidableEq, Repr

structure FunctionHead where
  visibility : Option Visibility
  name : String
  parameters : List Binder
  result : TypeExpr
  deriving DecidableEq, Repr

structure ClassHead where
  visibility : Option Visibility
  name : String
  superclasses : List Superclass
  deriving DecidableEq, Repr

structure TemplateHead where
  typeParameters : List Binder
  name : String
  parameters : List Binder
  result : TypeExpr
  deriving DecidableEq, Repr

inductive Stmt where
  | block (node : Node) (body : List Stmt)
  | variable (binder : Binder) (value : Expr)
  | field (binder : Binder)
  | function (node : Node) (head : FunctionHead) (block : Node) (body : List Stmt)
  | struct (node : Node) (name : String) (fields : List Binder)
  | cls (node : Node) (head : ClassHead) (block : Node) (body : List Stmt)
  | template (node : Node) (head : TemplateHead) (block : Node) (body : List Stmt)
  | ifThen (node : Node) (condition : Expr) (thenBody : Stmt)
  | ifElse (node : Node) (condition : Expr) (thenBody elseBody : Stmt)
  | loop (node : Node) (condition : Expr) (body : Stmt)
  | ret (node : Node) (value : Option Expr)
  | action (node : Node) (expr : Expr)
  deriving Repr

namespace Stmt

def node : Stmt → Node
  | .block node _ | .function node _ _ _ | .struct node _ _ | .cls node _ _ _
  | .template node _ _ _ | .ifThen node _ _ | .ifElse node _ _ _ | .loop node _ _ | .ret node _
  | .action node _ => node
  | .variable binder _ | .field binder => binder.node

def id (s : Stmt) : NodeId := s.node.id

/-- Whether the enclosing block takes into account if the statement returns. -/
def isReturnContainer : Stmt → Bool
  | .block _ _ | .ifThen _ _ _ | .ifElse _ _ _ _ | .ret _ _ => true
  | _ => false

/-- Whether the statement declares a member when it stands in a class body. -/
def isMember : Stmt → Bool
  | .variable _ _ | .field _ | .function _ _ _ _ | .template _ _ _ _ => true
  | _ => false

end Stmt

structure Block where
  node : Node
  body : List Stmt

structure Program where
  node : Node
  body : List Stmt

end ScriptAnalysis
