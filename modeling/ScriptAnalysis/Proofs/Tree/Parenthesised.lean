import ScriptAnalysis.Typing.Obligation

/-! Callees in parentheses. -/
namespace ScriptAnalysis

namespace Expr

mutual

/-- Puts the callee of that number into parentheses with a node of their own, wherever it is called. -/
def parenthesise (c : NodeId) (m : Node) : Expr → Expr
  | .paren node inner => .paren node (inner.parenthesise c m)
  | .literal node k elements => .literal node k (parenthesiseAll c m elements)
  | .not node operand => .not node (operand.parenthesise c m)
  | .binary node op left right => .binary node op (left.parenthesise c m) (right.parenthesise c m)
  | .assign node target value => .assign node (target.parenthesise c m) (value.parenthesise c m)
  | .call node callee arguments =>
    .call node
      (if callee.id = c then .paren m (callee.parenthesise c m) else callee.parenthesise c m)
      (parenthesiseAll c m arguments)
  | .templateCall node callee types arguments =>
    .templateCall node (callee.parenthesise c m) types (parenthesiseAll c m arguments)
  | .index node base position => .index node (base.parenthesise c m) (position.parenthesise c m)
  | .member node k stem name => .member node k (stem.parenthesise c m) name
  | .int node value => .int node value
  | .float node value => .float node value
  | .string node value => .string node value
  | .symbol ref => .symbol ref
  | .construct node k ref => .construct node k ref

def parenthesiseAll (c : NodeId) (m : Node) : List Expr → List Expr
  | [] => []
  | e :: rest => e.parenthesise c m :: parenthesiseAll c m rest

end

variable (c : NodeId) (m : Node)

theorem node_parenthesise (e : Expr) : (e.parenthesise c m).node = e.node := by cases e <;> rfl

theorem id_parenthesise (e : Expr) : (e.parenthesise c m).id = e.id :=
  congrArg Node.id (e.node_parenthesise c m)

theorem isPlace_parenthesise (e : Expr) : (e.parenthesise c m).isPlace = e.isPlace := by cases e <;> rfl

theorem map_node_parenthesiseAll (es : List Expr) : (parenthesiseAll c m es).map node = es.map node := by
  induction es with
  | nil => rfl
  | cons e es ih => rw [parenthesiseAll, List.map_cons, List.map_cons, ih, node_parenthesise]

theorem calleeName?_parenthesise : ∀ e : Expr, (e.parenthesise c m).calleeName? = e.calleeName?
  | .paren _ inner => inner.calleeName?_parenthesise
  | .symbol _ | .member _ _ _ _ | .int _ _ | .float _ _ | .string _ _ | .literal _ _ _ | .not _ _
  | .binary _ _ _ _ | .assign _ _ _ | .call _ _ _ | .templateCall _ _ _ _ | .index _ _ _
  | .construct _ _ _ => rfl

end Expr

variable (c : NodeId) (m : Node)

/-- The functions of a name are looked for where they were. -/
theorem OverloadSite.of?_parenthesise : ∀ e : Expr, of? (e.parenthesise c m) = of? e
  | .paren _ inner => of?_parenthesise inner
  | .member _ .cls stem _ => congrArg (fun id => some (element id)) (stem.id_parenthesise c m)
  | .member _ .struct _ _ | .symbol _ | .int _ _ | .float _ _ | .string _ _ | .literal _ _ _ | .not _ _
  | .binary _ _ _ _ | .assign _ _ _ | .call _ _ _ | .templateCall _ _ _ _ | .index _ _ _
  | .construct _ _ _ => rfl

/-- As a callee an expression has the same name and the same site. -/
theorem Callee.of_parenthesise (e : Expr) :
    Callee.of (e.parenthesise c m) = { Callee.of e with text := (e.parenthesise c m).render } := by
  rw [Callee.of, Callee.of, e.id_parenthesise, e.calleeName?_parenthesise, OverloadSite.of?_parenthesise]

theorem Callee.of_paren_parenthesise (e : Expr) :
    Callee.of (.paren m (e.parenthesise c m)) =
      { Callee.of e with id := m.id, text := (Expr.paren m (e.parenthesise c m)).render } := by
  rw [Callee.of, Callee.of, Expr.calleeName?, OverloadSite.of?, e.calleeName?_parenthesise,
    OverloadSite.of?_parenthesise]
  rfl

namespace Stmt

mutual

def mapExprs (f : Expr → Expr) : Stmt → Stmt
  | .block node body => .block node (mapExprsAll f body)
  | .variable b value => .variable b (f value)
  | .function node head inner body => .function node head inner (mapExprsAll f body)
  | .cls node head inner body => .cls node head inner (mapExprsAll f body)
  | .template node head inner body => .template node head inner (mapExprsAll f body)
  | .ifThen node e thenBody => .ifThen node (f e) (thenBody.mapExprs f)
  | .ifElse node e thenBody elseBody => .ifElse node (f e) (thenBody.mapExprs f) (elseBody.mapExprs f)
  | .loop node e body => .loop node (f e) (body.mapExprs f)
  | .ret node value => .ret node (value.map f)
  | .action node e => .action node (f e)
  | .field b => .field b
  | .struct node name fields => .struct node name fields

def mapExprsAll (f : Expr → Expr) : List Stmt → List Stmt
  | [] => []
  | x :: rest => x.mapExprs f :: mapExprsAll f rest

end

end Stmt

/-- Puts the callee of that number into parentheses, wherever it is called. -/
def Program.parenthesise (c : NodeId) (m : Node) (p : Program) : Program :=
  { p with body := Stmt.mapExprsAll (Expr.parenthesise c m) p.body }

end ScriptAnalysis
