import ScriptAnalysis.Typing.Builtin

/-!
The walk over a program in document order. It opens scopes, declares names, sets what is known at
once, and leaves the rest as obligations.
-/
namespace ScriptAnalysis

inductive Expectation where
  | free
  | variable (declaration : DeclId)
  | argument (callee : NodeId) (index : Nat)
  deriving DecidableEq, Repr

namespace Walk

def typeExpr (scope : ScopeId) : TypeExpr → Walk Unit
  | .name node text => oblige node (.typeName scope text)
  | .container node c component => do
    typeExpr scope component
    oblige node (.containerType c component.id)

/-- A name. One that is bound where it stands is resolved at once, any other is looked up again when
all scopes are filled. -/
def reference (scope : ScopeId) (ref : Reference) : Walk Unit := do
  let node := ref.node
  match ← lookup scope ref.name with
  | some found =>
    setAttribute (.declOf node.id) (.decl found.declaration)
    setAttribute (.scopeOf node.id) (.scope found.scope)
    oblige node (.copy (.typeOfDecl found.declaration) (.typeOf node.id))
  | none => oblige node (.lateReference scope ref.name)

/-- What is done at a name, given the scope that it stands in. -/
abbrev Resolver := ScopeId → Reference → Walk Unit

def emptyLiteral (node : Node) (c : Container) : Expectation → Walk Unit
  | .free => do
    report (.atNode (.uninferableLiteral c.word) node)
    failAttribute (.typeOf node.id)
  | .variable declaration => oblige node (.emptyForVariable c declaration)
  | .argument callee index => oblige node (.emptyForArgument c callee index)

/-- A binary operation whose operands have been walked. -/
def binary (node : Node) (op : BinaryOp) (left right : Expr) : Walk Unit := do
  match op.family with
  | .arithmetic => oblige node (.arithmetic op left.id right.id)
  | .equality =>
    setAttribute (.typeOf node.id) (.type .bool)
    oblige node (.equality left.id right.id)
  | .comparison =>
    setAttribute (.typeOf node.id) (.type .bool)
    oblige node (.comparison left.node right.node)
  | .logic =>
    setAttribute (.typeOf node.id) (.type .bool)
    oblige node (.logic left.node right.node)

mutual

/-- An expression. What is expected of it is not expected of its parts. -/
def expr (resolve : Resolver) (scope : ScopeId) (expected : Expectation) : Expr → Walk Unit
  | .int node _ => setAttribute (.typeOf node.id) (.type .int)
  | .float node _ => setAttribute (.typeOf node.id) (.type .float)
  | .string node _ => setAttribute (.typeOf node.id) (.type .string)
  | .symbol ref => resolve scope ref
  | .paren node inner => do
    expr resolve scope .free inner
    oblige node (.copy (.typeOf inner.id) (.typeOf node.id))
  | .literal node c elements => do
    if elements.isEmpty then emptyLiteral node c expected
    else
      exprs resolve scope elements
      oblige node (.literal c (elements.map Expr.node))
  | .not node operand => do
    expr resolve scope .free operand
    setAttribute (.typeOf node.id) (.type .bool)
    oblige node (.negation operand.id)
  | .binary node op left right => do
    expr resolve scope .free left
    expr resolve scope .free right
    binary node op left right
  | .assign node target value => do
    expr resolve scope .free target
    expr resolve scope .free value
    oblige node (.assignment target.node target.isPlace value.id)
  | .call node callee arguments => do
    expr resolve scope .free callee
    exprArguments resolve scope callee.id 0 arguments
    oblige node (.call (.of callee) (arguments.map Expr.node))
  | .templateCall node callee types arguments => do
    expr resolve scope .free callee
    types.forM (typeExpr scope)
    exprArguments resolve scope callee.id 0 arguments
    oblige node (.templateCall callee.id callee.render (types.map TypeExpr.id)
      (arguments.map Expr.node))
  | .index node base position => do
    expr resolve scope .free base
    expr resolve scope .free position
    oblige node (.index base.id position.node)
  | .member node c stem name => do
    expr resolve scope .free stem
    oblige node (.member c stem.id name)
  | .construct node c ref => do
    resolve scope ref
    oblige node (.construct c ref.node.id ref.name)

def exprs (resolve : Resolver) (scope : ScopeId) : List Expr → Walk Unit
  | [] => return
  | e :: rest => do
    expr resolve scope .free e
    exprs resolve scope rest

def exprArguments (resolve : Resolver) (scope : ScopeId) (callee : NodeId) :
    (index : Nat) → List Expr → Walk Unit
  | _, [] => return
  | index, e :: rest => do
    expr resolve scope (.argument callee index) e
    exprArguments resolve scope callee (index + 1) rest

end

def field (scope : ScopeId) (b : Binder) (bound : Bool) : Walk DeclId := do
  typeExpr scope b.type
  let id ← declareAt b.node b.name .field
  if bound then bindName scope b.name id
  oblige b.node (.copy (.valueOf b.type.id) (.typeOfDecl id))
  return id

def parameter (scope : ScopeId) (b : Binder) : Walk DeclId := do
  typeExpr scope b.type
  let id ← declareAt b.node b.name .parameter
  bindName scope b.name id
  oblige b.node (.copy (.valueOf b.type.id) (.typeOfDecl id))
  return id

def typeParameter (scope : ScopeId) (b : Binder) : Walk DeclId := do
  typeExpr scope b.type
  let id ← declareAt b.node b.name .typeParameter
  bindName scope b.name id
  setAttribute (.typeOfDecl id) (.type .type)
  setAttribute (.declaredBy id) (.type (.placeholder ⟨id, b.name⟩))
  return id

def variableDecl (resolve : Resolver) (scope : ScopeId) (b : Binder) (value : Expr) : Walk Unit := do
  typeExpr scope b.type
  let id ← declareAt b.node b.name .variable
  expr resolve scope (.variable id) value
  bindName scope b.name id
  oblige b.node (.copy (.valueOf b.type.id) (.typeOfDecl id))
  oblige b.node (.initializer id b.name value.node)

def enterBlock (scope : ScopeId) (node : Node) : Walk Unit :=
  setAttribute (.scopeOf node.id) (.scope scope)

/-- The end of a block: it returns if it has return containers and all of them return. -/
def leaveBlock (node : Node) (body : List Stmt) : Walk Unit :=
  match body.filter Stmt.isReturnContainer with
  | [] => setAttribute (.returnsOf node.id) (.flag false)
  | containers => oblige node (.blockReturns (containers.map Stmt.id))

def openBody (scope : ScopeId) (node : Node) (id : DeclId) : Walk ScopeId := do
  let inner ← openScope scope (.function id)
  modifyDeclaration id fun d => { d with bodyScope := some inner }
  setAttribute (.scopeOf node.id) (.scope inner)
  return inner

def functionHead (scope : ScopeId) (node : Node) (head : FunctionHead) : Walk ScopeId := do
  let info : FunctionInfo := { visibility := head.visibility, result := some head.result.id }
  let id ← declareAt node head.name (.function info)
  bindName scope head.name id
  registerSignature ⟨scope, head.name, head.parameters.map (·.type.render)⟩ id
  let inner ← openBody scope node id
  let parameters ← head.parameters.mapM (parameter inner)
  typeExpr inner head.result
  modifyDeclaration id fun d => { d with kind := .function { info with parameters } }
  oblige node (.functionType id head.result.id (head.parameters.map (·.type.id)))
  return inner

def templateHead (scope : ScopeId) (node : Node) (head : TemplateHead) : Walk ScopeId := do
  let info : TemplateInfo := { result := some head.result.id }
  let id ← declareAt node head.name (.template info)
  bindName scope head.name id
  let inner ← openBody scope node id
  let typeParameters ← head.typeParameters.mapM (typeParameter inner)
  let parameters ← head.parameters.mapM (parameter inner)
  typeExpr inner head.result
  modifyDeclaration id fun d => { d with kind := .template { info with typeParameters, parameters } }
  oblige node (.templateType id head.result.id typeParameters (head.parameters.map (·.type.id)))
  return inner

def struct (scope : ScopeId) (node : Node) (name : String) (fields : List Binder) : Walk Unit := do
  let id ← declareAt node name (.struct [])
  bindName scope name id
  setAttribute (.typeOfDecl id) (.type .type)
  setAttribute (.declaredBy id) (.type (.composite .struct ⟨id, name⟩))
  let fieldIds ← fields.mapM (field scope · false)
  modifyDeclaration id fun d => { d with kind := .struct fieldIds }

/-- The class that a name behind `from` stands for. It has to be declared before. -/
def superclass (scope : ScopeId) (node : Node) (s : Superclass) : Walk (Option DeclId) := do
  match ← lookup scope s.name with
  | none =>
    report (.atNode (.unresolvedName s.name) ⟨node.id, s.span⟩)
    return none
  | some found =>
    let kind := (← declaration found.declaration).kind
    match kind.class? with
    | some _ => return some found.declaration
    | none =>
      report (.atNode (.invalidSuperclass s.name kind.word) ⟨node.id, s.span⟩)
      return none

/-- A class whose head has been walked. A class with superclasses has two declarations: the one that
is written, and one that gathers the inherited members and takes its place. -/
structure OpenClass where
  written : DeclId
  effective : DeclId
  superclasses : List DeclId
  scope : ScopeId
  deriving DecidableEq, Repr

def classHead (scope : ScopeId) (node : Node) (head : ClassHead) : Walk OpenClass := do
  let info : ClassInfo := { visibility := head.visibility }
  let written ← declareAt node head.name (.cls info)
  bindName scope head.name written
  let superclasses := (← head.superclasses.mapM (superclass scope node)).filterMap id
  let effective ←
    if head.superclasses.isEmpty then pure written
    else do
      let id ← declareAt node head.name (.cls { info with superclasses, written := some written })
      bindName scope head.name id
      pure id
  for id in [written, effective] do
    setAttribute (.typeOfDecl id) (.type .type)
    setAttribute (.declaredBy id) (.type (.composite .cls ⟨effective, head.name⟩))
  let inner ← openScope scope (.cls effective)
  modifyDeclaration written fun d => { d with bodyScope := some inner }
  modifyDeclaration effective fun d => { d with bodyScope := some inner }
  setAttribute (.scopeOf node.id) (.scope inner)
  return ⟨written, effective, superclasses, inner⟩

def setMembers (id : DeclId) (ownMembers members : List DeclId) : Walk Unit :=
  modifyDeclaration id fun d =>
    match d.kind with
    | .cls info => { d with kind := .cls { info with ownMembers, members } }
    | _ => d

def ownMembers (id : DeclId) : Walk (List DeclId) := do
  return match (← declaration id).kind.class? with
    | some info => info.ownMembers
    | none => []

def classMembers (c : OpenClass) (body : List Stmt) : Walk Unit := do
  let declarations := (← get).tables.declarations
  let own := (body.filter Stmt.isMember).filterMap (declarations.forNode? ·.id)
  let inherited ← c.superclasses.mapM ownMembers
  setMembers c.written own own
  setMembers c.effective own (own ++ inherited.flatten)

def ret (resolve : Resolver) (scope : ScopeId) (node : Node) (value : Option Expr) : Walk Unit := do
  setAttribute (.returnsOf node.id) (.flag true)
  match value with
  | some e => expr resolve scope .free e
  | none => pure ()
  match ← check ((← get).tables.scopes.enclosingFunction scope) with
  | none => return
  | some function =>
    match (← declaration function).kind.result?, value with
    | some result, some e => oblige node (.valueReturn result e.node)
    | some result, none => oblige node (.emptyReturn result)
    | none, _ => return

def condition (resolve : Resolver) (scope : ScopeId) (e : Expr) (statement : String) : Walk Unit := do
  expr resolve scope .free e
  oblige e.node (.condition statement)

mutual

def stmt (resolve : Resolver) (scope : ScopeId) : Stmt → Walk Unit
  | .block node body => do
    let inner ← openScope scope .block
    enterBlock inner node
    stmts resolve inner body
    leaveBlock node body
  | .variable b value => variableDecl resolve scope b value
  | .field b => discard (field scope b true)
  | .function node head block body => do
    let inner ← functionHead scope node head
    enterBlock inner block
    stmts resolve inner body
    leaveBlock block body
    oblige node (.bodyReturns block.id head.result.id)
  | .struct node name fields => struct scope node name fields
  | .cls node head block body => do
    let c ← classHead scope node head
    enterBlock c.scope block
    stmts resolve c.scope body
    leaveBlock block body
    classMembers c body
  | .template node head block body => do
    let inner ← templateHead scope node head
    enterBlock inner block
    stmts resolve inner body
    leaveBlock block body
    oblige node (.bodyReturns block.id head.result.id)
  | .ifThen node e thenBody => do
    condition resolve scope e "If"
    stmt resolve scope thenBody
    setAttribute (.returnsOf node.id) (.flag false)
  | .ifElse node e thenBody elseBody => do
    condition resolve scope e "If"
    stmt resolve scope thenBody
    stmt resolve scope elseBody
    if thenBody.isReturnContainer && elseBody.isReturnContainer then
      oblige node (.branchesReturn thenBody.id elseBody.id)
    else setAttribute (.returnsOf node.id) (.flag false)
  | .loop _ e body => do
    condition resolve scope e "While"
    stmt resolve scope body
  | .ret node value => ret resolve scope node value
  | .action _ e => expr resolve scope .free e

def stmts (resolve : Resolver) (scope : ScopeId) : List Stmt → Walk Unit
  | [] => return
  | s :: rest => do
    stmt resolve scope s
    stmts resolve scope rest

end

def programWith (resolve : Resolver) (p : Program) : Walk Unit := do
  setAttribute (.scopeOf p.node.id) (.scope ScopeTable.root)
  stmts resolve ScopeTable.root p.body

def program (p : Program) : Walk Unit := programWith reference p

end Walk

end ScriptAnalysis
