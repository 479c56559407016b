import ScriptAnalysis.Typing.Walk

/-!
The walk with a cursor. The scope that the walk is in and what is expected of the expression to come are
state here: they are replaced on the way in and put back on the way out. The walk with a cursor does what
`Walk.stmt` does, to which both are handed down, and wherever it is done with a statement or an expression
the cursor is as it was (`Cursored.keeps_stmt`, `Cursored.keeps_expr`).
-/
namespace ScriptAnalysis

structure Walk.Focus where
  scope : ScopeId
  expected : Expectation

def Walk.Focus.initial : Walk.Focus := ⟨ScopeTable.root, .free⟩

abbrev Cursored := StateT Walk.Focus Walk

namespace Cursored

variable {α β : Type}

/-- A step that only looks at the scope of the cursor. -/
def here (f : ScopeId → Walk α) : Cursored α := do f (← get).scope

def within (scope : ScopeId) (w : Cursored α) : Cursored α := do
  let saved := (← get).scope
  modify ({ · with scope })
  let result ← w
  modify ({ · with scope := saved })
  return result

def expecting (expected : Expectation) (w : Cursored α) : Cursored α := do
  let saved := (← get).expected
  modify ({ · with expected })
  let result ← w
  modify ({ · with expected := saved })
  return result

def typeExpr (t : TypeExpr) : Cursored Unit := here (Walk.typeExpr · t)

def reference (ref : Reference) : Cursored Unit := here (Walk.reference · ref)

mutual

def expr (e : Expr) : Cursored Unit := do
  let expected := (← get).expected
  expecting .free do
    match e with
    | .int node _ => Walk.setAttribute (.typeOf node.id) (.type .int)
    | .float node _ => Walk.setAttribute (.typeOf node.id) (.type .float)
    | .string node _ => Walk.setAttribute (.typeOf node.id) (.type .string)
    | .symbol ref => reference ref
    | .paren node inner =>
      expr inner
      Walk.oblige node (.copy (.typeOf inner.id) (.typeOf node.id))
    | .literal node c [] => Walk.emptyLiteral node c expected
    | .literal node c (first :: rest) =>
      exprs (first :: rest)
      Walk.oblige node (.literal c ((first :: rest).map Expr.node))
    | .not node operand =>
      expr operand
      Walk.setAttribute (.typeOf node.id) (.type .bool)
      Walk.oblige node (.negation operand.id)
    | .binary node op left right =>
      expr left
      expr right
      Walk.binary node op left right
    | .assign node target value =>
      expr target
      expr value
      Walk.oblige node (.assignment target.node target.isPlace value.id)
    | .call node callee arguments =>
      expr callee
      exprArguments callee.id 0 arguments
      Walk.oblige node (.call (.of callee) (arguments.map Expr.node))
    | .templateCall node callee types arguments =>
      expr callee
      types.forM typeExpr
      exprArguments callee.id 0 arguments
      Walk.oblige node (.templateCall callee.id callee.render (types.map TypeExpr.id)
        (arguments.map Expr.node))
    | .index node base position =>
      expr base
      expr position
      Walk.oblige node (.index base.id position.node)
    | .member node c stem name =>
      expr stem
      Walk.oblige node (.member c stem.id name)
    | .construct node c ref =>
      reference ref
      Walk.oblige node (.construct c ref.node.id ref.name)

def exprs : List Expr → Cursored Unit
  | [] => return
  | e :: rest => do
    expr e
    exprs rest

def exprArguments (callee : NodeId) : (index : Nat) → List Expr → Cursored Unit
  | _, [] => return
  | index, e :: rest => do
    expecting (.argument callee index) (expr e)
    exprArguments callee (index + 1) rest

end

def functionHead (node : Node) (head : FunctionHead) : Cursored ScopeId := do
  let info : FunctionInfo := { visibility := head.visibility, result := some head.result.id }
  let id ← Walk.declareAt node head.name (.function info)
  here (Walk.bindName · head.name id)
  here fun scope => Walk.registerSignature ⟨scope, head.name, head.parameters.map (·.type.render)⟩ id
  let inner ← here (Walk.openBody · node id)
  let parameters ← within inner do
    let parameters ← head.parameters.mapM fun b => here (Walk.parameter · b)
    typeExpr head.result
    return parameters
  Walk.modifyDeclaration id fun d => { d with kind := .function { info with parameters } }
  Walk.oblige node (.functionType id head.result.id (head.parameters.map (·.type.id)))
  return inner

def templateHead (node : Node) (head : TemplateHead) : Cursored ScopeId := do
  let info : TemplateInfo := { result := some head.result.id }
  let id ← Walk.declareAt node head.name (.template info)
  here (Walk.bindName · head.name id)
  let inner ← here (Walk.openBody · node id)
  let info ← within inner do
    let typeParameters ← head.typeParameters.mapM fun b => here (Walk.typeParameter · b)
    let parameters ← head.parameters.mapM fun b => here (Walk.parameter · b)
    typeExpr head.result
    return { info with typeParameters, parameters }
  Walk.modifyDeclaration id fun d => { d with kind := .template info }
  Walk.oblige node (.templateType id head.result.id info.typeParameters (head.parameters.map (·.type.id)))
  return inner

def ret (node : Node) (value : Option Expr) : Cursored Unit := do
  Walk.setAttribute (.returnsOf node.id) (.flag true)
  match value with
  | some e => expr e
  | none => pure ()
  here fun scope => do
    match ← Walk.check ((← get).tables.scopes.enclosingFunction scope) with
    | none => return
    | some function =>
      match (← Walk.declaration function).kind.result?, value with
      | some result, some e => Walk.oblige node (.valueReturn result e.node)
      | some result, none => Walk.oblige node (.emptyReturn result)
      | none, _ => return

def condition (e : Expr) (statement : String) : Cursored Unit := do
  expr e
  Walk.oblige e.node (.condition statement)

/-- A block in a scope of its own, or in that of the declaration whose body it is. -/
def block (scope : ScopeId) (node : Node) (body : List Stmt) (w : Cursored Unit) : Cursored Unit := do
  Walk.enterBlock scope node
  within scope w
  Walk.leaveBlock node body

mutual

def stmt : Stmt → Cursored Unit
  | .block node body => do
    let inner ← here (Walk.openScope · .block)
    block inner node body (stmts body)
  | .variable b value => do
    typeExpr b.type
    let id ← Walk.declareAt b.node b.name .variable
    expecting (.variable id) (expr value)
    here (Walk.bindName · b.name id)
    Walk.oblige b.node (.copy (.valueOf b.type.id) (.typeOfDecl id))
    Walk.oblige b.node (.initializer id b.name value.node)
  | .field b => here fun scope => discard (Walk.field scope b true)
  | .function node head inner body => do
    let scope ← functionHead node head
    block scope inner body (stmts body)
    Walk.oblige node (.bodyReturns inner.id head.result.id)
  | .struct node name fields => here (Walk.struct · node name fields)
  | .cls node head inner body => do
    let c ← here (Walk.classHead · node head)
    block c.scope inner body (stmts body)
    Walk.classMembers c body
  | .template node head inner body => do
    let scope ← templateHead node head
    block scope inner body (stmts body)
    Walk.oblige node (.bodyReturns inner.id head.result.id)
  | .ifThen node e thenBody => do
    condition e "If"
    stmt thenBody
    Walk.setAttribute (.returnsOf node.id) (.flag false)
  | .ifElse node e thenBody elseBody => do
    condition e "If"
    stmt thenBody
    stmt elseBody
    if thenBody.isReturnContainer && elseBody.isReturnContainer then
      Walk.oblige node (.branchesReturn thenBody.id elseBody.id)
    else Walk.setAttribute (.returnsOf node.id) (.flag false)
  | .loop _ e body => do
    condition e "While"
    stmt body
  | .ret node value => ret node value
  | .action _ e => expr e

def stmts : List Stmt → Cursored Unit
  | [] => return
  | s :: rest => do
    stmt s
    stmts rest

end

def program (p : Program) : Cursored Unit := do
  Builtin.declareAll
  here fun scope => Walk.setAttribute (.scopeOf p.node.id) (.scope scope)
  stmts p.body

variable {c : Walk.Focus}

/-- A walk with a cursor does what a plain one does, and leaves the cursor as it was. -/
def Keeps (c : Walk.Focus) (w : Cursored α) (v : Walk α) : Prop := w.run c = (·, c) <$> v

theorem Keeps.lift (v : Walk α) : Keeps c v v := by
  simp [Keeps]

theorem Keeps.here (f : ScopeId → Walk α) : Keeps c (here f) (f c.scope) := by
  simp [Keeps, Cursored.here]

theorem Keeps.bind {w : Cursored α} {v : Walk α} {k : α → Cursored β} {j : α → Walk β} (h : Keeps c w v)
    (hk : ∀ u, Keeps c (k u) (j u)) : Keeps c (w >>= k) (v >>= j) := by
  unfold Keeps at h hk ⊢
  simp [h, hk]

theorem Keeps.within {scope : ScopeId} {w : Cursored α} {v : Walk α} (h : Keeps ⟨scope, c.expected⟩ w v) :
    Keeps c (within scope w) v := by
  unfold Keeps at h ⊢
  simp [Cursored.within, h]

theorem Keeps.expecting {x : Expectation} {w : Cursored α} {v : Walk α} (h : Keeps ⟨c.scope, x⟩ w v) :
    Keeps c (expecting x w) v := by
  unfold Keeps at h ⊢
  simp [Cursored.expecting, h]

theorem Keeps.get {k : Walk.Focus → Cursored α} {v : Walk α} (h : Keeps c (k c) v) : Keeps c (get >>= k) v := by
  unfold Keeps at h ⊢
  simp [h]

theorem Keeps.mapM {f : α → Cursored β} {g : α → Walk β} (h : ∀ x, Keeps c (f x) (g x)) :
    ∀ xs : List α, Keeps c (xs.mapM f) (xs.mapM g)
  | [] => Keeps.lift (pure [])
  | x :: rest => by
    rw [List.mapM_cons, List.mapM_cons]
    exact (h x).bind fun _ => (Keeps.mapM h rest).bind fun _ => .lift (pure _)

theorem Keeps.forM {f : α → Cursored Unit} {g : α → Walk Unit} (h : ∀ x, Keeps c (f x) (g x)) :
    ∀ xs : List α, Keeps c (xs.forM f) (xs.forM g)
  | [] => Keeps.lift (pure ())
  | x :: rest => (h x).bind fun _ => Keeps.forM h rest

mutual

/-- At an expression the cursor holds what is expected of it, and nothing is expected of its parts. -/
theorem keeps_expr (scope : ScopeId) (x : Expectation) :
    ∀ e, Keeps ⟨scope, x⟩ (expr e) (Walk.expr Walk.reference scope x e)
  | .int _ _ | .float _ _ | .string _ _ => Keeps.get (Keeps.lift _).expecting
  | .symbol _ => Keeps.get (Keeps.here _).expecting
  | .paren _ inner => Keeps.get ((keeps_expr scope .free inner).bind fun _ => .lift _).expecting
  | .literal _ _ [] => Keeps.get (Keeps.lift _).expecting
  | .literal _ _ (first :: rest) =>
    Keeps.get ((keeps_exprs scope (first :: rest)).bind fun _ => .lift _).expecting
  | .not _ operand =>
    Keeps.get ((keeps_expr scope .free operand).bind fun _ => (Keeps.lift _).bind fun _ => .lift _).expecting
  | .binary _ _ left right | .assign _ left right | .index _ left right =>
    Keeps.get ((keeps_expr scope .free left).bind fun _ =>
      (keeps_expr scope .free right).bind fun _ => .lift _).expecting
  | .member _ _ stem _ => Keeps.get ((keeps_expr scope .free stem).bind fun _ => .lift _).expecting
  | .call _ callee arguments =>
    Keeps.get ((keeps_expr scope .free callee).bind fun _ =>
      (keeps_exprArguments scope callee.id 0 arguments).bind fun _ => .lift _).expecting
  | .templateCall _ callee types arguments =>
    Keeps.get ((keeps_expr scope .free callee).bind fun _ =>
      (Keeps.forM (fun _ => .here _) types).bind fun _ =>
      (keeps_exprArguments scope callee.id 0 arguments).bind fun _ => .lift _).expecting
  | .construct _ _ _ => Keeps.get ((Keeps.here _).bind fun _ => .lift _).expecting

theorem keeps_exprs (scope : ScopeId) :
    ∀ es, Keeps ⟨scope, .free⟩ (exprs es) (Walk.exprs Walk.reference scope es)
  | [] => .lift (pure ())
  | e :: rest => (keeps_expr scope .free e).bind fun _ => keeps_exprs scope rest

theorem keeps_exprArguments (scope : ScopeId) (callee : NodeId) :
    ∀ i es, Keeps ⟨scope, .free⟩ (exprArguments callee i es)
      (Walk.exprArguments Walk.reference scope callee i es)
  | _, [] => .lift (pure ())
  | i, e :: rest => (keeps_expr scope _ e).expecting.bind fun _ => keeps_exprArguments scope callee (i + 1) rest

end

theorem keeps_functionHead (node : Node) (head : FunctionHead) :
    Keeps c (functionHead node head) (Walk.functionHead c.scope node head) := by
  have h : Keeps c (functionHead node head) _ :=
    (Keeps.lift _).bind fun id => (Keeps.here _).bind fun _ => (Keeps.here _).bind fun _ =>
    (Keeps.here _).bind fun inner =>
    (Keeps.within ((Keeps.mapM (fun b => .here (Walk.parameter · b)) head.parameters).bind fun _ =>
      (Keeps.here _).bind fun _ => .lift (pure _))).bind fun _ =>
    (Keeps.lift _).bind fun _ => (Keeps.lift _).bind fun _ => .lift (pure inner)
  simpa only [Walk.functionHead, bind_assoc, pure_bind] using h

theorem keeps_templateHead (node : Node) (head : TemplateHead) :
    Keeps c (templateHead node head) (Walk.templateHead c.scope node head) := by
  have h : Keeps c (templateHead node head) _ :=
    (Keeps.lift _).bind fun id => (Keeps.here _).bind fun _ => (Keeps.here _).bind fun inner =>
    (Keeps.within ((Keeps.mapM (fun b => .here (Walk.typeParameter · b)) head.typeParameters).bind fun _ =>
      (Keeps.mapM (fun b => .here (Walk.parameter · b)) head.parameters).bind fun _ =>
      (Keeps.here _).bind fun _ => .lift (pure _))).bind fun _ =>
    (Keeps.lift _).bind fun _ => (Keeps.lift _).bind fun _ => .lift (pure inner)
  simpa only [Walk.templateHead, bind_assoc, pure_bind] using h

theorem keeps_condition (scope : ScopeId) (e : Expr) (statement : String) :
    Keeps ⟨scope, .free⟩ (condition e statement) (Walk.condition Walk.reference scope e statement) :=
  (keeps_expr scope .free e).bind fun _ => .lift _

theorem Keeps.block {scope : ScopeId} {node : Node} {body : List Stmt} {w : Cursored Unit} {v : Walk Unit}
    {k : Unit → Cursored α} {j : Unit → Walk α} (h : Keeps ⟨scope, c.expected⟩ w v)
    (hk : ∀ u, Keeps c (k u) (j u)) : Keeps c (block scope node body w >>= k) (do
      Walk.enterBlock scope node
      v
      Walk.leaveBlock node body
      j ()) := by
  have hblock : Keeps c (Cursored.block scope node body w) _ :=
    (Keeps.lift _).bind fun _ => h.within.bind fun _ => .lift _
  simpa only [bind_assoc] using hblock.bind hk

mutual

theorem keeps_stmt (scope : ScopeId) :
    ∀ s, Keeps ⟨scope, .free⟩ (stmt s) (Walk.stmt Walk.reference scope s)
  | .block _ body => (Keeps.here _).bind fun inner =>
    (Keeps.lift _).bind fun _ => (keeps_stmts inner body).within.bind fun _ => .lift _
  | .variable _ value => (Keeps.here _).bind fun _ => (Keeps.lift _).bind fun _ =>
    (keeps_expr scope _ value).expecting.bind fun _ =>
    (Keeps.here _).bind fun _ => (Keeps.lift _).bind fun _ => .lift _
  | .field _ => .here _
  | .function _ _ _ body => (keeps_functionHead _ _).bind fun inner =>
    (keeps_stmts inner body).block fun _ => .lift _
  | .struct _ _ _ => .here _
  | .cls _ _ _ body => (Keeps.here _).bind fun c => (keeps_stmts c.scope body).block fun _ => .lift _
  | .template _ _ _ body => (keeps_templateHead _ _).bind fun inner =>
    (keeps_stmts inner body).block fun _ => .lift _
  | .ifThen _ e thenBody => (keeps_condition scope e "If").bind fun _ =>
    (keeps_stmt scope thenBody).bind fun _ => .lift _
  | .ifElse _ e thenBody elseBody => (keeps_condition scope e "If").bind fun _ =>
    (keeps_stmt scope thenBody).bind fun _ => (keeps_stmt scope elseBody).bind fun _ => by
      split <;> exact .lift _
  | .loop _ e body => (keeps_condition scope e "While").bind fun _ => keeps_stmt scope body
  | .ret _ (some e) => (Keeps.lift _).bind fun _ => (keeps_expr scope .free e).bind fun _ => .here _
  | .ret _ none => (Keeps.lift _).bind fun _ => .here _
  | .action _ e => keeps_expr scope .free e

theorem keeps_stmts (scope : ScopeId) :
    ∀ ss, Keeps ⟨scope, .free⟩ (stmts ss) (Walk.stmts Walk.reference scope ss)
  | [] => .lift (pure ())
  | s :: rest => (keeps_stmt scope s).bind fun _ => keeps_stmts scope rest

end

theorem keeps_program (p : Program) : Keeps .initial (program p) (do
    Builtin.declareAll
    Walk.program p) :=
  (Keeps.lift _).bind fun _ => (Keeps.here _).bind fun _ => keeps_stmts ScopeTable.root p.body

end Cursored

end ScriptAnalysis
