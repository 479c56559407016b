import ScriptAnalysis.Grammar.Expr
import ScriptAnalysis.Tree.Stmt

/-!
Reading statements and programs. Statements have no terminator: an expression ends at the first token
that cannot extend it. Each production takes the parsers of the expressions and statements inside it.
-/
namespace ScriptAnalysis

namespace Parser

/-- The end of a block at its closing brace, or one more statement. -/
def blockStep (stmt : Parser Stmt) (body : List Stmt) : Parser (List Stmt ⊕ List Stmt) := do
  match ← kind with
  | .closeCurly => return .inr body.reverse
  | .eof => unexpectedBecause "expected '\x7d' to close the block"
  | _ => return .inl ((← stmt) :: body)

def blockOf (stmt : Parser Stmt) : Parser Block := do
  let start := (← expect .openCurly).span.start
  let body ← iterate (blockStep stmt) []
  discard (expect .closeCurly)
  return ⟨← nodeFrom start, body⟩

def variableOrField (expr : Power → Parser Expr) : Parser Stmt := do
  let start := (← advance).span.start
  let name ← expectOr .identifier
    (·.unexpectedBecause "expected identifier during variable declaration")
  discard (expect .colon)
  let type ← typeExpr .lowest
  if (← kind) ≠ .assignment then return .field ⟨← nodeFrom start, name.value, type⟩
  discard advance
  let value ← expr .lowest
  return .variable ⟨← nodeFrom start, name.value, type⟩ value

def structField : Parser Binder := do
  let start := (← expect .var).span.start
  let name := (← expect .identifier).value
  discard (expect .colon)
  let type ← typeExpr .lowest
  return ⟨← nodeFrom start, name, type⟩

def binder : Parser Binder := do
  let name ← expect .identifier
  discard (expect .colon)
  let type ← typeExpr .lowest
  return ⟨← nodeFrom name.span.start, name.value, type⟩

def parameters : Parser (List Binder) := do
  discard (expect .openParen)
  commaSeparated .closeParen binder

/-- The result type before a body. A set suffix counts only if a body still follows it; if none does,
the type is read again without. -/
def resultType : Parser TypeExpr := do
  if (← kind) ≠ .colon then
    return .name (← nodeAt (.empty (← get).lastEnd)) "Void"
  discard advance
  let here := (← get).index
  let type ← typeExpr .lowest
  if (← kind) = .openCurly then return type
  moveTo here
  withoutSetSuffix (typeExpr .lowest)

def function (stmt : Parser Stmt) (visibility : Option Visibility) (start : Position) :
    Parser Stmt := do
  discard (expect .fn)
  let name := (← expect .identifier).value
  let parameters ← parameters
  let result ← resultType
  let body ← blockOf stmt
  return .function (← nodeFrom start) ⟨visibility, name, parameters, result⟩ body.node body.body

/-- One more class name; a comma behind it asks for another. -/
def superclassStep (found : List Superclass) : Parser (List Superclass ⊕ List Superclass) := do
  let token ← expect .identifier
  let found := ⟨token.value, token.span⟩ :: found
  if (← kind) ≠ .comma then return .inr found.reverse
  discard advance
  return .inl found

/-- The names behind `from`, at least one; none without it. -/
def superclasses : Parser (List Superclass) := do
  if (← kind) ≠ .fromWord then return []
  discard advance
  iterate superclassStep []

def cls (stmt : Parser Stmt) (visibility : Option Visibility) (start : Position) : Parser Stmt := do
  discard (expect .cls)
  let name := (← expect .identifier).value
  let superclasses ← superclasses
  let body ← blockOf stmt
  return .cls (← nodeFrom start) ⟨visibility, name, superclasses⟩ body.node body.body

def marked (stmt : Parser Stmt) (visibility : Visibility) : Parser Stmt := do
  let start := (← advance).span.start
  match ← kind with
  | .fn => function stmt (some visibility) start
  | .cls => cls stmt (some visibility) start
  | _ => unexpectedBecause "expected 'fun' or 'class' after a visibility modifier"

/-- The end of a struct at its closing brace, or one more field. -/
def structStep (fields : List Binder) : Parser (List Binder ⊕ List Binder) := do
  if (← kind) = .closeCurly then return .inr fields.reverse
  return .inl ((← structField) :: fields)

def struct : Parser Stmt := do
  let start := (← advance).span.start
  let name := (← expect .identifier).value
  discard (expect .openCurly)
  let fields ← iterate structStep []
  discard (expect .closeCurly)
  return .struct (← nodeFrom start) name fields

def template (stmt : Parser Stmt) : Parser Stmt := do
  let start := (← advance).span.start
  discard (expect .less)
  let typeParameters ← commaSeparated .greater binder
  discard (expect .fn)
  let name := (← expect .identifier).value
  let parameters ← parameters
  let result ← resultType
  let body ← blockOf stmt
  return .template (← nodeFrom start) ⟨typeParameters, name, parameters, result⟩ body.node body.body

def conditional (expr : Power → Parser Expr) (stmt : Parser Stmt) : Parser Stmt := do
  let start := (← advance).span.start
  let condition ← expr .lowest
  let thenBody ← stmt
  if (← kind) ≠ .elseWord then return .ifThen (← nodeFrom start) condition thenBody
  discard advance
  let elseBody ← stmt
  return .ifElse (← nodeFrom start) condition thenBody elseBody

def loop (expr : Power → Parser Expr) (stmt : Parser Stmt) : Parser Stmt := do
  let start := (← advance).span.start
  let condition ← expr .lowest
  let body ← stmt
  return .loop (← nodeFrom start) condition body

/-- A return, with a value if the next token starts an expression. -/
def ret (expr : Power → Parser Expr) : Parser Stmt := do
  let start := (← advance).span.start
  if (← kind).startsExpr then
    let value ← expr .lowest
    return .ret (← nodeFrom start) (some value)
  return .ret (← nodeFrom start) none

def action (expr : Power → Parser Expr) : Parser Stmt := do
  let start := (← get).position
  let e ← expr .lowest
  if !e.isAction then
    reject (.atPosition
      (.unexpectedBecause e.render "expected an assignment or a call as statement") start)
  return .action (← nodeAt e.span) e

def statement (expr : Power → Parser Expr) (stmt : Parser Stmt) : Parser Stmt := do
  match ← kind with
  | .openCurly =>
    let b ← blockOf stmt
    return .block b.node b.body
  | .var => variableOrField expr
  | .fn => function stmt none (← get).position
  | .cls => cls stmt none (← get).position
  | .pub => marked stmt .pub
  | .pvt => marked stmt .pvt
  | .struct => struct
  | .template => template stmt
  | .ifWord => conditional expr stmt
  | .whileWord => loop expr stmt
  | .returnWord => ret expr
  | _ => action expr

/-- A statement nested at most as deep as the given number. -/
def stmtWithin : Nat → Parser Stmt
  | 0 => throw .exhausted
  | depth + 1 => statement (exprWithin (depth + 1)) (stmtWithin depth)

def stmt : Parser Stmt := do stmtWithin ((← get).remaining + 1)

def block : Parser Block := do blockOf (stmtWithin ((← get).remaining + 1))

def programStep (body : List Stmt) : Parser (List Stmt ⊕ List Stmt) := do
  if (← kind) = .eof then return .inr body.reverse
  return .inl ((← stmt) :: body)

def program : Parser Program := do
  let id ← freshId
  let body ← iterate programStep []
  let c ← get
  return ⟨⟨id, c.spanFrom (.origin c.file)⟩, body⟩

end Parser

/-- Reads tokens as a program, and tells where reading stopped. -/
def Program.parse (tokens : List Token) (file : String) : EStateM.Result Failure Cursor Program :=
  Parser.program (Cursor.start tokens file)

end ScriptAnalysis
