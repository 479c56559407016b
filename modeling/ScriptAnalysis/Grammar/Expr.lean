import ScriptAnalysis.Grammar.Cursor
import ScriptAnalysis.Number.Numeral
import ScriptAnalysis.Tree.Expr

/-!
Reading written types and expressions. A token starts an expression, and tokens that bind more tightly than what stands
before it extend it. Each production takes the parser of the expressions inside it; `exprWithin` ties
them together up to a depth of nesting, and the number of tokens bounds that depth.
-/
namespace ScriptAnalysis

/-- The container that the tokens at the place make of the type before them. -/
def Cursor.typeSuffix? (c : Cursor) : Option Container :=
  match c.kind with
  | .openCurly => if c.setSuffix ∧ c.peek 1 = .closeCurly then some .set else none
  | .openBracket => if c.peek 1 = .closeBracket then some .array else none
  | _ => none

namespace Parser

def typeName : Parser TypeExpr := do
  let token ← expect .identifier
  return .name (← nodeAt token.span) token.value

/-- A written type with one more suffix, or the type itself if none follows or the power is too
high. -/
def typeStep (power : Power) (left : TypeExpr) : Parser (TypeExpr ⊕ TypeExpr) := do
  match (← get).typeSuffix? with
  | some c =>
    if power < .call then
      discard advance
      discard advance
      return .inl (.container (← nodeFrom left.node.span.start) c left)
    else return .inr left
  | none => return .inr left

/-- A written type whose suffixes bind more tightly than the given power. -/
def typeExpr (power : Power) : Parser TypeExpr := do
  if (← kind) ≠ .identifier then unexpectedBecause "expected a type"
  iterate (typeStep power) (← typeName)

end Parser

inductive TypeArgumentState where
  | name
  /-- A suffix, a comma or the end of the list. -/
  | suffix
  deriving DecidableEq, Repr

/-- Whether kinds of tokens go on as type arguments up to `>` and a parenthesis. -/
def TypeArgumentState.closes : TypeArgumentState → List TokenKind → Bool
  | .name, .identifier :: rest => closes .suffix rest
  | .suffix, .openBracket :: .closeBracket :: rest => closes .suffix rest
  | .suffix, .openCurly :: .closeCurly :: rest => closes .suffix rest
  | .suffix, .comma :: rest => closes .name rest
  | .suffix, .greater :: rest => rest.head? = some .openParen
  | _, _ => false

def typeArgumentsAhead : List TokenKind → Bool
  | .greater :: rest => rest.head? = some .openParen
  | kinds => TypeArgumentState.closes .name kinds

/-- Whether the tokens at the place are type arguments of a call of the expression before them. -/
def Cursor.atTemplateCall (c : Cursor) (left : Expr) : Bool :=
  c.kind = .less && left.isNamed && typeArgumentsAhead c.kindsAhead

namespace Parser

/-- The number that a token stands for, with a minus sign before it if `negative`. -/
def number (token : Token) (negative : Bool) (start : Position) : Parser Expr := do
  let text := if negative then "-" ++ token.value else token.value
  let span : Span := ⟨start, token.span.stop⟩
  let bad : Diagnostic := .atPosition (.badNumber text) token.span.start
  if token.value.toList.contains '.' then
    match Numeral.decimal? text.toList with
    | some value => return .float (← nodeAt span) value
    | none => reject bad
  else
    match Numeral.integer? text.toList with
    | some value => return .int (← nodeAt span) value
    | none => reject bad

def negativeNumber : Parser Expr := do
  let dash ← advance
  if (← kind) ≠ .number then unexpectedBecause "expected a number after '-'"
  number (← advance) true dash.span.start

def reference : Parser Reference := do
  let token ← expect .identifier
  return ⟨← nodeAt token.span, token.value⟩

def grouping (expr : Power → Parser Expr) : Parser Expr := do
  let start := (← advance).span.start
  let inner ← expr .lowest
  discard (expect .closeParen)
  return .paren (← nodeFrom start) inner

/-- Expressions between commas, up to a closing token. -/
def exprList (expr : Power → Parser Expr) (close : TokenKind) : Parser (List Expr) :=
  commaSeparated close (expr .comma)

def literal (expr : Power → Parser Expr) (c : Container) (close : TokenKind) : Parser Expr := do
  let start := (← advance).span.start
  let elements ← exprList expr close
  return .literal (← nodeFrom start) c elements

def constructor (c : Composite) : Parser Expr := do
  let start := (← advance).span.start
  let ref ← reference
  return .construct (← nodeFrom start) c ref

def negation (expr : Power → Parser Expr) : Parser Expr := do
  let start := (← advance).span.start
  let operand ← expr .unary
  return .not (← nodeAt ⟨start, operand.span.stop⟩) operand

def primary (expr : Power → Parser Expr) : Parser Expr := do
  match ← kind with
  | .number =>
    let token ← advance
    number token false token.span.start
  | .identifier => return .symbol (← reference)
  | .string =>
    let token ← advance
    return .string (← nodeAt token.span) token.value
  | .dash => negativeNumber
  | .not => negation expr
  | .openParen => grouping expr
  | .openBracket => literal expr .array .closeBracket
  | .openCurly => literal expr .set .closeCurly
  | .dollar => constructor .struct
  | .create => constructor .cls
  | _ => unexpected

def assignment (expr : Power → Parser Expr) (left : Expr) : Parser Expr := do
  discard advance
  let value ← expr .comma
  return .assign (← nodeAt (left.span.upTo value.span)) left value

/-- The right operand of a binary operator. Operators of one power group to the left. -/
def binary (expr : Power → Parser Expr) (left : Expr) (op : BinaryOp) (power : Power) :
    Parser Expr := do
  discard advance
  let right ← expr power
  return .binary (← nodeAt (left.span.upTo right.span)) op left right

def call (expr : Power → Parser Expr) (left : Expr) : Parser Expr := do
  discard (expect .openParen)
  let arguments ← exprList expr .closeParen
  return .call (← nodeFrom left.span.start) left arguments

def index (expr : Power → Parser Expr) (left : Expr) : Parser Expr := do
  discard (expect .openBracket)
  let position ← expr .lowest
  discard (expect .closeBracket)
  return .index (← nodeFrom left.span.start) left position

def member (c : Composite) (left : Expr) : Parser Expr := do
  discard advance
  let name := (← expect .identifier).value
  return .member (← nodeFrom left.span.start) c left name

/-- The end of type arguments at `>`, or one more of them and a comma if there is one. -/
def typeArgumentStep (types : List TypeExpr) : Parser (List TypeExpr ⊕ List TypeExpr) := do
  if (← kind) = .greater then return .inr types.reverse
  let t ← typeExpr .lowest
  if (← kind) = .comma then discard advance
  return .inl (t :: types)

def typeArguments : Parser (List TypeExpr) := do
  let types ← iterate typeArgumentStep []
  discard (expect .greater)
  return types

/-- The type arguments and arguments of a template call. -/
def templateCall (expr : Power → Parser Expr) (left : Expr) : Parser Expr := do
  discard (expect .less)
  let types ← typeArguments
  discard (expect .openParen)
  let arguments ← exprList expr .closeParen
  return .templateCall (← nodeFrom left.span.start) left types arguments

/-- The expression that a token of the given power makes of the one before it. -/
def extension (expr : Power → Parser Expr) (left : Expr) (k : TokenKind) (power : Power) :
    Parser Expr :=
  match k with
  | .assignment => assignment expr left
  | .openParen => call expr left
  | .openBracket => index expr left
  | .dot => member .struct left
  | .dollar => member .cls left
  | k =>
    match k.binaryOp? with
    | some op => binary expr left op power
    | none => unexpected

/-- One extension of an expression by tokens that bind more tightly than the given power, or the
expression itself if there is none. -/
def extensionStep (expr : Power → Parser Expr) (power : Power) (left : Expr) :
    Parser (Expr ⊕ Expr) := do
  let c ← get
  if power < .call ∧ c.atTemplateCall left then return .inl (← templateCall expr left)
  match c.kind.extensionPower? with
  | some next =>
    if power < next then return .inl (← extension expr left c.kind next) else return .inr left
  | none => return .inr left

/-- An expression whose operators bind more tightly than the given power. -/
def expression (expr : Power → Parser Expr) (power : Power) : Parser Expr := do
  iterate (extensionStep expr power) (← primary expr)

/-- An expression nested at most as deep as the given number. -/
def exprWithin : Nat → Power → Parser Expr
  | 0, _ => throw .exhausted
  | depth + 1, power => expression (exprWithin depth) power

/-- An expression. Every level of nesting takes a token, so the tokens left bound the depth. -/
def expr (power : Power) : Parser Expr := do exprWithin ((← get).remaining + 1) power

end Parser

end ScriptAnalysis
