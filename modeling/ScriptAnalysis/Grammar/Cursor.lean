import ScriptAnalysis.Diagnostic.Basic
import ScriptAnalysis.Grammar.Power

/-!
A place in a stream of tokens, and parsers that move it. A parser that fails leaves the place, the
next node number and the suffix permission as they were at the failure.
-/
namespace ScriptAnalysis

structure TokenStream where
  tokens : Array Token
  last : Token
  last_kind : last.kind = .eof

namespace TokenStream

/-- The stream of a list of tokens; an end is added unless there is one. -/
def ofList (tokens : List Token) (file : String) : TokenStream :=
  match tokens.getLast? with
  | none => ⟨#[], .endAt (.origin file), rfl⟩
  | some t =>
    if h : t.kind = .eof then ⟨tokens.dropLast.toArray, t, h⟩
    else ⟨tokens.toArray, .endAt t.span.stop, rfl⟩

/-- The token at an index, the closing one included. -/
def get? (s : TokenStream) (index : Nat) : Option Token :=
  if index = s.tokens.size then some s.last else s.tokens[index]?

end TokenStream

structure Cursor where
  stream : TokenStream
  file : String
  index : Nat := 0
  nextId : Nat := 0
  /-- Whether braces after a type make it a set type. -/
  setSuffix : Bool := true

namespace Cursor

def start (tokens : List Token) (file : String) : Cursor := { stream := .ofList tokens file, file }

/-- The token at the place; from the end on it is the closing one. -/
def current (c : Cursor) : Token := c.stream.tokens[c.index]?.getD c.stream.last

def kind (c : Cursor) : TokenKind := c.current.kind

def peek (c : Cursor) (n : Nat) : TokenKind :=
  match c.stream.tokens[c.index + n]? with
  | some t => t.kind
  | none => .eof

def kindsAhead (c : Cursor) : List TokenKind :=
  ((c.stream.tokens.extract (c.index + 1) c.stream.tokens.size).toList).map Token.kind

/-- The number of tokens before the closing one. -/
def remaining (c : Cursor) : Nat := c.stream.tokens.size - c.index

/-- The place behind the current token; the closing token is never passed. -/
def next (c : Cursor) : Cursor :=
  if c.index < c.stream.tokens.size then { c with index := c.index + 1 } else c

/-- Where the current token starts. -/
def position (c : Cursor) : Position := c.current.span.start

/-- Where the token before the place ends, or the start of the file. -/
def lastEnd (c : Cursor) : Position :=
  match c.index with
  | 0 => .origin c.file
  | i + 1 =>
    match c.stream.get? i with
    | some t => t.span.stop
    | none => .origin c.file

def spanFrom (c : Cursor) (start : Position) : Span := ⟨start, c.lastEnd⟩

/-- The finding that the current token does not fit. -/
def unexpected (c : Cursor) : Diagnostic := .atPosition (.unexpected c.current.value) c.position

/-- The finding that the current token does not fit, with what was expected. -/
def unexpectedBecause (c : Cursor) (message : String) : Diagnostic :=
  .atPosition (.unexpectedBecause c.current.value message) c.position

end Cursor

inductive Failure where
  | rejected (d : Diagnostic)
  | exhausted
  deriving DecidableEq, Repr

abbrev Parser := EStateM Failure Cursor

namespace Parser

def reject {α : Type} (d : Diagnostic) : Parser α := throw (.rejected d)

def unexpected {α : Type} : Parser α := do reject (← get).unexpected

/-- Fails at the current token, saying what was expected. -/
def unexpectedBecause {α : Type} (message : String) : Parser α := do
  reject ((← get).unexpectedBecause message)

def kind : Parser TokenKind := do return (← get).kind

/-- Moves past the current token, and gives it. -/
def advance : Parser Token := do
  let c ← get
  set c.next
  return c.current

/-- Moves past a token of the given kind, or fails with a finding. -/
def expectOr (k : TokenKind) (d : Cursor → Diagnostic) : Parser Token := do
  let c ← get
  if c.kind = k then advance else reject (d c)

def expect (k : TokenKind) : Parser Token := expectOr k Cursor.unexpected

def freshId : Parser NodeId := do
  let c ← get
  set { c with nextId := c.nextId + 1 }
  return ⟨c.nextId⟩

def nodeAt (span : Span) : Parser Node := do return ⟨← freshId, span⟩

/-- A new node from a position to the end of the last token that was read. -/
def nodeFrom (start : Position) : Parser Node := do nodeAt ((← get).spanFrom start)

def moveTo (index : Nat) : Parser Unit := modify fun c => { c with index }

def allowSetSuffix (allow : Bool) : Parser Unit := modify fun c => { c with setSuffix := allow }

/-- Runs a parser without set suffixes, and then allows what was allowed before. -/
def withoutSetSuffix {α : Type} (p : Parser α) : Parser α := fun c =>
  let restore (c' : Cursor) : Cursor := { c' with setSuffix := c.setSuffix }
  match p { c with setSuffix := false } with
  | .ok a c' => .ok a (restore c')
  | .error e c' => .error e (restore c')

/-- Repeats a step, at most the given number of times, until it gives a result on the right. -/
def repeatWithin {σ α : Type} (step : σ → Parser (σ ⊕ α)) : Nat → σ → Parser α
  | 0, _ => throw .exhausted
  | n + 1, s => do
    match ← step s with
    | .inl s' => repeatWithin step n s'
    | .inr a => return a

/-- Repeats a step until it gives a result on the right. Steps that go on each move past a token, so
there are no more of them than tokens. -/
def iterate {σ α : Type} (step : σ → Parser (σ ⊕ α)) (s : σ) : Parser α := do
  repeatWithin step ((← get).remaining + 1) s

/-- The end of a list at its closing token, or one more item. -/
def commaStep {α : Type} (close : TokenKind) (item : Parser α) (items : List α) :
    Parser (List α ⊕ List α) := do
  if (← kind) = close then return .inr items.reverse
  let a ← item
  let k ← kind
  if k = .comma then discard advance
  else if k ≠ close then unexpected
  return .inl (a :: items)

/-- Items up to a closing token, which is passed. A comma stands between items and may stand behind
the last. -/
def commaSeparated {α : Type} (close : TokenKind) (item : Parser α) : Parser (List α) := do
  let items ← iterate (commaStep close item) []
  discard (expect close)
  return items

end Parser

end ScriptAnalysis
