import ScriptAnalysis.Basic

/-! Tokens and their kinds. -/
namespace ScriptAnalysis

inductive TokenKind where
  | eof | number | string | identifier
  | openBracket | closeBracket | openCurly | closeCurly | openParen | closeParen
  | assignment | equals | not | notEquals
  | less | lessEquals | greater | greaterEquals
  | or | and
  | dot | dollar | colon | comma
  | plus | dash | slash | star | percent
  | var | fn | template | struct | cls | fromWord | create | pub | pvt | ifWord | elseWord | whileWord
  | returnWord
  deriving DecidableEq, Repr

namespace TokenKind

def name : TokenKind → String
  | .eof => "EOF"
  | .number => "Number"
  | .string => "String"
  | .identifier => "Identifier"
  | .openBracket => "OpenBracket"
  | .closeBracket => "CloseBracket"
  | .openCurly => "OpenCurly"
  | .closeCurly => "CloseCurly"
  | .openParen => "OpenParen"
  | .closeParen => "CloseParen"
  | .assignment => "Assignment"
  | .equals => "Equals"
  | .not => "Not"
  | .notEquals => "NotEquals"
  | .less => "Less"
  | .lessEquals => "LessEquals"
  | .greater => "Greater"
  | .greaterEquals => "GreaterEquals"
  | .or => "Or"
  | .and => "And"
  | .dot => "Dot"
  | .dollar => "Dollar"
  | .colon => "Colon"
  | .comma => "Comma"
  | .plus => "Plus"
  | .dash => "Dash"
  | .slash => "Slash"
  | .star => "Star"
  | .percent => "Percent"
  | .var => "Var"
  | .fn => "Fun"
  | .template => "Template"
  | .struct => "Struct"
  | .cls => "Class"
  | .fromWord => "From"
  | .create => "Create"
  | .pub => "Pub"
  | .pvt => "Pvt"
  | .ifWord => "If"
  | .elseWord => "Else"
  | .whileWord => "While"
  | .returnWord => "Return"

def keywords : List (TokenKind × String) :=
  [(.var, "var"), (.fn, "fun"), (.template, "template"), (.struct, "struct"), (.cls, "class"),
    (.fromWord, "from"), (.create, "create"), (.pub, "pub"), (.pvt, "pvt"), (.ifWord, "if"),
    (.elseWord, "else"), (.whileWord, "while"), (.returnWord, "return")]

/-- The kinds with one spelling that is a sign. A longer sign stands before those that start it. -/
def signs : List (TokenKind × String) :=
  [(.openBracket, "["), (.closeBracket, "]"), (.openCurly, "\x7b"), (.closeCurly, "\x7d"),
    (.openParen, "("), (.closeParen, ")"), (.equals, "=="), (.notEquals, "!="), (.not, "!"),
    (.assignment, "="), (.lessEquals, "<="), (.less, "<"), (.greaterEquals, ">="), (.greater, ">"),
    (.or, "||"), (.and, "&&"), (.dot, "."), (.dollar, "$"), (.colon, ":"), (.comma, ","),
    (.plus, "+"), (.dash, "-"), (.slash, "/"), (.star, "*"), (.percent, "%")]

def ofWord (word : String) : TokenKind :=
  match keywords.find? (·.2 = word) with
  | some (kind, _) => kind
  | none => .identifier

end TokenKind

structure Token where
  kind : TokenKind
  value : String
  span : Span
  deriving DecidableEq, Repr

namespace Token

/-- The token as shown to a reader: the kind, and the value where the kind does not settle it. -/
def label (t : Token) : String :=
  match t.kind with
  | .string | .identifier | .number => t.kind.name ++ " (" ++ t.value ++ ")"
  | kind => kind.name

def endAt (p : Position) : Token := ⟨.eof, "EOF", .empty p⟩

end Token

end ScriptAnalysis
