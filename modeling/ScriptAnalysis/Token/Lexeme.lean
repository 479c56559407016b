import ScriptAnalysis.Number.Numeral
import ScriptAnalysis.Text.Basic
import ScriptAnalysis.Token.Basic

/-!
Lexemes: the stretches that a text falls into. A lexeme is a token or is skipped; white space,
semicolons and comments are skipped. `Lexeme.split` cuts a text into lexemes up to the first
character that starts none.
-/
namespace ScriptAnalysis

inductive Meaning where
  | skipped
  | token (kind : TokenKind) (value : String)
  deriving DecidableEq, Repr

structure Lexeme where
  text : List Char
  meaning : Meaning
  deriving DecidableEq, Repr

namespace Lexeme

def isWordStart (c : Char) : Bool := ('a' ≤ c && c ≤ 'z') || ('A' ≤ c && c ≤ 'Z') || c = '_'

def isWordChar (c : Char) : Bool := isWordStart c || Numeral.isDigit c

def isSeparator (c : Char) : Bool := Text.isBlank c || c = ';'

def numeralText (text : List Char) : List Char :=
  let whole := text.takeWhile Numeral.isDigit
  match text.dropWhile Numeral.isDigit with
  | '.' :: rest =>
    let fraction := rest.takeWhile Numeral.isDigit
    if fraction.isEmpty then whole else whole ++ '.' :: fraction
  | _ => whole

/-- The inside of a string literal whose opening quote has been read. A backslash takes the next
character along, which may not be a line feed; `none` if the literal is never closed. -/
def stringBody? : List Char → Option (List Char)
  | [] => none
  | '"' :: _ => some []
  | '\\' :: c :: rest => if c = '\n' then none else (stringBody? rest).map ('\\' :: c :: ·)
  | c :: rest => if c = '\\' then none else (stringBody? rest).map (c :: ·)

/-- The text that the inside of a string literal stands for. A backslash before any other character
than the five below stands for itself. -/
def unescape : List Char → List Char
  | '\\' :: 'n' :: rest => '\n' :: unescape rest
  | '\\' :: 't' :: rest => '\t' :: unescape rest
  | '\\' :: 'r' :: rest => '\r' :: unescape rest
  | '\\' :: '\\' :: rest => '\\' :: unescape rest
  | '\\' :: '"' :: rest => '"' :: unescape rest
  | c :: rest => c :: unescape rest
  | [] => []

/-- The rest of a block comment whose opening has been read, up to its first closing. -/
def commentBody? : List Char → Option (List Char)
  | [] => none
  | '*' :: '/' :: _ => some ['*', '/']
  | c :: rest => (commentBody? rest).map (c :: ·)

def comment? : List Char → Option (List Char)
  | '/' :: '/' :: rest => some ('/' :: '/' :: rest.takeWhile (· != '\n'))
  | '/' :: '*' :: rest => (commentBody? rest).map ('/' :: '*' :: ·)
  | _ => none

def sign? (text : List Char) : Option Lexeme :=
  (TokenKind.signs.find? fun (_, spelling) => spelling.toList.isPrefixOf text).map
    fun (kind, spelling) => ⟨spelling.toList, .token kind spelling⟩

def first? : List Char → Option Lexeme
  | [] => none
  | c :: rest =>
    if isWordStart c then
      let word := c :: rest.takeWhile isWordChar
      some ⟨word, .token (.ofWord (String.ofList word)) (String.ofList word)⟩
    else if Numeral.isDigit c then
      let numeral := numeralText (c :: rest)
      some ⟨numeral, .token .number (String.ofList numeral)⟩
    else if isSeparator c then some ⟨c :: rest.takeWhile isSeparator, .skipped⟩
    else if c = '"' then
      (stringBody? rest).map fun body =>
        ⟨'"' :: body ++ ['"'], .token .string (String.ofList (unescape body))⟩
    else
      match comment? (c :: rest) with
      | some text => some ⟨text, .skipped⟩
      | none => sign? (c :: rest)

/-- The lexemes of a text and the rest that starts with none. The first `inside` characters belong
to a lexeme that has been read. -/
def splitFrom : (inside : Nat) → List Char → List Lexeme × List Char
  | _, [] => ([], [])
  | inside + 1, _ :: rest => splitFrom inside rest
  | 0, c :: rest =>
    match first? (c :: rest) with
    | none => ([], c :: rest)
    | some lexeme =>
      let (others, unread) := splitFrom (lexeme.text.length - 1) rest
      (lexeme :: others, unread)

def split (text : List Char) : List Lexeme × List Char := splitFrom 0 text

end Lexeme

end ScriptAnalysis
