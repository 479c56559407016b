import ScriptAnalysis.Diagnostic.Basic
import ScriptAnalysis.Text.Line
import ScriptAnalysis.Token.Lexeme

/-! The tokens of a text, and a reader that steps through a text by bytes. -/
namespace ScriptAnalysis

namespace Token

/-- The tokens among lexemes that follow each other from a byte index on, and the index behind
them. -/
def place (file : String) : (index : Nat) → List Lexeme → List Token × Nat
  | index, [] => ([], index)
  | index, lexeme :: others =>
    let stop := index + Text.bytes lexeme.text
    let (tokens, last) := place file stop others
    match lexeme.meaning with
    | .skipped => (tokens, last)
    | .token kind value =>
      (⟨kind, value, ⟨.ofIndex index file, .ofIndex stop file⟩⟩ :: tokens, last)

def unnamedFile : String := "shell"

/-- The tokens of a text, closed by the token of its end. -/
def tokenize (source : String) (file : String) : Except Diagnostic (List Token) :=
  let (lexemes, unread) := Lexeme.split source.toList
  let (tokens, stop) := place file 0 lexemes
  match unread with
  | [] => .ok (tokens ++ [endAt (.ofIndex stop file)])
  | c :: _ => .error (.atPosition (.unrecognised (String.singleton c)) (.ofIndex stop file))

end Token

structure Reader where
  text : List Char
  file : String
  index : Nat := 0

namespace Reader

/-- Moves on by a number of bytes, unless the index leaves 64 bits. -/
def advance? (r : Reader) (n : Nat) : Option Reader :=
  if r.index + n < UInt64.size then some { r with index := r.index + n } else none

def atEnd (r : Reader) : Bool := Text.bytes r.text ≤ r.index

/-- The text from the place on, if a character starts there or the text ends there. -/
def remainder? (r : Reader) : Option (List Char) := Text.dropBytes? r.index r.text

/-- The character at the place, or the null character at the end. -/
def char? (r : Reader) : Option Char := r.remainder?.map fun rest => rest.head?.getD '\x00'

/-- The span of the next bytes, unless their end leaves 64 bits. -/
def spanOf? (r : Reader) (n : Nat) : Option Span :=
  if r.index + n < UInt64.size then some ⟨.ofIndex r.index r.file, .ofIndex (r.index + n) r.file⟩
  else none

end Reader

end ScriptAnalysis
