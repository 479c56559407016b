import ScriptAnalysis.Proofs.Token.Lexeme
import ScriptAnalysis.Token.Reader

/-!
String literals of texts. A text is written as a literal by escaping the characters that a literal gives
another meaning or another form; that literal is read as one token, whose value is the text again, and
nothing behind it changes that (`Token.tokenize_literal`).
-/
namespace ScriptAnalysis

namespace Lexeme

def escape (c : Char) : List Char :=
  match c with
  | '\\' => ['\\', '\\']
  | '"' => ['\\', '"']
  | '\n' => ['\\', 'n']
  | '\r' => ['\\', 'r']
  | '\t' => ['\\', 't']
  | c => [c]

def literal (text : List Char) : List Char := '"' :: text.flatMap escape ++ ['"']

theorem quoted_escape (c : Char) {body value : List Char} (h : Quoted body value) :
    Quoted (escape c ++ body) (c :: value) := by
  unfold escape
  split
  · exact .escaped (by decide) h
  · exact .escaped (by decide) h
  · exact .escaped (by decide) h
  · exact .escaped (by decide) h
  · exact .escaped (by decide) h
  · next hslash hquote _ _ _ => exact .plain hquote hslash h

theorem quoted_flatMap_escape (text : List Char) : Quoted (text.flatMap escape) text := by
  induction text with
  | nil => exact .nil
  | cons c text ih => exact quoted_escape c ih

theorem stands_literal (text rest : List Char) :
    Stands ⟨literal text, .token .string (.ofList text)⟩ rest :=
  Written.string (quoted_flatMap_escape text)

end Lexeme

namespace Token

/-- The token of the literal of a text at the start of a file. -/
def ofLiteral (s file : String) : Token :=
  ⟨.string, s, ⟨.ofIndex 0 file, .ofIndex (Text.bytes (Lexeme.literal s.toList)) file⟩⟩

/-- The literal of a text is read as one string token over all of it, with the text as its value, and
then the end; in front of any other text that can be read it is still the first token. -/
theorem tokenize_literal (s file : String) :
    tokenize (.ofList (Lexeme.literal s.toList)) file =
      .ok [ofLiteral s file, endAt (.ofIndex (Text.bytes (Lexeme.literal s.toList)) file)] ∧
    (∀ r tokens, tokenize (.ofList (Lexeme.literal s.toList) ++ r) file = .ok tokens →
      tokens.head? = some (ofLiteral s file)) ∧
    (Text.bytes (Lexeme.literal s.toList) < UInt32.size →
      (ofLiteral s file).span = ⟨⟨0, file⟩, ⟨Text.bytes (Lexeme.literal s.toList), file⟩⟩) := by
  have hsplit (r : List Char) := (Lexeme.stands_literal s.toList r).split
  refine ⟨?_, fun r tokens htokens => ?_, fun hbytes => ?_⟩
  · have halone := hsplit []
    rw [List.append_nil] at halone
    rw [tokenize, String.toList_ofList, halone]
    simp [place, Lexeme.split, Lexeme.splitFrom, ofLiteral]
  · rw [tokenize, String.toList_append, String.toList_ofList, hsplit] at htokens
    generalize Lexeme.split r.toList = cut at htokens
    obtain ⟨lexemes, _ | ⟨c, unread⟩⟩ := cut
    · obtain rfl := Except.ok.inj htokens
      simp [ofLiteral]
    · cases htokens
  · simp only [ofLiteral, Position.ofIndex, Nat.mod_eq_of_lt hbytes, Nat.zero_mod]

end Token

end ScriptAnalysis
