import Mathlib.Data.List.TakeWhile
import ScriptAnalysis.Grammar.Expr

/-!
The words that a parser sees: tokens without their places, up to the end of the text. A kind with one
spelling settles the text of its word. All that a parser asks of its place is a function of the words
from there on.
-/
namespace ScriptAnalysis

def TokenKind.spelling? (k : TokenKind) : Option String :=
  ((TokenKind.keywords ++ TokenKind.signs).find? (·.1 = k)).map Prod.snd

structure Word where
  kind : TokenKind
  text : String
  deriving DecidableEq, Repr

namespace Word

def mark (k : TokenKind) : Word := ⟨k, k.spelling?.getD ""⟩

def firstKind : List Word → TokenKind
  | [] => .eof
  | w :: _ => w.kind

@[simp] theorem kind_mark (k : TokenKind) : (mark k).kind = k := rfl

@[simp] theorem firstKind_nil : firstKind [] = .eof := rfl

@[simp] theorem firstKind_cons (w : Word) (ws : List Word) : firstKind (w :: ws) = w.kind := rfl

end Word

def Token.word (t : Token) : Word := ⟨t.kind, t.kind.spelling?.getD t.value⟩

@[simp] theorem Token.kind_word (t : Token) : t.word.kind = t.kind := rfl

theorem Token.word_eq_mark {t : Token} (h : t.kind.spelling?.isSome) : t.word = .mark t.kind := by
  obtain ⟨s, hs⟩ := Option.isSome_iff_exists.1 h
  simp [Token.word, Word.mark, hs]

theorem Token.word_eq {t : Token} (h : t.kind.spelling? = none) : t.word = ⟨t.kind, t.value⟩ := by
  simp [Token.word, h]

theorem Token.eq_of_word {t : Token} {k : TokenKind} {text : String} (h : t.word = ⟨k, text⟩)
    (hk : k.spelling? = none) : t.kind = k ∧ t.value = text := by
  have hkind : t.kind = k := congrArg Word.kind h
  subst hkind
  rw [Token.word_eq hk] at h
  exact ⟨rfl, congrArg Word.text h⟩

/-- The words of tokens up to the first that ends the text. -/
def Token.words (tokens : List Token) : List Word :=
  (tokens.takeWhile (·.kind ≠ .eof)).map Token.word

@[simp] theorem Token.words_nil : Token.words [] = [] := rfl

theorem Token.words_cons (t : Token) (tokens : List Token) :
    Token.words (t :: tokens) = if t.kind = .eof then [] else t.word :: Token.words tokens := by
  by_cases h : t.kind = .eof <;> simp [Token.words, h]

theorem Token.words_append_end {tokens : List Token} {t : Token} (h : t.kind = .eof) :
    Token.words (tokens ++ [t]) = Token.words tokens := by
  induction tokens with
  | nil => simp [Token.words_cons, h]
  | cons u tokens ih => rw [List.cons_append, Token.words_cons, Token.words_cons, ih]

theorem Token.firstKind_words (tokens : List Token) :
    Word.firstKind (Token.words tokens) = (tokens.head?.map Token.kind).getD .eof := by
  cases tokens with
  | nil => rfl
  | cons t tokens => by_cases h : t.kind = .eof <;> simp [Token.words_cons, h]

inductive TypeArgumentStage where
  | start | name | suffix | insideBrackets | insideBraces | close
  deriving DecidableEq, Repr

namespace TypeArgumentStage

def next? : TypeArgumentStage → TokenKind → Option TypeArgumentStage
  | .start, .identifier | .name, .identifier => some .suffix
  | .start, .greater | .suffix, .greater => some .close
  | .suffix, .openBracket => some .insideBrackets
  | .suffix, .openCurly => some .insideBraces
  | .suffix, .comma => some .name
  | .insideBrackets, .closeBracket | .insideBraces, .closeCurly => some .suffix
  | _, _ => none

/-- Whether kinds of tokens go on from a stage up to `>` and a parenthesis. -/
def accepts : TypeArgumentStage → List TokenKind → Bool
  | _, [] => false
  | .close, k :: _ => k = .openParen
  | stage, k :: rest =>
    match stage.next? k with
    | some stage' => stage'.accepts rest
    | none => false

theorem accepts_close (kinds : List TokenKind) :
    accepts .close kinds = decide (kinds.head? = some .openParen) := by
  cases kinds <;> simp [accepts]

theorem accepts_cons {stage : TypeArgumentStage} (h : stage ≠ .close) (k : TokenKind)
    (rest : List TokenKind) :
    accepts stage (k :: rest) = ((stage.next? k).map (accepts · rest)).getD false := by
  rw [accepts]
  · cases stage.next? k <;> rfl
  · exact h

theorem accepts_insideBrackets {kinds : List TokenKind}
    (h : ∀ rest, kinds ≠ .closeBracket :: rest) : accepts .insideBrackets kinds = false := by
  cases kinds with
  | nil => rfl
  | cons k rest =>
    cases k with
    | closeBracket => exact absurd rfl (h rest)
    | _ => rfl

theorem accepts_insideBraces {kinds : List TokenKind}
    (h : ∀ rest, kinds ≠ .closeCurly :: rest) : accepts .insideBraces kinds = false := by
  cases kinds with
  | nil => rfl
  | cons k rest =>
    cases k with
    | closeCurly => exact absurd rfl (h rest)
    | _ => rfl

theorem closes_eq_accepts (state : TypeArgumentState) (kinds : List TokenKind) :
    state.closes kinds =
      accepts (match state with | .name => .name | .suffix => .suffix) kinds := by
  fun_induction TypeArgumentState.closes state kinds with
  | case1 rest ih => rw [ih]; rfl
  | case2 rest ih => rw [ih]; rfl
  | case3 rest ih => rw [ih]; rfl
  | case4 rest ih => rw [ih]; rfl
  | case5 rest => exact (accepts_close rest).symm
  | case6 kinds state hname hbrackets hbraces hcomma hgreater =>
    cases kinds with
    | nil => cases state <;> rfl
    | cons k rest =>
      rw [accepts_cons (by cases state <;> simp)]
      cases state with
      | name =>
        cases k with
        | identifier => exact absurd rfl (hname rest rfl)
        | _ => rfl
      | suffix =>
        cases k with
        | openBracket =>
          refine (accepts_insideBrackets ?_).symm
          rintro tail rfl
          exact hbrackets tail rfl rfl
        | openCurly =>
          refine (accepts_insideBraces ?_).symm
          rintro tail rfl
          exact hbraces tail rfl rfl
        | comma => exact absurd rfl (hcomma rest rfl)
        | greater => exact absurd rfl (hgreater rest rfl)
        | _ => rfl

/-- The lookahead behind `<`, one kind at a time. -/
theorem typeArgumentsAhead_eq_accepts (kinds : List TokenKind) :
    typeArgumentsAhead kinds = accepts .start kinds := by
  fun_cases typeArgumentsAhead kinds with
  | case1 rest => exact (accepts_close rest).symm
  | case2 kinds hgreater =>
    rw [closes_eq_accepts]
    cases kinds with
    | nil => rfl
    | cons k rest =>
      cases k with
      | greater => exact absurd rfl (hgreater rest)
      | _ => rfl

end TypeArgumentStage

open TypeArgumentStage in
/-- The lookahead never passes the end of the text. -/
theorem TypeArgumentStage.accepts_words (stage : TypeArgumentStage) (tokens : List Token) :
    stage.accepts ((Token.words tokens).map Word.kind) = stage.accepts (tokens.map Token.kind) := by
  induction tokens generalizing stage with
  | nil => rfl
  | cons t tokens ih =>
    by_cases hend : t.kind = .eof
    · rw [Token.words_cons, if_pos hend, List.map_cons, hend]
      cases stage <;> rfl
    · rw [Token.words_cons, if_neg hend, List.map_cons, List.map_cons, Token.kind_word]
      by_cases hclose : stage = .close
      · rw [hclose, accepts_close, accepts_close]
        rfl
      · simp only [accepts_cons hclose, ih]

namespace Cursor

variable {c : Cursor} {w : Word} {ws : List Word}

def words (c : Cursor) : List Word := Token.words (c.stream.tokens.toList.drop c.index)

theorem kind_eq (c : Cursor) : c.kind = Word.firstKind c.words := by
  rw [words, Token.firstKind_words, List.head?_drop, kind, current, Array.getElem?_toList]
  cases c.stream.tokens[c.index]? with
  | none => exact c.stream.last_kind
  | some t => rfl

/-- The current token is the first word, and the others follow it. -/
theorem words_of_kind (h : c.kind ≠ .eof) : c.words = c.current.word :: c.next.words := by
  have hlt : c.index < c.stream.tokens.size := by
    by_contra hge
    apply h
    rw [kind, current, Array.getElem?_eq_none (by omega)]
    exact c.stream.last_kind
  have hcurrent : c.current = c.stream.tokens[c.index] := by simp [current, hlt]
  have hnext : c.next.words = Token.words (c.stream.tokens.toList.drop (c.index + 1)) := by
    simp [next, hlt, words]
  rw [words, List.drop_eq_getElem_cons (by simpa using hlt), Token.words_cons, hnext,
    Array.getElem_toList, ← hcurrent]
  exact if_neg h

theorem words_eq_nil (h : c.kind = .eof) : c.words = [] := by
  rw [kind_eq, words] at h
  rw [words]
  cases hdrop : c.stream.tokens.toList.drop c.index with
  | nil => rfl
  | cons t rest =>
    rw [hdrop, Token.firstKind_words] at h
    rw [Token.words_cons]
    exact if_pos h

theorem tail_eq (h : c.words = w :: ws) :
    ws = Token.words (c.stream.tokens.toList.drop (c.index + 1)) := by
  rw [words] at h
  rw [← List.tail_drop]
  cases hdrop : c.stream.tokens.toList.drop c.index with
  | nil => simp [hdrop] at h
  | cons t rest =>
    rw [hdrop, Token.words_cons] at h
    by_cases hend : t.kind = .eof <;> simp_all

theorem peek_one (h : c.words = w :: ws) : c.peek 1 = Word.firstKind ws := by
  rw [tail_eq h, Token.firstKind_words, List.head?_drop, Array.getElem?_toList, peek]
  cases c.stream.tokens[c.index + 1]? <;> rfl

theorem typeArgumentsAhead_kindsAhead (h : c.words = w :: ws) :
    typeArgumentsAhead c.kindsAhead = typeArgumentsAhead (ws.map Word.kind) := by
  rw [TypeArgumentStage.typeArgumentsAhead_eq_accepts,
    TypeArgumentStage.typeArgumentsAhead_eq_accepts, tail_eq h, TypeArgumentStage.accepts_words,
    kindsAhead]
  simp [List.take_of_length_le]

theorem length_words_le (c : Cursor) : c.words.length ≤ c.remaining := by
  have hle := (List.takeWhile_prefix (fun t : Token => decide (t.kind ≠ .eof))
    (l := c.stream.tokens.toList.drop c.index)).length_le
  simpa [words, Token.words, remaining] using hle

theorem words_start (tokens : List Token) (file : String) :
    (start tokens file).words = Token.words tokens := by
  simp only [start, words, TokenStream.ofList, List.drop_zero]
  cases hlast : tokens.getLast? with
  | none =>
    obtain rfl := List.getLast?_eq_none_iff.1 hlast
    rfl
  | some t =>
    by_cases hend : t.kind = .eof
    · obtain ⟨init, rfl⟩ := List.getLast?_eq_some_iff.1 hlast
      simp [hend, Token.words_append_end]
    · simp [hend]

def ofWords (ws : List Word) : Cursor := start (ws.map fun w => ⟨w.kind, w.text, .null⟩) "main"

end Cursor

end ScriptAnalysis
