import ScriptAnalysis.Proofs.Grammar.RoundTrip
import ScriptAnalysis.Proofs.Token.Lossless

/-!
The slices of a text that its tokens are written as can be put behind each other with a blank in
between, and are read as the same tokens: `Token.tokenize_respaced`. A blank ends every lexeme and
extends none.
-/
namespace ScriptAnalysis

open Lexeme (Ends Written Skipped Cuts Stands Detached isSeparator isWordChar isJoining)

/-- What a token says, apart from its place. -/
def Token.reading (t : Token) : TokenKind × String := (t.kind, t.value)

namespace Lexeme

variable {text rest rest' : List Char} {kind : TokenKind} {value : String}

def reading? (l : Lexeme) : Option (TokenKind × String) :=
  match l.meaning with
  | .skipped => none
  | .token kind value => some (kind, value)

def slice? (l : Lexeme) : Option String :=
  match l.meaning with
  | .skipped => none
  | .token _ _ => some (.ofList l.text)

def Apart (rest : List Char) : Prop := ∀ c ∈ rest.head?, isSeparator c

theorem apart_nil : Apart [] := by simp [Apart]

theorem apart_blank (rest : List Char) : Apart (' ' :: rest) := by
  intro c hc
  obtain rfl : ' ' = c := by simpa using hc
  decide

theorem Apart.detached (h : Apart rest) : Detached rest where
  word c hc := isWordChar_of_isSeparator (h c hc)
  point tail heq := by
    have hpoint := h '.' (by simp [heq])
    exact absurd hpoint (by decide)

theorem Apart.ends_isJoining (h : Apart rest) : Ends isJoining rest := by
  intro c hc
  have hseparator := h c hc
  by_contra hjoining
  simp only [isJoining, Bool.not_eq_false, Bool.or_eq_true, decide_eq_true_eq] at hjoining
  rcases hjoining with (rfl | rfl) | rfl <;> revert hseparator <;> decide

/-- What is written as a token stays one in front of a separator and at the end of a text. -/
theorem Written.apart (h : Written kind value text rest) (hrest : Apart rest') :
    Written kind value text rest' := by
  cases h with
  | word hstart htail => exact .word hstart htail hrest.detached.word
  | integer hne hdigits => exact .integer hne hdigits hrest.detached.ends_isDigit hrest.detached.point
  | decimal hne hdigits hne' hfraction =>
    exact .decimal hne hdigits hne' hfraction hrest.detached.ends_isDigit
  | string hbody => exact .string hbody
  | sign hmem => exact written_sign hmem fun _ => hrest.ends_isJoining

theorem Written.ends_isSeparator (h : Written kind value text rest) (more : List Char) :
    Ends isSeparator (text ++ more) := by
  have hword : ∀ c, isWordChar c → isSeparator c = false := by
    intro c hc
    by_contra hseparator
    rw [isWordChar_of_isSeparator (by simpa using hseparator)] at hc
    cases hc
  have hdigit : ∀ c, Numeral.isDigit c → isSeparator c = false :=
    fun c hc => hword c (by simp [isWordChar, hc])
  cases h with
  | word hstart => exact ends_cons.2 (hword _ (by simp [isWordChar, hstart]))
  | integer hne hdigits =>
    obtain ⟨c, tail, rfl⟩ := List.exists_cons_of_ne_nil hne
    exact ends_cons.2 (hdigit c (hdigits c List.mem_cons_self))
  | decimal hne hdigits =>
    obtain ⟨c, tail, rfl⟩ := List.exists_cons_of_ne_nil hne
    exact ends_cons.2 (hdigit c (hdigits c List.mem_cons_self))
  | string => exact ends_cons.2 (by decide)
  | sign hmem =>
    obtain ⟨c, hc, -, -, hseparator, -⟩ := head_signs _ hmem
    obtain ⟨tail, htail⟩ := List.head?_eq_some_iff.1 hc
    simp only at htail
    rw [htail]
    exact ends_cons.2 hseparator

theorem filterMap_reading?_eq_nil {lexemes : List Lexeme} (h : lexemes.filterMap slice? = []) :
    lexemes.filterMap reading? = [] := by
  rw [List.filterMap_eq_nil_iff] at h ⊢
  intro l hl
  have hnone := h l hl
  unfold slice? at hnone
  unfold reading?
  cases hmeaning : l.meaning <;> simp_all

theorem intercalate_cons {texts : List (List Char)} (h : texts ≠ []) (text : List Char) :
    [' '].intercalate (text :: texts) = text ++ ' ' :: [' '].intercalate texts := by
  obtain ⟨next, others, rfl⟩ := List.exists_cons_of_ne_nil h
  simp [List.intercalate]

/-- The tokens that a text falls into, joined by blanks, are a text that falls into them. The end of
the text may be joined to them as an empty slice. -/
theorem Cuts.respaced {lexemes : List Lexeme} (h : Cuts text lexemes rest) {ends : List (List Char)}
    (hends : ends = [] ∨ ends = [[]]) :
    ∃ joined lexemes', joined =
        [' '].intercalate ((lexemes.filterMap slice?).map String.toList ++ ends) ∧
      Cuts joined lexemes' [] ∧ Ends isSeparator joined ∧
      lexemes'.filterMap reading? = lexemes.filterMap reading? := by
  induction h with
  | nil =>
    refine ⟨[], [], ?_, .nil, by simp [Ends], rfl⟩
    obtain rfl | rfl := hends <;> rfl
  | @cons l lexemes text rest hstands _ ih =>
    obtain ⟨joined, lexemes', hjoined, hcuts, hblank, hreadings⟩ := ih
    obtain ⟨word, _ | ⟨kind, value⟩⟩ := l
    · exact ⟨joined, lexemes', hjoined, hcuts, hblank, hreadings⟩
    · have hwritten : Written kind value word text := hstands
      by_cases hlast : (lexemes.filterMap slice?).map String.toList ++ ends = []
      · -- the last slice has no blank behind it
        have hnone : lexemes.filterMap reading? = [] :=
          filterMap_reading?_eq_nil (List.map_eq_nil_iff.1 (List.append_eq_nil_iff.1 hlast).1)
        refine ⟨word, [⟨word, .token kind value⟩], ?_, ?_, ?_, ?_⟩
        · simp [slice?, hlast, List.intercalate]
        · have hstands' : Stands ⟨word, .token kind value⟩ [] := hwritten.apart apart_nil
          simpa using Cuts.cons hstands' .nil
        · simpa using hwritten.ends_isSeparator []
        · rw [List.filterMap_cons, List.filterMap_cons, hnone]
          rfl
      · refine ⟨word ++ ' ' :: joined, ⟨word, .token kind value⟩ :: ⟨[' '], .skipped⟩ :: lexemes', ?_,
          ?_, hwritten.ends_isSeparator _, ?_⟩
        · rw [hjoined, ← intercalate_cons hlast]
          simp [slice?]
        · have hstands' : Stands ⟨word, .token kind value⟩ (' ' :: joined) :=
            hwritten.apart (apart_blank joined)
          have hskipped : Stands ⟨[' '], .skipped⟩ joined :=
            Skipped.blank (by simp) (List.all_eq_true.1 (by decide)) hblank
          exact .cons hstands' (.cons hskipped hcuts)
        · exact congrArg ((kind, value) :: ·) hreadings

end Lexeme

namespace Token

/-- The slices of a text that its tokens are written as; that of the closing token is empty. -/
def slices (source : String) : List String :=
  (Lexeme.split source.toList).1.filterMap Lexeme.slice? ++ [""]

/-- The slice stands in the text where the token's span says. -/
def IsSlice (source : List Char) (file : String) (t : Token) (slice : String) : Prop :=
  ∃ before after, source = before ++ slice.toList ++ after ∧
    t.span = ⟨.ofIndex (Text.bytes before) file, .ofIndex (Text.bytes (before ++ slice.toList)) file⟩

variable {source text : List Char} {lexemes : List Lexeme}

theorem map_reading_place (file : String) (index : Nat) (lexemes : List Lexeme) :
    (place file index lexemes).1.map reading = lexemes.filterMap Lexeme.reading? := by
  induction lexemes generalizing index with
  | nil => rfl
  | cons l lexemes ih =>
    obtain ⟨word, _ | ⟨kind, value⟩⟩ := l
    · exact ih _
    · exact congrArg _ (ih _)

theorem isSlice_place (file : String) (before : List Char) (h : Cuts text lexemes [])
    (hsource : source = before ++ text) :
    List.Forall₂ (IsSlice source file) ((place file (Text.bytes before) lexemes).1)
      (lexemes.filterMap Lexeme.slice?) := by
  generalize hrest : ([] : List Char) = rest at h
  induction h generalizing before with
  | nil => exact .nil
  | @cons l lexemes text rest hstands _ ih =>
    have htail := ih (before ++ l.text) (by simpa using hsource) hrest
    rw [Text.bytes_append] at htail
    obtain ⟨word, _ | ⟨kind, value⟩⟩ := l
    · exact htail
    · refine .cons ⟨before, text, ?_, ?_⟩ htail
      · simpa using hsource
      · simp

/-- The slices of the tokens of a text, joined by single blanks, with the empty slice of the closing
token or without it, are read as tokens of the same kinds and values in the same order. -/
structure Respaced (source file file' : String) (tokens : List Token) : Prop where
  slices : List.Forall₂ (IsSlice source.toList file) tokens (slices source)
  read : ∀ texts, texts = Token.slices source ∨ texts = (Token.slices source).dropLast →
    ∃ tokens', tokenize (" ".intercalate texts) file' = .ok tokens' ∧
      tokens'.map reading = tokens.map reading

theorem tokenize_respaced {source file : String} {tokens : List Token}
    (h : tokenize source file = .ok tokens) (file' : String) : Respaced source file file' tokens := by
  obtain ⟨lexemes, hcuts, rfl⟩ := tokenize_eq_ok_iff.1 h
  have hsplit : Lexeme.split source.toList = (lexemes, []) := Lexeme.split_eq_iff.2 ⟨hcuts, rfl⟩
  have hstop : (place file 0 lexemes).2 = Text.bytes source.toList := by
    simpa using place_snd hcuts file 0
  constructor
  · rw [slices, hsplit]
    refine List.rel_append (isSlice_place file [] hcuts rfl) (.cons ?_ .nil)
    exact ⟨source.toList, [], by simp, by simp [endAt, Span.empty, hstop]⟩
  · rintro texts htexts
    obtain ⟨ends, hends, hlist⟩ : ∃ ends, (ends = [] ∨ ends = [[]]) ∧ texts.map String.toList =
        (lexemes.filterMap Lexeme.slice?).map String.toList ++ ends := by
      rw [slices, hsplit] at htexts
      obtain rfl | rfl := htexts
      · exact ⟨[[]], .inr rfl, by simp⟩
      · exact ⟨[], .inl rfl, by simp⟩
    obtain ⟨joined, lexemes', hjoined, hcuts', -, hreadings⟩ := hcuts.respaced hends
    refine ⟨_, tokenize_eq_ok_iff.2 ⟨lexemes', ?_, rfl⟩, ?_⟩
    · rw [String.toList_intercalate, hlist]
      exact hjoined ▸ hcuts'
    · simp only [List.map_append, map_reading_place, hreadings, List.map_cons, List.map_nil]
      rfl

/-- A text whose tokens would run together without the comment and the points between them. -/
theorem tokenize_respaced_tight :
    slices "x=/**/=1.2.3!\"é \";//" = ["x", "=", "=", "1.2", ".", "3", "!", "\"é \"", ""] ∧
      ∃ tokens, tokenize "x=/**/=1.2.3!\"é \";//" "main" = .ok tokens ∧
        Respaced "x=/**/=1.2.3!\"é \";//" "main" "again" tokens :=
  ⟨by decide +kernel, _, rfl, tokenize_respaced rfl "again"⟩

end Token

end ScriptAnalysis
