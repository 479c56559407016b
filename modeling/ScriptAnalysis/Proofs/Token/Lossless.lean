import Mathlib.Algebra.Order.Ring.Nat
import ScriptAnalysis.Proofs.Token.Lexeme
import ScriptAnalysis.Token.Reader

/-!
Reading tokens loses nothing: the tokens of a text tile it, with nothing but skipped stretches between
them, and where reading stops early the text before that place can be read.
-/
namespace ScriptAnalysis

open Lexeme (Skipped Written Cuts Stands)

theorem Text.bytes_pos {text : List Char} (h : text ≠ []) : 0 < Text.bytes text := by
  obtain ⟨c, rest, rfl⟩ := List.exists_cons_of_ne_nil h
  have := c.utf8Size_pos
  simp only [Text.bytes_cons]
  omega

/-- The byte index lies at a character of the text or at its end. -/
def Text.IsBoundary (text : List Char) (index : Nat) : Prop :=
  ∃ before after, text = before ++ after ∧ Text.bytes before = index

theorem Text.IsBoundary.le {text : List Char} {index : Nat} (h : Text.IsBoundary text index) :
    index ≤ Text.bytes text := by
  obtain ⟨before, after, rfl, rfl⟩ := h
  simp

theorem Position.ofIndex_of_lt {index : Nat} {file : String} (h : index < 2 ^ 32) :
    Position.ofIndex index file = ⟨index, file⟩ := by
  have hsize : UInt32.size = 2 ^ 32 := rfl
  rw [Position.ofIndex, hsize, Nat.mod_eq_of_lt h]

inductive Lexeme.Gap : (gap rest : List Char) → Prop
  | nil {rest : List Char} : Gap [] rest
  | cons {text gap rest : List Char} (hskipped : Skipped text (gap ++ rest)) (hgap : Gap gap rest) :
    Gap (text ++ gap) rest

namespace Token

open Lexeme (Gap)

/-- From a byte index on, the text is made of the tokens and the gaps before them, and each token's
span is the stretch of the text that it is written as. -/
inductive Tiles (file : String) : (index : Nat) → (text : List Char) → List Token → Prop
  | stop {index : Nat} {gap : List Char} (hgap : Gap gap []) :
    Tiles file index gap [endAt ⟨index + Text.bytes gap, file⟩]
  | token {index : Nat} {gap text rest : List Char} {kind : TokenKind} {value : String}
    {tokens : List Token} (hgap : Gap gap (text ++ rest)) (hwritten : Written kind value text rest)
    (htokens : Tiles file (index + Text.bytes gap + Text.bytes text) rest tokens) :
    Tiles file index (gap ++ (text ++ rest))
      (⟨kind, value, ⟨⟨index + Text.bytes gap, file⟩,
        ⟨index + Text.bytes gap + Text.bytes text, file⟩⟩⟩ :: tokens)

section Tiles

variable {file : String} {index : Nat} {text rest : List Char} {tokens : List Token}

theorem Tiles.skip (hskipped : Skipped text rest)
    (h : Tiles file (index + Text.bytes text) rest tokens) :
    Tiles file index (text ++ rest) tokens := by
  cases h with
  | stop hgap =>
    have hall : Tiles file index _ _ := .stop (.cons (by simpa using hskipped) hgap)
    simpa [Nat.add_assoc] using hall
  | @token _ gap word rest kind value tokens hgap hwritten htokens =>
    have hall : Tiles file index _ _ :=
      .token (.cons hskipped hgap) hwritten (by simpa [Nat.add_assoc] using htokens)
    simpa [Nat.add_assoc] using hall

theorem Tiles.getLast? (h : Tiles file index text tokens) :
    tokens.getLast? = some (endAt ⟨index + Text.bytes text, file⟩) := by
  induction h with
  | stop hgap => rfl
  | token hgap hwritten htokens ih => simp [List.getLast?_cons, ih, Nat.add_assoc]

/-- Tokens in front of the last are not empty, and do not end the text. -/
theorem Tiles.proper (h : Tiles file index text tokens) :
    ∀ t ∈ tokens.dropLast, t.span.start.offset < t.span.stop.offset ∧ t.kind ≠ .eof := by
  induction h with
  | stop hgap => simp
  | @token index gap text rest kind value tokens hgap hwritten htokens ih =>
    have hne : tokens ≠ [] := by
      rintro rfl
      simpa using htokens.getLast?
    intro t ht
    rw [List.dropLast_cons_of_ne_nil hne, List.mem_cons] at ht
    obtain rfl | ht := ht
    · refine ⟨?_, hwritten.kind_ne_eof⟩
      have := Text.bytes_pos hwritten.ne_nil
      show index + Text.bytes gap < index + Text.bytes gap + Text.bytes text
      omega
    · exact ih t ht

/-- Every span lies inside the text, between characters. -/
theorem Tiles.boundaries (h : Tiles file index text tokens) :
    ∀ t ∈ tokens, ∃ start stop, t.span = ⟨⟨index + start, file⟩, ⟨index + stop, file⟩⟩ ∧
      start ≤ stop ∧ Text.IsBoundary text start ∧ Text.IsBoundary text stop := by
  induction h with
  | @stop index gap hgap =>
    intro t ht
    obtain rfl := List.mem_singleton.1 ht
    have hend : Text.IsBoundary gap (Text.bytes gap) := ⟨gap, [], by simp, rfl⟩
    exact ⟨_, _, rfl, le_rfl, hend, hend⟩
  | @token index gap text rest kind value tokens hgap hwritten htokens ih =>
    intro t ht
    obtain rfl | ht := List.mem_cons.1 ht
    · refine ⟨Text.bytes gap, Text.bytes gap + Text.bytes text, by simp [Nat.add_assoc], by omega,
        ⟨gap, text ++ rest, rfl, rfl⟩, ⟨gap ++ text, rest, by simp, by simp⟩⟩
    · obtain ⟨start, stop, hspan, hle, ⟨before, after, hstart, rfl⟩, ⟨before', after', hstop, rfl⟩⟩ :=
        ih t ht
      refine ⟨Text.bytes (gap ++ text ++ before), Text.bytes (gap ++ text ++ before'), ?_, ?_,
        ⟨_, after, by simp [hstart], rfl⟩, ⟨_, after', by simp [hstop], rfl⟩⟩
      · simpa [Nat.add_assoc] using hspan
      · simpa using hle

theorem Tiles.pairwise (h : Tiles file index text tokens) :
    tokens.Pairwise fun t u =>
      t.span.start.offset < u.span.start.offset ∧ t.span.stop.offset ≤ u.span.start.offset := by
  induction h with
  | stop hgap => simp
  | @token index gap text rest kind value tokens hgap hwritten htokens ih =>
    refine List.pairwise_cons.2 ⟨?_, ih⟩
    intro u hu
    obtain ⟨start, stop, hspan, -⟩ := htokens.boundaries u hu
    have := Text.bytes_pos hwritten.ne_nil
    simp only [hspan]
    omega

end Tiles

/-- The tokens say all that the text says: they tile it, the last one stands for its end, and the
spans are in the text, between characters and one behind the other. -/
structure Lossless (source : List Char) (file : String) (tokens : List Token) : Prop where
  tiles : Tiles file 0 source tokens
  last : tokens.getLast? = some (endAt ⟨Text.bytes source, file⟩)
  nonempty : ∀ t ∈ tokens.dropLast, t.span.start.offset < t.span.stop.offset
  ordered : tokens.Pairwise fun t u =>
    t.span.start.offset < u.span.start.offset ∧ t.span.stop.offset ≤ u.span.start.offset
  inside : ∀ t ∈ tokens, t.span.stop.offset ≤ Text.bytes source
  boundaries : ∀ t ∈ tokens, Text.IsBoundary source t.span.start.offset ∧
    Text.IsBoundary source t.span.stop.offset

theorem Tiles.lossless {source : List Char} {file : String} {tokens : List Token}
    (h : Tiles file 0 source tokens) : Lossless source file tokens where
  tiles := h
  last := by simpa using h.getLast?
  nonempty t ht := (h.proper t ht).1
  ordered := h.pairwise
  inside := by
    intro t ht
    obtain ⟨start, stop, hspan, -, -, hstop⟩ := h.boundaries t ht
    simpa [hspan] using hstop.le
  boundaries := by
    intro t ht
    obtain ⟨start, stop, hspan, -, hstart, hstop⟩ := h.boundaries t ht
    simpa [hspan] using And.intro hstart hstop

/-- The diagnostic names the first character at which no lexeme starts, and the text before it can
be read. -/
def Refused (source : List Char) (file : String) (d : Diagnostic) : Prop :=
  ∃ before c after, source = before ++ c :: after ∧
    d = .atPosition (.unrecognised (String.singleton c)) ⟨Text.bytes before, file⟩ ∧
    (∀ (l : Lexeme) (rest : List Char), c :: after = l.text ++ rest → ¬ l.Stands rest) ∧
    ∃ tokens, tokenize (String.ofList before) file = .ok tokens

section Place

variable {text rest : List Char} {lexemes : List Lexeme}

theorem place_snd (h : Cuts text lexemes rest) (file : String) (index : Nat) :
    (place file index lexemes).2 + Text.bytes rest = index + Text.bytes text := by
  induction h generalizing index with
  | nil => rfl
  | @cons l lexemes text rest hstands _ ih =>
    have hrest := ih (index + Text.bytes l.text)
    rw [place]
    cases l.meaning <;> simp only [Text.bytes_append] <;> omega

theorem tiles_place (h : Cuts text lexemes []) (file : String) (index : Nat)
    (hlen : index + Text.bytes text < 2 ^ 32) :
    Tiles file index text ((place file index lexemes).1 ++
      [endAt (.ofIndex (place file index lexemes).2 file)]) := by
  generalize hrest : ([] : List Char) = rest at h
  induction h generalizing index with
  | nil =>
    subst hrest
    have hstop : Tiles file index [] _ := .stop .nil
    rw [place, Position.ofIndex_of_lt (by simpa using hlen)]
    simpa using hstop
  | @cons l lexemes text rest hstands hcuts ih =>
    simp only [Text.bytes_append] at hlen
    have htail := ih (index + Text.bytes l.text) (by omega) hrest
    obtain ⟨word, _ | ⟨kind, value⟩⟩ := l
    · exact htail.skip hstands
    · have htoken : Tiles file index _ _ := .token .nil hstands htail
      simp only at hlen
      rw [place, Position.ofIndex_of_lt (show index < 2 ^ 32 by omega),
        Position.ofIndex_of_lt (show index + Text.bytes word < 2 ^ 32 by omega)]
      simpa using htoken

end Place

/-- Reading is lossless where it succeeds; where it fails, it stops at the first character that no
lexeme accounts for. -/
theorem tokenize_lossless (source file : String) (hlen : Text.bytes source.toList < 2 ^ 32) :
    (∀ tokens, tokenize source file = .ok tokens → Lossless source.toList file tokens) ∧
      ∀ d, tokenize source file = .error d → Refused source.toList file d := by
  obtain ⟨hcuts, hnone⟩ := Lexeme.cuts_split source.toList
  have hstop := place_snd hcuts file 0
  unfold tokenize
  generalize Lexeme.split source.toList = cut at hcuts hnone hstop
  obtain ⟨lexemes, unread⟩ := cut
  cases unread with
  | nil =>
    constructor
    · intro tokens htokens
      have htiles := tiles_place hcuts file 0 (by omega)
      obtain rfl := Except.ok.inj htokens
      exact htiles.lossless
    · intro d hd
      simp at hd
  | cons c after =>
    constructor
    · intro tokens htokens
      simp at htokens
    · intro d hd
      obtain rfl := Except.error.inj hd
      obtain ⟨before, hsource, hbefore⟩ := hcuts.cut_off
      simp only [hsource, Text.bytes_append, Nat.zero_add, Nat.add_right_cancel_iff] at hstop hlen
      refine ⟨before, c, after, hsource, ?_, ?_, ?_⟩
      · rw [hstop, Position.ofIndex_of_lt (by omega)]
      · intro l rest heq hstands
        rw [heq, hstands.first?] at hnone
        simp at hnone
      · have hsplit : Lexeme.split before = (lexemes, []) := Lexeme.split_eq_iff.2 ⟨hbefore, rfl⟩
        simp [tokenize, hsplit]

/-- A text with a comment, escapes and a character of several bytes; and one whose string is never
closed behind such a character. -/
theorem tokenize_lossless_escapes :
    (Text.bytes "x1 = \"a\\n\" /* é * */ + 1.5.y; // end".toList < 2 ^ 32 ∧
      ∃ tokens, tokenize "x1 = \"a\\n\" /* é * */ + 1.5.y; // end" "main" = .ok tokens ∧
        Lossless "x1 = \"a\\n\" /* é * */ + 1.5.y; // end".toList "main" tokens) ∧
      Text.bytes "/*é*/ 12 \"a".toList < 2 ^ 32 ∧
        ∃ d, tokenize "/*é*/ 12 \"a" "main" = .error d ∧
          Refused "/*é*/ 12 \"a".toList "main" d := by
  have hfirst : Text.bytes "x1 = \"a\\n\" /* é * */ + 1.5.y; // end".toList < 2 ^ 32 := by decide
  have hsecond : Text.bytes "/*é*/ 12 \"a".toList < 2 ^ 32 := by decide
  exact ⟨⟨hfirst, _, rfl, (tokenize_lossless _ _ hfirst).1 _ rfl⟩,
    hsecond, _, rfl, (tokenize_lossless _ _ hsecond).2 _ rfl⟩

end Token

end ScriptAnalysis
