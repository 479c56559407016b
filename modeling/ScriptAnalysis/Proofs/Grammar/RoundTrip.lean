import ScriptAnalysis.Proofs.Grammar.ExprComplete
import ScriptAnalysis.Proofs.Grammar.Rendering
import ScriptAnalysis.Token.Reader

/-!
The text of an expression that has been read can be read again, to its end, and gives the expression
back: `Expr.parse_render`. The text has no parentheses but those of the expression, so this rests on
the powers of operators and on the words alone.
-/
namespace ScriptAnalysis

open Lexeme (Cuts Written IsName)
open Word (NamesIn)

section Tokens

variable {text rest : List Char} {lexemes : List Lexeme} {kind : TokenKind} {value : String}

theorem Lexeme.Written.isName (h : Written kind value text rest) (hkind : kind = .identifier) :
    IsName value := by
  cases h with
  | @word c tail rest hstart htail =>
    refine ⟨⟨by simpa using hstart, ?_⟩, hkind⟩
    rw [String.toList_ofList, List.all_eq_true, List.forall_mem_cons]
    exact ⟨by simp [Lexeme.isWordChar, hstart], htail⟩
  | integer | decimal | string => cases hkind
  | sign hmem =>
    have hsigns : ∀ entry ∈ TokenKind.signs, entry.1 ≠ .identifier := by decide
    exact absurd hkind (hsigns _ hmem)

theorem Lexeme.Cuts.words (h : Cuts text lexemes rest) :
    ∀ w ∈ lexemes.filterMap Lexeme.word?, w.kind ≠ .eof ∧ (w.kind = .identifier → IsName w.text) := by
  induction h with
  | nil => simp
  | @cons l lexemes text rest hstands _ ih =>
    obtain ⟨chars, _ | ⟨kind, value⟩⟩ := l
    · exact ih
    · have hwritten : Written kind value chars text := hstands
      refine List.forall_mem_cons.2 ⟨⟨hwritten.kind_ne_eof, ?_⟩, ih⟩
      intro hkind
      obtain rfl : kind = .identifier := hkind
      exact hwritten.isName rfl

namespace Token

theorem map_word_place (file : String) (index : Nat) (lexemes : List Lexeme) :
    (place file index lexemes).1.map word = lexemes.filterMap Lexeme.word? := by
  induction lexemes generalizing index with
  | nil => rfl
  | cons l lexemes ih =>
    obtain ⟨chars, _ | ⟨kind, value⟩⟩ := l
    · exact ih _
    · exact congrArg _ (ih _)

theorem tokenize_eq_ok_iff {source file : String} {tokens : List Token} :
    tokenize source file = .ok tokens ↔ ∃ lexemes, Cuts source.toList lexemes [] ∧
      tokens = (place file 0 lexemes).1 ++ [endAt (.ofIndex (place file 0 lexemes).2 file)] := by
  constructor
  · intro h
    have hcuts := (Lexeme.cuts_split source.toList).1
    unfold tokenize at h
    generalize Lexeme.split source.toList = cut at hcuts h
    obtain ⟨lexemes, _ | ⟨c, unread⟩⟩ := cut
    · exact ⟨lexemes, hcuts, (Except.ok.inj h).symm⟩
    · cases h
  · rintro ⟨lexemes, hcuts, rfl⟩
    have hsplit : Lexeme.split source.toList = (lexemes, []) := Lexeme.split_eq_iff.2 ⟨hcuts, rfl⟩
    simp [tokenize, hsplit]

/-- The tokens of a text that falls into lexemes are their words, with the end behind them. -/
theorem words_place (h : Cuts text lexemes rest) (file : String) (p : Position) :
    (∀ t ∈ (place file 0 lexemes).1, t.kind ≠ .eof) ∧
      words ((place file 0 lexemes).1 ++ [endAt p]) = lexemes.filterMap Lexeme.word? := by
  have hkinds : ∀ t ∈ (place file 0 lexemes).1, t.kind ≠ .eof := by
    intro t ht
    refine (h.words t.word ?_).1
    rw [← map_word_place file 0]
    exact List.mem_map_of_mem ht
  refine ⟨hkinds, ?_⟩
  rw [words_append_end rfl, words, List.takeWhile_eq_self_iff.2 (by simpa using hkinds),
    map_word_place]

theorem namesIn_of_tokenize {source file : String} {tokens : List Token}
    (h : tokenize source file = .ok tokens) : NamesIn (words tokens) := by
  obtain ⟨lexemes, hcuts, rfl⟩ := tokenize_eq_ok_iff.1 h
  rw [(words_place hcuts file _).2]
  exact fun w hw => (hcuts.words w hw).2

end Token

/-- A text that spells words is read as tokens with these words, and the end behind them. -/
theorem Spells.tokenize {source : String} {ws : List Word} (h : Spells source.toList ws [])
    (file : String) :
    ∃ body p, Token.tokenize source file = .ok (body ++ [.endAt p]) ∧
      (∀ t ∈ body, t.kind ≠ .eof) ∧ Token.words (body ++ [.endAt p]) = ws := by
  obtain ⟨lexemes, hcuts, hwords⟩ := h
  rw [List.append_nil] at hcuts
  obtain ⟨hkinds, hplaced⟩ :=
    Token.words_place hcuts file (.ofIndex (Token.place file 0 lexemes).2 file)
  exact ⟨_, _, Token.tokenize_eq_ok_iff.2 ⟨lexemes, hcuts, rfl⟩, hkinds, hplaced.trans hwords⟩

theorem Cursor.toList_tokens_start (body : List Token) (p : Position) (file : String) :
    (Cursor.start (body ++ [.endAt p]) file).stream.tokens.toList = body := by
  simp [Cursor.start, TokenStream.ofList, Token.endAt]

/-- Where the words of a stream are used up, only its closing token is left. -/
theorem Cursor.remaining_eq_zero {c : Cursor} (hkinds : ∀ t ∈ c.stream.tokens.toList, t.kind ≠ .eof)
    (h : c.words = []) : c.remaining = 0 := by
  rw [Cursor.words] at h
  cases hdrop : c.stream.tokens.toList.drop c.index with
  | nil =>
    have hle := List.drop_eq_nil_iff.1 hdrop
    rw [Array.length_toList] at hle
    rw [Cursor.remaining]
    omega
  | cons t tokens =>
    have hmem : t ∈ c.stream.tokens.toList := List.mem_of_mem_drop (hdrop ▸ List.mem_cons_self)
    rw [hdrop, Token.words_cons, if_neg (hkinds t hmem)] at h
    cases h

end Tokens

section Names

theorem namesIn_ofInt (value : Int) : NamesIn (Word.ofInt value) := by
  unfold Word.ofInt
  split <;> simp

mutual

/-- The names of an expression are among the words that it is read from. -/
theorem Expr.Reads.namesIn {input rest : List Word} {e : Expr} (h : e.Reads input rest)
    (hinput : NamesIn input) : NamesIn e.words ∧ NamesIn rest := by
  cases h with
  | int => exact ⟨namesIn_ofInt _, (namesIn_cons.1 hinput).2⟩
  | negativeInt => exact ⟨namesIn_ofInt _, (namesIn_cons.1 (namesIn_cons.1 hinput).2).2⟩
  | float => simpa [Expr.words] using hinput
  | negativeFloat => simpa [Expr.words] using hinput
  | string => simpa [Expr.words] using hinput
  | symbol => simpa [Expr.words] using hinput
  | construct =>
    simp only [Expr.words, namesIn_cons] at hinput ⊢
    exact ⟨⟨hinput.1, hinput.2.1, namesIn_nil⟩, hinput.2.2⟩
  | paren hinner =>
    rw [namesIn_cons] at hinput
    obtain ⟨hwords, hrest⟩ := hinner.namesIn hinput.2
    simp_all [Expr.words]
  | literal helements =>
    rw [namesIn_cons] at hinput
    obtain ⟨hwords, hrest⟩ := namesIn_items helements hinput.2
    simp_all [Expr.words, namesIn_commaJoined]
  | not hoperand =>
    rw [namesIn_cons] at hinput
    obtain ⟨hwords, hrest⟩ := hoperand.namesIn hinput.2
    simp_all [Expr.words]
  | binary hleft hright =>
    obtain ⟨hwords, hmid⟩ := hleft.namesIn hinput
    rw [namesIn_cons] at hmid
    obtain ⟨hwords', hrest⟩ := hright.namesIn hmid.2
    simp_all [Expr.words]
  | assign htarget hvalue =>
    obtain ⟨hwords, hmid⟩ := htarget.namesIn hinput
    rw [namesIn_cons] at hmid
    obtain ⟨hwords', hrest⟩ := hvalue.namesIn hmid.2
    simp_all [Expr.words]
  | call hcallee hpower harguments =>
    obtain ⟨hwords, hmid⟩ := hcallee.namesIn hinput
    rw [namesIn_cons] at hmid
    obtain ⟨hwords', hrest⟩ := namesIn_items harguments hmid.2
    simp_all [Expr.words, namesIn_commaJoined]
  | templateCall hcallee hnamed harguments =>
    obtain ⟨hwords, hmid⟩ := hcallee.namesIn hinput
    simp only [namesIn_cons, namesIn_append] at hmid
    obtain ⟨hwords', hrest⟩ := namesIn_items harguments hmid.2.2.2.2
    simp_all [Expr.words, namesIn_commaJoined]
  | index hbase hpower hposition =>
    obtain ⟨hwords, hmid⟩ := hbase.namesIn hinput
    rw [namesIn_cons] at hmid
    obtain ⟨hwords', hrest⟩ := hposition.namesIn hmid.2
    simp_all [Expr.words]
  | member hstem =>
    obtain ⟨hwords, hmid⟩ := hstem.namesIn hinput
    simp_all [Expr.words]

theorem namesIn_items {input rest : List Word} {close : TokenKind} {items : List Expr}
    (h : Items Expr.Reads input close items rest) :
    NamesIn input →
      (∀ part ∈ Expr.wordsAll items, NamesIn part) ∧ NamesIn (Word.mark close :: rest) := by
  intro hinput
  cases h with
  | nil => exact ⟨by simp [Expr.wordsAll], hinput⟩
  | last ha =>
    obtain ⟨hwords, hrest⟩ := ha.namesIn hinput
    exact ⟨by simpa [Expr.wordsAll] using hwords, hrest⟩
  | @more _ _ mid _ a items ha hitems =>
    obtain ⟨hwords, hmid⟩ := ha.namesIn hinput
    rw [namesIn_cons] at hmid
    obtain ⟨hothers, hrest⟩ := namesIn_items hitems hmid.2
    exact ⟨List.forall_mem_cons.2 ⟨hwords, hothers⟩, hrest⟩

end

end Names

/-- The text of a plain expression that has been read is read again to its end, and as the same
expression but for nodes. -/
theorem Expr.parse_render {source file : String} {tokens : List Token} {e : Expr} {c : Cursor}
    (htokens : Token.tokenize source file = .ok tokens)
    (hparse : Parser.expr .lowest (Cursor.start tokens file) = .ok e c) (hplain : e.isPlain)
    (file' : String) :
    ∃ tokens' e' c', Token.tokenize e.render file' = .ok tokens' ∧
      Parser.expr .lowest (Cursor.start tokens' file') = .ok e' c' ∧
      c'.stream = TokenStream.ofList tokens' file' ∧ c'.remaining = 0 ∧ e'.bare = e.bare := by
  have hreads := ((Parser.runs_expr .lowest _).of_ok hparse).read.reads
  rw [Cursor.words_start] at hreads
  have hnames := (hreads.namesIn (Token.namesIn_of_tokenize htokens)).1
  obtain ⟨body, p, hread, hkinds, hwords⟩ :=
    ((e.isOperand_render hplain hnames).spells [] detached_nil).tokenize file'
  have hagain : e.Reads e.words [] := by simpa using hreads.canonical hplain (covers_nil _)
  obtain ⟨e', c', hat, hend, hbare⟩ := hagain.exists_at (Cursor.start (body ++ [.endAt p]) file')
    ⟨by rw [Cursor.words_start, hwords], rfl⟩
  have hparse' := (Parser.expr_eq_ok_iff (by decide)).2
    (hat.read (p := .lowest) (by decide) (by rw [hend.kind]; rfl))
  have hstream := hat.before.stream
  refine ⟨_, e', c', hread, hparse', hstream, Cursor.remaining_eq_zero ?_ hend.words, hbare⟩
  rw [hstream, Cursor.toList_tokens_start]
  exact hkinds

/-- Whether a text starts with an expression that passes a test. -/
def Expr.readsAs (file text : String) (test : Expr → Bool) : Bool :=
  match Token.tokenize text file with
  | .error _ => false
  | .ok tokens =>
    match Parser.expr .lowest (Cursor.start tokens file) with
    | .error _ _ => false
    | .ok e _ => test e

theorem Expr.exists_of_readsAs (file text : String) (test : Expr → Bool)
    (h : readsAs file text test = true) :
    ∃ tokens e c, Token.tokenize text file = .ok tokens ∧
      Parser.expr .lowest (Cursor.start tokens file) = .ok e c ∧ test e = true := by
  unfold readsAs at h
  split at h
  · cases h
  · next tokens htokens =>
    split at h
    · cases h
    · next e c hparse => exact ⟨tokens, e, c, htokens, hparse, h⟩

/-- An expression with type arguments behind one sign `<` and none behind another, a negative number
behind a minus, an escape, a comment and a spare comma. -/
theorem Expr.parse_render_compact :
    ∃ tokens e c, Token.tokenize "x=!a.f<Int[],B\x7b\x7d>(-1,\"\\t\",)- -2<create C /* */ )" "main" =
        .ok tokens ∧ Parser.expr .lowest (Cursor.start tokens "main") = .ok e c ∧ e.isPlain ∧
      e.render = "x = !a.f<Int[], B\x7b\x7d>(-1, \"\\t\") - -2 < create C" ∧
      ∃ tokens' e' c', Token.tokenize e.render "again" = .ok tokens' ∧
        Parser.expr .lowest (Cursor.start tokens' "again") = .ok e' c' ∧
        c'.stream = TokenStream.ofList tokens' "again" ∧ c'.remaining = 0 ∧ e'.bare = e.bare := by
  obtain ⟨tokens, e, c, htokens, hparse, htest⟩ := Expr.exists_of_readsAs "main"
    "x=!a.f<Int[],B\x7b\x7d>(-1,\"\\t\",)- -2<create C /* */ )"
    (fun e => e.isPlain && e.render = "x = !a.f<Int[], B\x7b\x7d>(-1, \"\\t\") - -2 < create C")
    (by decide +kernel)
  rw [Bool.and_eq_true, decide_eq_true_eq] at htest
  exact ⟨tokens, e, c, htokens, hparse, htest.1, htest.2,
    Expr.parse_render htokens hparse htest.1 "again"⟩

end ScriptAnalysis
