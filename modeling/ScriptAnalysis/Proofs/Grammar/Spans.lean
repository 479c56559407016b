import ScriptAnalysis.Proofs.Grammar.Numbering
import ScriptAnalysis.Proofs.Token.Lossless

/-!
Spans nest. What stands in a program covers its tokens from the first to the last, its parts lie within
it, and they follow each other (`Program.spans_nest`).
-/
namespace ScriptAnalysis

structure Span.Inside (x y : Span) : Prop where
  start : y.start.offset ≤ x.start.offset
  le : x.start.offset ≤ x.stop.offset
  stop : x.stop.offset ≤ y.stop.offset

structure Span.Nest (y : Span) (xs : List Span) : Prop where
  inside : ∀ x ∈ xs, x.Inside y
  apart : xs.Pairwise fun x x' => x.stop.offset ≤ x'.start.offset

theorem Span.nest_nil (y : Span) : y.Nest [] := ⟨by simp, .nil⟩

/-- Spans that lie behind the first one. -/
theorem Span.Nest.cons {x y : Span} {xs : List Span} (hx : x.Inside y) (h : Nest ⟨x.stop, y.stop⟩ xs) :
    y.Nest (x :: xs) where
  inside := by
    refine List.forall_mem_cons.2 ⟨hx, fun x' hx' => ?_⟩
    have hbehind := h.inside x' hx'
    exact ⟨hx.start.trans (hx.le.trans hbehind.start), hbehind.le, hbehind.stop⟩
  apart := .cons (fun x' hx' => (h.inside x' hx').start) h.apart

namespace TokenStream

structure Ordered (s : TokenStream) : Prop where
  nonempty : ∀ {a}, a < s.tokens.size → (s.tokenAt a).span.start.offset < (s.tokenAt a).span.stop.offset
  apart : ∀ {a b}, a < b → b < s.tokens.size →
    (s.tokenAt a).span.stop.offset ≤ (s.tokenAt b).span.start.offset
  kind : ∀ {a}, a < s.tokens.size → (s.tokenAt a).kind ≠ .eof

variable {s : TokenStream} {i j a b : Nat} {l : List Site}

theorem Ordered.start_le (hs : s.Ordered) (hab : a ≤ b) (hb : b < s.tokens.size) :
    (s.tokenAt a).span.start.offset ≤ (s.tokenAt b).span.start.offset := by
  obtain rfl | hlt := hab.eq_or_lt
  · exact le_rfl
  · exact (hs.nonempty (hlt.trans hb)).le.trans (hs.apart hlt hb)

theorem Ordered.stop_le (hs : s.Ordered) (hab : a ≤ b) (hb : b < s.tokens.size) :
    (s.tokenAt a).span.stop.offset ≤ (s.tokenAt b).span.stop.offset := by
  obtain rfl | hlt := hab.eq_or_lt
  · exact le_rfl
  · exact (hs.apart hlt hb).trans (hs.nonempty hb).le

/-- Sites that cover tokens one behind the other nest in a span around these tokens. -/
theorem Spread.nest (hs : s.Ordered) (h : s.Spread i l j) (hj : j ≤ s.tokens.size) {y : Span}
    (hy : ∀ a, i ≤ a → a < j →
      y.start.offset ≤ (s.tokenAt a).span.start.offset ∧ (s.tokenAt a).span.stop.offset ≤ y.stop.offset) :
    y.Nest (l.map (·.part.node.span)) := by
  induction h generalizing y with
  | nil => exact y.nest_nil
  | @cons i a b j t l hia hab hspan hrest ih =>
    have hbj : b < j := hrest.le
    have hb := hbj.trans_le hj
    rw [List.map_cons, hspan]
    refine .cons ⟨(hy a hia (by omega)).1, ?_, (hy b (by omega) hbj).2⟩ (ih hj fun k hk hkj => ?_)
    · exact (hs.start_le hab hb).trans (hs.nonempty hb).le
    · exact ⟨hs.apart hk (hkj.trans_le hj), (hy k (by omega) hkj).2⟩
  | @omitted i k j t l hik hspan hrest ih =>
    have hkj : k < j := hrest.le
    have hk := hkj.trans_le hj
    rw [List.map_cons, hspan]
    refine .cons ⟨?_, le_rfl, (hy k hik hkj).2⟩ (ih hj fun a ha haj => ?_)
    · exact (hy k hik hkj).1.trans (hs.nonempty hk).le
    · exact ⟨hs.apart ha (haj.trans_le hj), (hy a (by omega) haj).2⟩

end TokenStream

theorem Site.Spanned.nest {s : TokenStream} (hs : s.Ordered) {t : Site} (h : t.Spanned s) :
    t.part.node.span.Nest (t.parts.map (·.part.node.span)) := by
  cases h with
  | @covers i j _ hj hspan hparts =>
    rw [hspan]
    refine hparts.nest hs hj fun a hi ha => ⟨hs.start_le hi (by omega), hs.stop_le (by omega) hj⟩
  | omitted _ _ hparts =>
    rw [hparts]
    exact Span.nest_nil _

namespace Token

variable {source file : String} {tokens : List Token}

theorem tiles_of_tokenize (hlen : Text.bytes source.toList < 2 ^ 32) (h : tokenize source file = .ok tokens) :
    Tiles file 0 source.toList tokens := by
  obtain ⟨hcuts, _⟩ := Lexeme.cuts_split source.toList
  unfold tokenize at h
  cases hrest : (Lexeme.split source.toList).2 with
  | cons c rest =>
    simp only [hrest] at h
    cases h
  | nil =>
    simp only [hrest] at h
    cases h
    rw [hrest] at hcuts
    exact tiles_place hcuts file 0 (by omega)

theorem Tiles.stream {text : List Char} (h : Tiles file 0 text tokens) :
    (TokenStream.ofList tokens file).tokens = tokens.dropLast.toArray := by
  simp [TokenStream.ofList, h.getLast?, endAt]

theorem Tiles.ordered {text : List Char} (h : Tiles file 0 text tokens) :
    (TokenStream.ofList tokens file).Ordered := by
  have hat : ∀ {a}, (ha : a < (TokenStream.ofList tokens file).tokens.size) →
      ∃ hlt : a < tokens.dropLast.length, (TokenStream.ofList tokens file).tokenAt a = tokens.dropLast[a] := by
    intro a ha
    have hlt : a < tokens.dropLast.length := by simpa [h.stream] using ha
    refine ⟨hlt, ?_⟩
    rw [TokenStream.tokenAt, h.stream, List.getElem?_toArray, List.getElem?_eq_getElem hlt,
      Option.getD_some]
  have hpairwise := List.pairwise_iff_getElem.1 (h.pairwise.sublist (List.dropLast_sublist tokens))
  refine ⟨fun ha => ?_, fun {a b} hab hb => ?_, fun ha => ?_⟩
  · obtain ⟨hlt, heq⟩ := hat ha
    rw [heq]
    exact (h.proper _ (List.getElem_mem hlt)).1
  · obtain ⟨hltb, heqb⟩ := hat hb
    obtain ⟨hlta, heqa⟩ := hat (hab.trans hb)
    rw [heqa, heqb]
    exact (hpairwise a b hlta hltb hab).2
  · obtain ⟨hlt, heq⟩ := hat ha
    rw [heq]
    exact (h.proper _ (List.getElem_mem hlt)).2

end Token

namespace Program

/-- How the nodes of a program that is read from tokens lie in them. Each covers what it is read from, and
an omitted result type is an empty span behind the parameters (`located`, `covers`); the program goes from
the start of the file to the end of the last token (`whole`); and what anything is made of nests in it
(`parts`, `body`). -/
structure Nested (tokens : List Token) (file : String) (p : Program) (c : Cursor) : Prop where
  located : ManyAt Stmt.At (Cursor.start tokens file).fresh p.body c
  covers : ∀ t ∈ p.sites, t.Spanned (.ofList tokens file)
  whole : p.node.span =
    ⟨.origin file, (tokens.dropLast.getLast?.map (·.span.stop)).getD (.origin file)⟩
  parts : ∀ t ∈ p.sites, t.part.node.span.Nest (t.parts.map (·.part.node.span))
  body : p.node.span.Nest (p.body.map (·.node.span))

variable {source file : String} {tokens : List Token} {p : Program} {c : Cursor}

/-- Behind all tokens of a text, the last one has been passed. -/
theorem lastEnd_of_tiles {text : List Char} (htiles : Token.Tiles file 0 text tokens)
    (hstream : c.stream = .ofList tokens file) (hfile : c.file = file)
    (hindex : c.index = (TokenStream.ofList tokens file).tokens.size) :
    c.lastEnd = (tokens.dropLast.getLast?.map (·.span.stop)).getD (.origin file) := by
  have hsize : (TokenStream.ofList tokens file).tokens.size = tokens.dropLast.length := by
    rw [htiles.stream, List.size_toArray]
  rw [List.getLast?_eq_getElem?, ← hsize, ← hindex]
  cases hi : c.index with
  | zero =>
    have hnil : tokens.dropLast = [] := List.eq_nil_of_length_eq_zero (by omega)
    rw [Cursor.lastEnd, hi, hnil, hfile]
    rfl
  | succ n =>
    rw [Cursor.lastEnd_eq hi (by rw [hstream]; omega), hstream, TokenStream.tokenAt, htiles.stream,
      List.getElem?_toArray, Nat.add_sub_cancel, List.getElem?_eq_getElem (by omega)]
    rfl

/-- The spans of a program that is read from a text nest. -/
theorem spans_nest (hlen : Text.bytes source.toList < 2 ^ 32)
    (htokens : Token.tokenize source file = .ok tokens) (hparse : parse tokens file = .ok p c) :
    Nested tokens file p c := by
  have htiles := Token.tiles_of_tokenize hlen htokens
  have hs := htiles.ordered
  obtain ⟨hlocated, hend, hnode⟩ := located_of_parse hparse
  have hlays := lays_of_parse hparse
  have hstream : c.stream = .ofList tokens file := hlays.moves.stream
  -- only the closing token ends the text, so all tokens in front of it have been passed
  have hindex : c.index = (TokenStream.ofList tokens file).tokens.size := by
    have hle : c.index ≤ max 0 (TokenStream.ofList tokens file).tokens.size := hlays.moves.le
    by_contra hne
    refine hs.kind (a := c.index) (by omega) ?_
    rw [← hstream]
    exact hend
  refine ⟨hlocated, hlays.spanned, ?_, fun t ht => (hlays.spanned t ht).nest hs, ?_⟩
  · rw [hnode, lastEnd_of_tiles htiles hstream hlays.moves.file hindex]
  · have hnest := hlays.spread.nest hs hindex.le (y := p.node.span) fun a _ ha => ?_
    · rw [List.map_map] at hnest
      exact hnest
    · rw [hnode]
      refine ⟨Nat.zero_le _, ?_⟩
      obtain ⟨n, hn⟩ : ∃ n, c.index = n + 1 := ⟨c.index - 1, by omega⟩
      have hlt : n < (TokenStream.ofList tokens file).tokens.size := by omega
      show _ ≤ c.lastEnd.offset
      rw [Cursor.lastEnd_eq hn (hstream ▸ hlt), hstream]
      exact hs.stop_le (by omega) hlt

/-- A function without a written result type, and a call with a comma behind its last argument. -/
theorem spans_nest_call :
    Text.bytes "fun f(a: Int) \x7b f(a + 1,) \x7d".toList < 2 ^ 32 ∧ ∃ tokens p c,
      Token.tokenize "fun f(a: Int) \x7b f(a + 1,) \x7d" "main" = .ok tokens ∧
      parse tokens "main" = .ok p c ∧
      p.sites.map (fun t => (t.part.node.span.start.offset, t.part.node.span.stop.offset)) =
        [(9, 12), (6, 12), (13, 13), (16, 17), (18, 19), (22, 23), (18, 23), (16, 25), (16, 25), (14, 27),
          (0, 27)] ∧
      Nested tokens "main" p c := by
  have hlen : Text.bytes "fun f(a: Int) \x7b f(a + 1,) \x7d".toList < 2 ^ 32 := by decide
  obtain ⟨tokens, p, c, htokens, hparse, htest⟩ := exists_of_reads "main" "fun f(a: Int) \x7b f(a + 1,) \x7d"
    (fun p => p.sites.map (fun t => (t.part.node.span.start.offset, t.part.node.span.stop.offset)) =
      [(9, 12), (6, 12), (13, 13), (16, 17), (18, 19), (22, 23), (18, 23), (16, 25), (16, 25), (14, 27),
        (0, 27)]) (by decide +kernel)
  exact ⟨hlen, tokens, p, c, htokens, hparse, of_decide_eq_true htest, spans_nest hlen htokens hparse⟩

end Program

end ScriptAnalysis
