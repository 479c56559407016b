import Mathlib.Data.Nat.Digits.Defs
import ScriptAnalysis.Proofs.Diagnostic.Caret
import ScriptAnalysis.Proofs.Typing.Layout

/-!
Every finding points into the text. Tokens stand between characters of the text, a parser fails at a
token, and the nodes of a program start at tokens or, where a result type is left out, behind one; so each
report shows the line that it is about (`Program.findings_point`).
-/
namespace ScriptAnalysis

structure Position.Within (q : Position) (source file : String) : Prop where
  named : q.file = file
  boundary : Text.IsBoundary source.toList q.offset

/-- The finding points into the text, and its report shows the line of its place with a caret, unless there
would be too many dashes before it. -/
structure Diagnostic.PointsInto (d : Diagnostic) (source file : String) : Prop where
  named : d.span.start.file = file
  inside : d.span.start.offset ≤ Text.bytes source.toList
  boundary : Text.IsBoundary source.toList d.span.start.offset
  shown : ∃ line, Text.lineAt? source.toList d.span.start.offset = some line ∧ 1 ≤ line.number ∧
    line.text = Text.lineNumbered source.toList line.number ∧
    (column line < maxWidth → ∃ report, d.render source = .ok report ∧ d.Shows report line) ∧
    (maxWidth ≤ column line → d.render source = .error .wideField)

theorem Position.Within.pointsInto {d : Diagnostic} {source file : String}
    (hlen : Text.bytes source.toList < 2 ^ 32) (h : d.span.start.Within source file) :
    d.PointsInto source file := by
  obtain ⟨line, hline, hnumber, hle, htext⟩ := Text.exists_lineAt? h.boundary.le
  have hdigits : (toString line.number).length ≤ 10 := by
    have hlines := Text.length_lines_le source.toList
    exact Nat.repr_length line.number 10 (by decide) (by omega)
  refine ⟨h.named, h.boundary.le, h.boundary, line, hline, hnumber, htext, fun hcolumn => ?_, fun hcolumn => ?_⟩
  · exact Diagnostic.render_of_fits hline ⟨(Nat.add_le_add_right hdigits 2).trans (by decide), hcolumn⟩
  · exact (Diagnostic.render_eq_error_iff hline).2 fun hfits => absurd hfits.2 (by omega)

namespace Token

variable {source file : String} {tokens : List Token}

theorem Tiles.within (h : Tiles file 0 source.toList tokens) :
    ∀ t ∈ tokens, t.span.start.Within source file ∧ t.span.stop.Within source file := by
  intro t ht
  obtain ⟨start, stop, hspan, _, hstart, hstop⟩ := h.boundaries t ht
  rw [hspan]
  exact ⟨⟨rfl, by simpa using hstart⟩, rfl, by simpa using hstop⟩

/-- All tokens of the stream that the tokens of a text make, the closing one included, lie in the text. -/
theorem Tiles.within_stream (h : Tiles file 0 source.toList tokens) (i : Nat) :
    ((TokenStream.ofList tokens file).tokenAt i).span.start.Within source file ∧
      ((TokenStream.ofList tokens file).tokenAt i).span.stop.Within source file := by
  apply h.within
  have hlast := h.getLast?
  simp only [TokenStream.ofList, hlast, endAt, dite_true, TokenStream.tokenAt]
  cases hi : tokens.dropLast.toArray[i]? with
  | none => exact List.mem_of_getLast? hlast
  | some t => exact List.mem_of_mem_dropLast (by simpa using Array.mem_of_getElem? hi)

/-- A text that cannot be cut is refused at the character where the lexemes end. -/
theorem within_of_refused {x : Diagnostic} (hlen : Text.bytes source.toList < 2 ^ 32)
    (h : tokenize source file = .error x) : x.span.start.Within source file := by
  have hcuts := (Lexeme.cuts_split source.toList).1
  have hstop := place_snd hcuts file 0
  unfold tokenize at h
  generalize Lexeme.split source.toList = cut at hcuts hstop h
  obtain ⟨lexemes, unread⟩ := cut
  cases unread with
  | nil => simp at h
  | cons c after =>
    obtain rfl := Except.error.inj h
    obtain ⟨before, hsource, _⟩ := hcuts.cut_off
    simp only [hsource, Text.bytes_append, Nat.zero_add, Nat.add_right_cancel_iff] at hstop hlen
    rw [hstop, Position.ofIndex_of_lt (by omega)]
    exact ⟨rfl, before, c :: after, hsource, rfl⟩

end Token

namespace Program

/-- If the nodes of a program are related to themselves, so are the nodes that findings are about. -/
theorem places_of_like {K : Placing} (hK : ∀ i, K.calls i) {p : Program} (hp : p.Numbered)
    (h : p.Like K p) :
    ∃ a, p.analyse = .ok a ∧
      ∀ x ∈ a.diagnostics, ∃ cause n n', x = .atNode cause n ∧ K.place n n' := by
  obtain ⟨d, hwalk, hd⟩ := Program.drafted hp
  obtain ⟨res, hres, hstuck, _⟩ := Rule.resolve_of_kept (hd.kept hp)
  have hwalk := walk_of_after hwalk
  obtain ⟨d', _, hrelaid⟩ := relaid_of_like hK h hwalk
  obtain ⟨res', _, _, htold⟩ := hrelaid.resolve hres hstuck
  have hlike := (List.rel_append hrelaid.diagnostics htold).flip
  refine ⟨_, analyse_eq_ok hwalk hres, fun x hx => ?_⟩
  obtain ⟨x', hx'⟩ : ∃ x', x.Like K.place x' :=
    forall_of_forall₂ hlike (P := fun x => ∃ x', x.Like K.place x') (fun x' _ _ h => ⟨x', h⟩) x
      (List.mem_mergeSort.1 hx)
  cases hx' with
  | @atNode cause n n' hn => exact ⟨cause, n, n', rfl, hn⟩

theorem reported_of_walk {p : Program} {a : Analysis} (hp : p.Numbered) (ha : p.analyse = .ok a)
    (h : (Draft.after (do Builtin.declareAll; Walk.program p)).toOption.any (·.diagnostics ≠ []) = true) :
    a.diagnostics ≠ [] := by
  obtain ⟨d, hwalk, hd⟩ := Program.drafted hp
  obtain ⟨res, hres, _⟩ := Rule.resolve_of_kept (hd.kept hp)
  rw [analyse_eq_ok (walk_of_after hwalk) hres] at ha
  rw [hwalk] at h
  cases ha
  have hreported : d.diagnostics ≠ [] := by simpa [Except.toOption] using h
  obtain ⟨x, hx⟩ := List.exists_mem_of_ne_nil _ hreported
  exact List.ne_nil_of_mem (List.mem_mergeSort.2 (List.mem_append_left _ hx))

/-- Whatever is found about a text of less than 2^32 bytes, by cutting it into tokens, by reading these
or by analysing what was read, points into the text. -/
theorem findings_point (source file : String) (hlen : Text.bytes source.toList < 2 ^ 32) :
    (∀ x, Token.tokenize source file = .error x → x.PointsInto source file) ∧
    ∀ tokens, Token.tokenize source file = .ok tokens →
      (∀ x c, parse tokens file = .error (.rejected x) c → x.PointsInto source file) ∧
      ∀ p c, parse tokens file = .ok p c →
        ∃ a, p.analyse = .ok a ∧ ∀ x ∈ a.diagnostics, x.PointsInto source file := by
  refine ⟨fun x hx => ?_, fun tokens htokens => ?_⟩
  · exact (Token.within_of_refused hlen hx).pointsInto hlen
  have htiles := Token.tiles_of_tokenize hlen htokens
  refine ⟨fun x c hx => ?_, fun p c hp => ?_⟩
  · obtain ⟨i, hi⟩ := marks_of_rejected hx
    exact (hi ▸ (htiles.within_stream i).1 : x.span.start.Within source file).pointsInto hlen
  · have htwin := parse_twin (rfl : tokens.map Token.reading = tokens.map Token.reading) file
    rw [hp] at htwin
    cases htwin with
    | ok _ hlike =>
      obtain ⟨a, ha, hplaces⟩ := places_of_like (fun _ => trivial) (numbered_of_parse hp) hlike
      refine ⟨a, ha, fun x hx => Position.Within.pointsInto hlen ?_⟩
      obtain ⟨cause, n, n', rfl, hn⟩ := hplaces x hx
      obtain ⟨_, key, hstarts, _⟩ : StartsAlike _ _ n n' := hn
      cases hstarts with
      | token _ _ h => exact h ▸ (htiles.within_stream _).1
      | omitted _ _ h => exact h ▸ (htiles.within_stream _).2

/-- Texts with a character of several bytes: a string that is never closed, a function without name at
the end of the text, and an empty literal of which no type is known. -/
theorem findings_point_accent :
    (Text.bytes "\"é".toList < 2 ^ 32 ∧
      ∃ x, Token.tokenize "\"é" "main" = .error x ∧ x.PointsInto "\"é" "main") ∧
    (Text.bytes "\"é\" fun".toList < 2 ^ 32 ∧
      ∃ tokens x c, Token.tokenize "\"é\" fun" "main" = .ok tokens ∧
        parse tokens "main" = .error (.rejected x) c ∧ x.PointsInto "\"é\" fun" "main") ∧
    Text.bytes "/*é*/ return []".toList < 2 ^ 32 ∧
      ∃ tokens p c a, Token.tokenize "/*é*/ return []" "main" = .ok tokens ∧ parse tokens "main" = .ok p c ∧
        p.analyse = .ok a ∧ a.diagnostics ≠ [] ∧ ∀ x ∈ a.diagnostics, x.PointsInto "/*é*/ return []" "main" := by
  have hunclosed : Text.bytes "\"é".toList < 2 ^ 32 := by decide
  have hunnamed : Text.bytes "\"é\" fun".toList < 2 ^ 32 := by decide
  have hempty : Text.bytes "/*é*/ return []".toList < 2 ^ 32 := by decide
  refine ⟨⟨hunclosed, _, rfl, (findings_point _ _ hunclosed).1 _ rfl⟩,
    ⟨hunnamed, _, _, _, rfl, rfl, ((findings_point _ _ hunnamed).2 _ rfl).1 _ _ rfl⟩, hempty, ?_⟩
  obtain ⟨tokens, p, c, htokens, hp, htest⟩ := exists_of_reads "main" "/*é*/ return []"
    (fun p => (Draft.after (do Builtin.declareAll; Walk.program p)).toOption.any
      (·.diagnostics ≠ [])) (by decide +kernel)
  obtain ⟨a, ha, hpoint⟩ := ((findings_point _ _ hempty).2 _ htokens).2 _ _ hp
  exact ⟨tokens, p, c, a, htokens, hp, ha, reported_of_walk (numbered_of_parse hp) ha htest, hpoint⟩

/-- A long word and behind it, in the same line, a character that starts no token. -/
theorem tokenize_wideSource {n : Nat} (hn : n + 1 < 2 ^ 32) (file : String) :
    Token.tokenize (Diagnostic.wideSource (n + 1)) file =
      .error (.atPosition (.unrecognised "#") ⟨n + 1, file⟩) := by
  have hword : ∀ c ∈ List.replicate n 'q', Lexeme.isWordChar c = true := fun c hc => by
    rw [List.eq_of_mem_replicate hc]
    decide
  have hstands : Lexeme.Stands ⟨'q' :: List.replicate n 'q', .token _ _⟩ ['#'] :=
    Lexeme.Written.word (c := 'q') (by decide) hword (by simp [Lexeme.Ends]; decide)
  have hsplit := Lexeme.split_eq_iff.2 ⟨.cons hstands .nil, (rfl : Lexeme.first? ['#'] = none)⟩
  have hbytes : Text.bytes ('q' :: List.replicate n 'q') = n + 1 := by
    rw [← List.replicate_succ, Text.bytes_of_ascii (Diagnostic.isAscii_replicate _), List.length_replicate]
  have htext : (Diagnostic.wideSource (n + 1)).toList = 'q' :: List.replicate n 'q' ++ ['#'] := by
    rw [Diagnostic.wideSource, String.toList_ofList, List.replicate_succ]
  rw [Token.tokenize, htext, hsplit]
  simp only [Token.place, hbytes, Nat.zero_add, Position.ofIndex_of_lt hn]
  rfl

/-- A finding at the end of a line that is too long has no report. -/
theorem wide_finding_breaks :
    Text.bytes (Diagnostic.wideSource Diagnostic.maxWidth).toList < 2 ^ 32 ∧
    ∃ x, Token.tokenize (Diagnostic.wideSource Diagnostic.maxWidth) "main" = .error x ∧
      x.render (Diagnostic.wideSource Diagnostic.maxWidth) = .error .wideField := by
  refine ⟨?_, _, tokenize_wideSource (n := 65534) (by decide) "main", Diagnostic.render_wideSource (Nat.le_refl _) _ _⟩
  rw [Diagnostic.wideSource, String.toList_ofList, Text.bytes_append,
    Text.bytes_of_ascii (Diagnostic.isAscii_replicate _), List.length_replicate]
  decide

end Program

end ScriptAnalysis
