import ScriptAnalysis.Proofs.Grammar.Repeated

/-!
Result types in front of a body. Behind a declaration without parameters stand the words of a type and
those of a block, and then the text ends. The declaration is read as written unless the type has a set
suffix and the block is empty (`Parser.program_declares_iff`).
-/
namespace ScriptAnalysis

open Word (mark firstKind)

theorem Word.ofSuffixes_append (cs ds : List Container) :
    ofSuffixes (cs ++ ds) = ofSuffixes cs ++ ofSuffixes ds :=
  List.flatMap_append

namespace Parser

section Suffixes

variable {cs ds es : List Container} {text : String}

/-- In front of a block that is not empty all suffixes belong to the type. -/
theorem resultAt_of_body {inside : List Word} (h : firstKind inside ≠ .closeCurly) :
    resultAt text (Word.ofSuffixes cs ++ mark .openCurly :: inside) =
      ((TypeExpr.name .blank text).wrap cs, mark .openCurly :: inside) := by
  have hend : Word.suffixes true (mark .openCurly :: inside) = ([], mark .openCurly :: inside) := by
    cases inside with
    | nil => rfl
    | cons v rest =>
      refine Word.suffixes_end ?_
      unfold Word.suffix?
      split
      next hopen _ => cases hopen
      next hclose => exact absurd hclose h
      next => rfl
  have htaken : Word.suffixes true (Word.ofSuffixes cs ++ mark .openCurly :: inside) =
      (cs, mark .openCurly :: inside) := by
    rw [Word.suffixes_append cs (.inl rfl), hend, List.append_nil]
  have hbody : firstKind (mark .openCurly :: inside) = .openCurly := rfl
  simp only [resultAt, htaken, hbody, decide_true]

/-- Where only suffixes follow, the type ends in front of the first set: the braces of an empty block
look like one more set, and then no body is left. -/
theorem resultAt_of_suffixes (h : .set ∉ ds) :
    resultAt text (Word.ofSuffixes (ds ++ .set :: es)) =
      ((TypeExpr.name .blank text).wrap ds,
        mark .openCurly :: mark .closeCurly :: Word.ofSuffixes es) := by
  have htaken : Word.suffixes true (Word.ofSuffixes (ds ++ .set :: es)) = (ds ++ .set :: es, []) := by
    have hall : Word.suffixes true (Word.ofSuffixes (ds ++ .set :: es) ++ []) = _ :=
      Word.suffixes_append (ds ++ .set :: es) (.inl rfl) []
    simpa [Word.suffixes] using hall
  have hagain : Word.suffixes false (Word.ofSuffixes (ds ++ .set :: es)) =
      (ds, mark .openCurly :: mark .closeCurly :: Word.ofSuffixes es) := by
    have hend : Word.suffixes false (Word.ofSuffixes (.set :: es)) =
        ([], Word.ofSuffixes (.set :: es)) := Word.suffixes_end rfl
    rw [Word.ofSuffixes_append, Word.suffixes_append ds (.inr h), hend, List.append_nil]
    rfl
  have hend : firstKind [] ≠ .openCurly := by decide
  simp only [resultAt, htaken, hagain, hend, decide_false]

end Suffixes

section Parts

variable {mid rest : List Word} {stmt : Parser Stmt}

theorem yields_resultType (text : String) (ws : List Word) :
    Yields resultType (mark .colon :: ⟨.identifier, text⟩ :: ws) (resultAt text ws).2
      (·.bare = (resultAt text ws).1) := by
  intro c hc hset
  obtain ⟨t, c', hrun, ht, hc'⟩ := run_resultType hset hc
  exact ⟨t, c', hrun, hc'.words, hc'.setSuffix.trans hset, ht⟩

theorem yields_noItems {α : Type} (close : TokenKind) (item : Parser α) (ws : List Word) :
    Yields (commaSeparated close item) (mark close :: ws) ws (· = []) := by
  have hend : Yields (commaStep close item []) (mark close :: ws) (mark close :: ws)
      fun r => ∃ all, r = .inr all ∧ all = [] := by
    refine yields_kind ?_
    rw [if_pos (by rfl)]
    exact yields_pure ⟨_, rfl, rfl⟩
  refine (yields_iterate fun _ => yields_end hend).bind ?_
  rintro all rfl
  refine (yields_discard (yields_expect close _ ws)).bind ?_
  intro _ _
  exact yields_pure rfl

theorem yields_noParameters (ws : List Word) :
    Yields parameters (mark .openParen :: mark .closeParen :: ws) ws (· = []) := by
  refine (yields_discard (yields_expect .openParen _ _)).bind ?_
  intro _ _
  exact yields_noItems .closeParen binder ws

/-- Braces with nothing between them are an empty block, whatever follows. -/
theorem yields_emptyBlock {w v : Word} (hw : w.kind = .openCurly) (hv : v.kind = .closeCurly)
    (ws : List Word) : Yields (blockOf stmt) (w :: v :: ws) ws (·.body = []) := by
  have hend : Yields (blockStep stmt []) (v :: ws) (v :: ws)
      fun r => ∃ all, r = .inr all ∧ all = [] := by
    refine yields_kind ?_
    rw [Word.firstKind_cons, hv]
    exact yields_pure ⟨_, rfl, rfl⟩
  obtain ⟨_, text⟩ := w
  obtain ⟨_, text'⟩ := v
  obtain rfl := hw
  obtain rfl := hv
  refine (yields_expect .openCurly text _).bind ?_
  intro start _
  refine (yields_iterate fun _ => yields_end hend).bind ?_
  rintro all rfl
  refine (yields_discard (yields_expect .closeCurly text' ws)).bind ?_
  intro _ _
  refine (yields_nodeFrom _).bind ?_
  intro node _
  exact yields_pure rfl

end Parts

end Parser

section Declarations

/-- The words of a declaration without parameters up to its result type: those of a function, or of a
template without type parameters. -/
def Word.declaration (generic : Bool) (name : String) : List Word :=
  (if generic then [mark .template, mark .less, mark .greater] else []) ++
    [mark .fn, ⟨.identifier, name⟩, mark .openParen, mark .closeParen, mark .colon]

/-- A statement that declares a function, or a template, without parameters; the result type and the
body are given without nodes. -/
inductive Stmt.Declares (name : String) (result : TypeExpr) (body : List Stmt) : Bool → Stmt → Prop
  | function {node block : Node} {type : TypeExpr} {inside : List Stmt} (htype : type.bare = result)
      (hbody : bareAll inside = body) :
    Declares name result body false (.function node ⟨none, name, [], type⟩ block inside)
  | template {node block : Node} {type : TypeExpr} {inside : List Stmt} (htype : type.bare = result)
      (hbody : bareAll inside = body) :
    Declares name result body true (.template node ⟨[], name, [], type⟩ block inside)

variable {generic : Bool} {name text : String} {result : TypeExpr} {mid rest : List Word}
  {body : List Stmt}

theorem Stmt.Declares.result_eq {s : Stmt} {result' : TypeExpr} {body' : List Stmt}
    (h : s.Declares name result body generic) (h' : s.Declares name result' body' generic) :
    result = result' := by
  cases h with
  | function htype =>
    cases h' with
    | function htype' => exact htype.symm.trans htype'
  | template htype =>
    cases h' with
    | template htype' => exact htype.symm.trans htype'

namespace Parser

/-- What functions and templates have in common: empty parentheses, a result type and a block. -/
theorem yields_signature {stmt : Parser Stmt} {ws : List Word}
    {f : List Binder → TypeExpr → Block → Parser Stmt} {Q : Stmt → Prop}
    (hresult : resultAt text ws = (result, mid))
    (hblock : Yields (blockOf stmt) mid rest (·.bare = body))
    (hf : ∀ t b, t.bare = result → b.bare = body → Yields (f [] t b) rest rest Q) :
    Yields (do let ps ← parameters; let t ← resultType; let b ← blockOf stmt; f ps t b)
      (mark .openParen :: mark .closeParen :: mark .colon :: ⟨.identifier, text⟩ :: ws) rest Q := by
  refine (yields_noParameters _).bind ?_
  rintro _ rfl
  have htype := yields_resultType text ws
  rw [hresult] at htype
  refine htype.bind ?_
  intro t ht
  refine hblock.bind ?_
  intro b hb
  exact hf t b ht hb

theorem yields_declaration {depth : Nat} {ws : List Word}
    (hresult : resultAt text ws = (result, mid))
    (hblock : Yields (blockOf (stmtWithin depth)) mid rest (·.bare = body)) :
    Yields (stmtWithin (depth + 1)) (Word.declaration generic name ++ ⟨.identifier, text⟩ :: ws) rest
      (Stmt.Declares name result body generic) := by
  refine yields_kind ?_
  cases generic with
  | false =>
    refine yields_get ?_
    intro c _ _
    refine (yields_discard (yields_expect .fn _ _)).bind ?_
    intro _ _
    refine (yields_name name _).bind ?_
    rintro token rfl
    refine yields_signature hresult hblock ?_
    intro t b ht hb
    refine (yields_nodeFrom _).bind ?_
    intro node _
    exact yields_pure (.function ht hb)
  | true =>
    refine (yields_advance _ _).bind ?_
    intro start _
    refine (yields_discard (yields_expect .less _ _)).bind ?_
    intro _ _
    refine (yields_noItems .greater binder _).bind ?_
    rintro _ rfl
    refine (yields_discard (yields_expect .fn _ _)).bind ?_
    intro _ _
    refine (yields_name name _).bind ?_
    rintro token rfl
    refine yields_signature hresult hblock ?_
    intro t b ht hb
    refine (yields_nodeFrom _).bind ?_
    intro node _
    exact yields_pure (.template ht hb)

/-- The statement is read with every depth that the words allow. -/
theorem yields_stmt {input : List Word} {Q : Stmt → Prop}
    (h : ∀ depth, input.length ≤ depth → Yields (stmtWithin (depth + 1)) input rest Q) :
    Yields stmt input rest Q := by
  refine yields_get ?_
  intro c hc _
  have := c.length_words_le
  rw [hc] at this
  exact h _ this

section Programs

variable {ws : List Word} {Q : Stmt → Prop}

theorem yields_programStep (hfirst : firstKind ws ≠ .eof) (h : Yields stmt ws rest Q) :
    Yields (programStep []) ws rest fun r => ∃ body, r = .inl body ∧ ∃ s, body = [s] ∧ Q s := by
  refine yields_kind ?_
  rw [if_neg hfirst]
  refine h.bind ?_
  intro s hs
  exact yields_pure ⟨[s], rfl, s, rfl, hs⟩

theorem yields_program (hfirst : firstKind ws ≠ .eof) (h : Yields stmt ws [] Q) :
    Yields program ws [] fun p => ∃ s, p.body = [s] ∧ Q s := by
  have hend (body : List Stmt) : Yields (programStep body) [] [] fun r => ∃ all, r = .inr all ∧
      all = body.reverse := by
    refine yields_kind ?_
    rw [if_pos (by rfl)]
    exact yields_pure ⟨_, rfl, rfl⟩
  have hlength : 0 < ws.length := List.length_pos_iff.2 fun hnil => hfirst (by rw [hnil]; rfl)
  have hloop : Yields (iterate programStep []) ws [] fun body => ∃ s, body = [s] ∧ Q s := by
    refine yields_iterate fun fuel hfuel =>
      yields_go_on (yields_programStep hfirst h) hlength hfuel ?_
    rintro body fuel ⟨s, rfl, hs⟩ hfuel
    refine (yields_end (hend [s]) hfuel).mono ?_
    rintro all rfl
    exact ⟨s, rfl, hs⟩
  have hfresh : Yields freshId ws ws fun _ => True :=
    fun _ hc hset => ⟨_, _, rfl, hc, hset, trivial⟩
  refine hfresh.bind ?_
  intro id _
  refine hloop.bind ?_
  rintro body ⟨s, rfl, hs⟩
  refine yields_get ?_
  intro c _ _
  exact yields_pure ⟨s, rfl, hs⟩

/-- More statements come behind those that have been read. -/
theorem head?_programLoop {s : Stmt} {fuel : Nat} {body all : List Stmt} {c d : Cursor}
    (h : repeatWithin programStep fuel body c = .ok all d) (hbody : body.getLast? = some s) :
    all.head? = some s := by
  induction fuel generalizing body c with
  | zero => cases h
  | succ fuel ih =>
    obtain ⟨r, e, hstep, h⟩ := exists_of_bind h
    rw [programStep, run_kind] at hstep
    split at hstep
    · cases hstep
      cases h
      simpa using hbody
    · obtain ⟨s', e', _, hstep⟩ := exists_of_bind hstep
      cases hstep
      exact ih h (by simp [List.getLast?_cons, hbody])

theorem first_of_program {c c' : Cursor} {p : Program} (hfirst : firstKind ws ≠ .eof)
    (hc : c.words = ws) (hset : c.setSuffix = true) (h : Yields stmt ws rest Q)
    (hrun : program c = .ok p c') :
    ∃ s more, p.body = s :: more ∧ Q s := by
  obtain ⟨id, d, hfresh, hrun⟩ := exists_of_bind hrun
  cases hfresh
  obtain ⟨body, e, hloop, hrun⟩ := exists_of_bind hrun
  cases hrun
  obtain ⟨r, d, hstep, hloop⟩ := exists_of_bind (show (programStep [] >>= _) _ = _ from hloop)
  obtain ⟨_, _, hstep', _, _, _, rfl, s, rfl, hs⟩ :=
    yields_programStep hfirst h { c with nextId := c.nextId + 1 } hc hset
  obtain ⟨rfl, rfl⟩ := EStateM.Result.ok.inj (hstep.symm.trans hstep')
  obtain ⟨more, rfl⟩ := List.head?_eq_some_iff.1 (head?_programLoop hloop rfl)
  exact ⟨s, more, rfl, hs⟩

end Programs

/-- The words of a block to the end of the text: braces if it is empty, and else something stands behind
the first brace that does not close it. -/
theorem words_of_block {b : Block} {d e : Cursor} (h : block d = .ok b e) (hset : d.setSuffix = true)
    (he : e.words = []) :
    b.body = [] ∧ d.words = Word.ofSuffixes [.set] ∨
      b.body ≠ [] ∧ ∃ inside, d.words = mark .openCurly :: inside ∧ firstKind inside ≠ .closeCurly := by
  obtain ⟨inside, hd, hmany⟩ := ((runs_block d).of_ok h).reads
  by_cases hbody : b.body = []
  · left
    rw [hbody, he] at hmany
    cases hmany
    exact ⟨hbody, hd⟩
  · right
    refine ⟨hbody, inside, hd, ?_⟩
    intro hclose
    cases inside with
    | nil => cases hclose
    | cons v rest =>
      have hyields : Yields (blockOf (stmtWithin (d.remaining + 1))) (mark .openCurly :: v :: rest) rest
          (·.body = []) := yields_emptyBlock rfl hclose rest
      obtain ⟨b', _, hrun, _, _, hempty⟩ := hyields d hd hset
      obtain ⟨rfl, _⟩ := EStateM.Result.ok.inj (h.symm.trans hrun)
      exact hbody hempty

section Ends

variable {type : TypeExpr} {b : Block} {d e : Cursor}

/-- A result type in front of a block that ends the text, unless the one has a set suffix and the other
is empty. -/
theorem resultAt_eq (hblock : block d = .ok b e) (hd : d.setSuffix = true) (he : e.words = [])
    (h : .set ∉ type.suffixes ∨ b.body ≠ []) :
    resultAt type.text (Word.ofSuffixes type.suffixes ++ d.words) = (type.bare, d.words) := by
  rw [type.bare_eq_wrap]
  rcases words_of_block hblock hd he with ⟨hempty, hwords⟩ | ⟨_, inside, hwords, hinside⟩
  · have hset := h.resolve_right (not_not.2 hempty)
    rw [hwords, ← Word.ofSuffixes_append, resultAt_of_suffixes hset]
    rfl
  · rw [hwords, resultAt_of_body hinside]

theorem yields_declared (hblock : block d = .ok b e) (hd : d.setSuffix = true) (he : e.words = [])
    (h : .set ∉ type.suffixes ∨ b.body ≠ []) :
    Yields stmt (Word.declaration generic name ++ (type.words ++ d.words)) []
      (Stmt.Declares name type.bare b.bare generic) := by
  refine yields_stmt ?_
  intro depth hdepth
  simp only [List.length_append] at hdepth
  have hagain := yields_block hblock hd (show d.words.length ≤ depth by omega)
  rw [he] at hagain
  rw [type.words_eq, List.cons_append]
  exact yields_declaration (resultAt_eq hblock hd he h) hagain

/-- The first set suffix is read as the body. -/
theorem yields_cutShort {ds es : List Container} (htype : type.suffixes = ds ++ .set :: es)
    (hds : .set ∉ ds) :
    Yields stmt (Word.declaration generic name ++ (type.words ++ Word.ofSuffixes [.set]))
      (Word.ofSuffixes (es ++ [.set]))
      (Stmt.Declares name ((TypeExpr.name .blank type.text).wrap ds) [] generic) := by
  refine yields_stmt ?_
  intro depth _
  have hresult : resultAt type.text (Word.ofSuffixes type.suffixes ++ Word.ofSuffixes [.set]) =
      ((TypeExpr.name .blank type.text).wrap ds,
        mark .openCurly :: mark .closeCurly :: Word.ofSuffixes (es ++ [.set])) := by
    rw [← Word.ofSuffixes_append, htype, List.append_assoc, List.cons_append,
      resultAt_of_suffixes hds]
  rw [type.words_eq, List.cons_append]
  refine yields_declaration hresult ((yields_emptyBlock rfl rfl _).mono ?_)
  intro b hb
  rw [Block.bare, hb, Stmt.bareAll]

end Ends

theorem firstKind_declaration (generic : Bool) (name : String) (ws : List Word) :
    firstKind (Word.declaration generic name ++ ws) ≠ .eof := by
  cases generic with
  | false => exact (by decide : TokenKind.fn ≠ .eof)
  | true => exact (by decide : TokenKind.template ≠ .eof)

/-- A declaration without parameters whose result type and block end the text is read as written unless
the type has a set suffix and the block is empty. In that case the braces of the first set become the
body, and what is read of the type ends in front of them. -/
theorem program_declares_iff (generic : Bool) (name : String) (type : TypeExpr) (b : Block)
    (c d e : Cursor) (hblock : block d = .ok b e) (hd : d.setSuffix = true) (he : e.words = [])
    (hc : c.setSuffix = true)
    (hwords : c.words = Word.declaration generic name ++ (type.words ++ d.words)) :
    ((∃ p c' s, program c = .ok p c' ∧ p.body = [s] ∧ s.Declares name type.bare b.bare generic) ↔
        (.set ∉ type.suffixes ∨ b.body ≠ [])) ∧
      ∀ ds es, type.suffixes = ds ++ .set :: es → .set ∉ ds → b.body = [] →
        ∀ p c', program c = .ok p c' → ∃ s more, p.body = s :: more ∧
          s.Declares name ((TypeExpr.name .blank type.text).wrap ds) [] generic := by
  have hfirst := firstKind_declaration generic name (type.words ++ d.words)
  have hcut : ∀ ds es, type.suffixes = ds ++ .set :: es → .set ∉ ds → b.body = [] →
      ∀ p c', program c = .ok p c' → ∃ s more, p.body = s :: more ∧
        s.Declares name ((TypeExpr.name .blank type.text).wrap ds) [] generic := by
    intro ds es htype hds hempty p c' hrun
    have hbraces : d.words = Word.ofSuffixes [.set] :=
      ((words_of_block hblock hd he).resolve_right fun h => h.1 hempty).2
    rw [hbraces] at hwords hfirst
    exact first_of_program hfirst hwords hc (yields_cutShort htype hds) hrun
  refine ⟨⟨?_, ?_⟩, hcut⟩
  · rintro ⟨p, c', s, hrun, hbody, hs⟩
    by_contra hboth
    rw [not_or, not_not, not_not] at hboth
    obtain ⟨ds, es, htype, hds⟩ := List.eq_append_cons_of_mem hboth.1
    obtain ⟨s', more, hbody', hs'⟩ := hcut ds es htype hds hboth.2 p c' hrun
    obtain ⟨rfl, _⟩ := List.cons.inj (hbody.symm.trans hbody')
    have hsuffixes : type.suffixes = ds := by
      simpa [TypeExpr.suffixes_bare, TypeExpr.suffixes_wrap, TypeExpr.suffixes] using
        congrArg TypeExpr.suffixes (hs.result_eq hs')
    exact hds (hsuffixes ▸ hboth.1)
  · intro h
    obtain ⟨p, c', hrun, _, _, s, hbody, hs⟩ :=
      yields_program hfirst (yields_declared hblock hd he h) c hwords hc
    exact ⟨p, c', s, hrun, hbody, hs⟩

/-- A template with the result type `Int{}` and a return in its body, and a function with the same result
type and an empty body. -/
theorem program_declares_iff_set :
    (∃ p c' s, program (Cursor.ofWords (Word.declaration true "f" ++ [⟨.identifier, "Int"⟩, mark .openCurly,
        mark .closeCurly, mark .openCurly, mark .returnWord, mark .closeCurly])) = .ok p c' ∧
      p.body = [s] ∧ s.Declares "f" (.container .blank .set (.name .blank "Int"))
        [.ret .blank none] true) ∧
    ∃ p c' s more, program (Cursor.ofWords (Word.declaration false "f" ++ [⟨.identifier, "Int"⟩,
        mark .openCurly, mark .closeCurly, mark .openCurly, mark .closeCurly])) = .ok p c' ∧
      p.body = s :: more ∧ s.Declares "f" (.name .blank "Int") [] false := by
  let type : TypeExpr := .container .blank .set (.name .blank "Int")
  constructor
  · obtain ⟨b, e, hblock, he, hb⟩ : ∃ b e, block (Cursor.ofWords [mark .openCurly, mark .returnWord,
        mark .closeCurly]) = .ok b e ∧ e.words = [] ∧ b.bare = [.ret .blank none] :=
      ⟨_, _, rfl, by decide +kernel, rfl⟩
    have hne : b.body ≠ [] := by
      intro hempty
      rw [Block.bare, hempty] at hb
      cases hb
    rw [← hb]
    exact (program_declares_iff true "f" type b _ _ e hblock rfl he rfl rfl).1.2 (.inr hne)
  · obtain ⟨b, e, hblock, he, hb⟩ : ∃ b e, block (Cursor.ofWords [mark .openCurly, mark .closeCurly]) = .ok b e ∧
        e.words = [] ∧ b.body = [] :=
      ⟨_, _, rfl, by decide +kernel, rfl⟩
    obtain ⟨p, c', hrun⟩ := exists_of_succeeds program (Cursor.ofWords (Word.declaration false "f" ++
      (type.words ++ [mark .openCurly, mark .closeCurly]))) (by decide +kernel)
    obtain ⟨s, more, hbody, hs⟩ := (program_declares_iff false "f" type b _ _ e hblock rfl he rfl
      rfl).2 [] [] rfl (by decide) hb p c' hrun
    exact ⟨p, c', s, more, hrun, hbody, hs⟩

/-- Whether a program is a function without a set in its result type, and a block. -/
def isFunctionAndBlock (p : Program) : Bool :=
  match p.body with
  | [.function _ ⟨none, "f", [], .name _ "Int"⟩ _ [], .block _ []] => true
  | _ => false

/-- A function with the result type `Int{}` and an empty body is read as a function with the result type
`Int` and an empty body, with a block of its own behind it. -/
theorem program_splits_set :
    ∃ tokens p c, Token.tokenize "fun f(): Int\x7b\x7d \x7b\x7d" "main.si" = .ok tokens ∧
      Program.parse tokens "main.si" = .ok p c ∧ Stmt.bareAll p.body =
        [.function .blank ⟨none, "f", [], .name .blank "Int"⟩ .blank [], .block .blank []] := by
  obtain ⟨tokens, p, c, htokens, hparse, htest⟩ := Program.exists_of_reads "main.si"
    "fun f(): Int\x7b\x7d \x7b\x7d" isFunctionAndBlock (by decide +kernel)
  refine ⟨tokens, p, c, htokens, hparse, ?_⟩
  unfold isFunctionAndBlock at htest
  split at htest
  next hbody => rw [hbody]; rfl
  next => cases htest

end Parser

end Declarations

end ScriptAnalysis
