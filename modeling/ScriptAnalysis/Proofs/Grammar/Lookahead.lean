import ScriptAnalysis.Proofs.Grammar.Suffixes

/-!
The lookahead behind `<` agrees with the parser that it guards. It is true of exactly the tokens that are
type arguments, `>` and a parenthesis, and these tokens are then read without fail
(`Parser.templateCall_lookahead`).
-/
namespace ScriptAnalysis

open Word (firstKind)

theorem Word.suffixes_stop {braces : Bool} {ws rest : List Word} {w v : Word}
    (h : (suffixes braces ws).2 = w :: v :: rest) : suffix? braces w v = none := by
  fun_induction suffixes braces ws with
  | case1 _ _ _ _ _ ih => exact ih h
  | case2 _ _ _ hnone =>
    cases h
    exact hnone
  | case3 ws hshort => exact absurd h (hshort w v rest)

/-- What the lookahead accepts behind a type, where no suffix stands. -/
theorem TypeArgumentStage.accepts_suffix {ws : List Word} (h : suffix.accepts (ws.map Word.kind))
    (hstop : ∀ w v rest, ws = w :: v :: rest → Word.suffix? true w v = none) :
    ∃ w rest, ws = w :: rest ∧ (w.kind = .greater ∧ firstKind rest = .openParen ∨
      w.kind = .comma ∧ name.accepts (rest.map Word.kind)) := by
  cases ws with
  | nil => cases h
  | cons w rest =>
    refine ⟨w, rest, rfl, ?_⟩
    rw [List.map_cons] at h
    cases hk : w.kind with
    | greater =>
      rw [hk] at h
      cases rest with
      | nil => cases h
      | cons v rest => exact .inl ⟨rfl, of_decide_eq_true h⟩
    | comma =>
      rw [hk] at h
      exact .inr ⟨rfl, h⟩
    | openBracket | openCurly =>
      rw [hk] at h
      cases rest with
      | nil => cases h
      | cons v rest =>
        have hnone := hstop w v rest rfl
        rw [List.map_cons] at h
        cases hv : v.kind <;> rw [hv] at h <;> first | cases h | simp [Word.suffix?, hk, hv] at hnone
    | _ =>
      rw [hk] at h
      cases h

namespace Parser

variable {c d : Cursor} {t : TypeExpr} {types : List TypeExpr}

/-- Type arguments of a call: written types, possibly none, and `>` with a parenthesis behind them. -/
structure TypeArguments (c : Cursor) (types : List TypeExpr) (d : Cursor) : Prop where
  types : types = [] ∧ d = c ∨ TypesRead c types d
  close : d.kind = .greater
  paren : d.peek 1 = .openParen

/-- A type name that the lookahead accepts is read with its suffixes; then comes a comma, or `>` and a
parenthesis. -/
theorem typeExpr_of_accepts (hset : c.setSuffix = true)
    (h : TypeArgumentStage.name.accepts (c.words.map Word.kind)) :
    ∃ t d, typeExpr .lowest c = .ok t d ∧ d.setSuffix = true ∧
      (d.kind = .greater ∧ d.peek 1 = .openParen ∨
        d.kind = .comma ∧ TypeArgumentStage.name.accepts (d.next.words.map Word.kind)) := by
  obtain ⟨text, rest, hwords⟩ : ∃ text rest, c.words = ⟨.identifier, text⟩ :: rest := by
    rcases hwords : c.words with _ | ⟨⟨kind, text⟩, rest⟩
    · rw [hwords] at h
      cases h
    · rw [hwords, List.map_cons] at h
      cases kind with
      | identifier => exact ⟨text, rest, rfl⟩
      | _ => cases h
  obtain ⟨t, d, hread, _, hd⟩ := run_typeExpr hwords
  rw [hset] at hd
  rw [(located_of_typeExpr hread).words, accepts_typeWords (.inr rfl)] at h
  obtain ⟨w, rest', hrest, hcases⟩ := TypeArgumentStage.accepts_suffix h fun w v tail htail =>
    Word.suffixes_stop (hd.words.symm.trans htail)
  have hkind : d.kind = w.kind := by rw [Cursor.kind_eq, hrest, Word.firstKind_cons]
  refine ⟨t, d, hread, hd.setSuffix.trans hset, ?_⟩
  rw [hkind, Cursor.peek_one hrest, (Cursor.onward_next hrest).words]
  exact hcases

theorem typeArguments_of_accepts (hset : c.setSuffix = true)
    (h : TypeArgumentStage.name.accepts (c.words.map Word.kind)) :
    ∃ types d, TypesRead c types d ∧ d.kind = .greater ∧ d.peek 1 = .openParen := by
  induction hn : c.words.length using Nat.strong_induction_on generalizing c with
  | _ n ih =>
    obtain ⟨t, d, hread, hdset, ⟨hclose, hparen⟩ | ⟨hcomma, hmore⟩⟩ := typeExpr_of_accepts hset h
    · exact ⟨[t], d, .last hread, hclose, hparen⟩
    · have hbehind := Cursor.onward_next (Cursor.words_mark hcomma rfl)
      have hlt : d.next.words.length < n := by
        rw [← hn, (located_of_typeExpr hread).words, Cursor.words_mark hcomma rfl, List.length_append,
          List.length_cons]
        omega
      obtain ⟨types, e, hrest, hend⟩ := ih _ hlt (hbehind.setSuffix.trans hdset) hmore rfl
      exact ⟨t :: types, e, .more hread hcomma hrest, hend⟩

/-- Before another token than `>` the lookahead asks for a type name. -/
theorem accepts_start (hclose : c.kind ≠ .greater) :
    TypeArgumentStage.start.accepts (c.words.map Word.kind) =
      TypeArgumentStage.name.accepts (c.words.map Word.kind) := by
  rw [Cursor.kind_eq] at hclose
  rcases hwords : c.words with _ | ⟨⟨kind, text⟩, rest⟩
  · rfl
  · rw [hwords] at hclose
    cases kind with
    | greater => exact absurd rfl hclose
    | _ => rfl

/-- The lookahead is true of all type arguments and of nothing else. -/
theorem accepts_iff_typeArguments (hset : c.setSuffix = true) :
    TypeArgumentStage.start.accepts (c.words.map Word.kind) ↔ ∃ types d, TypeArguments c types d := by
  constructor
  · intro h
    by_cases hclose : c.kind = .greater
    · rw [accepts_greater (.inl rfl) hclose] at h
      exact ⟨[], c, .inl ⟨rfl, rfl⟩, hclose, of_decide_eq_true h⟩
    · rw [accepts_start hclose] at h
      obtain ⟨types, d, htypes, hend, hparen⟩ := typeArguments_of_accepts hset h
      exact ⟨types, d, .inr htypes, hend, hparen⟩
  · rintro ⟨types, d, htypes, hclose, hparen⟩
    exact accepts_typeArguments htypes hclose hparen

/-- The lookahead at `<` is true if and only if type arguments, `>` and a parenthesis follow, and then the
parser of template calls reads exactly these. What is left to it is to read the arguments. -/
theorem templateCall_lookahead (hset : c.setSuffix = true) {left : Expr} (hleft : left.isNamed)
    (hless : c.kind = .less) :
    (c.atTemplateCall left ↔ ∃ types d, TypeArguments c.next types d) ∧
      ∀ types d, TypeArguments c.next types d → ∀ expr : Power → Parser Expr,
        templateCall expr left c = (do
          let arguments ← exprList expr .closeParen
          return Expr.templateCall (← nodeFrom left.span.start) left types arguments) d.next.next ∧
        ∀ failure e, templateCall expr left c = .error failure e ↔
          exprList expr .closeParen d.next.next = .error failure e := by
  have hwords := Cursor.words_mark hless rfl
  refine ⟨?_, fun types d htypes expr => ?_⟩
  · rw [← accepts_iff_typeArguments ((Cursor.onward_next hwords).setSuffix.trans hset),
      Cursor.atTemplateCall, Cursor.typeArgumentsAhead_kindsAhead hwords,
      TypeArgumentStage.typeArgumentsAhead_eq_accepts, hless, hleft]
    simp
  · have hparen : d.next.kind = .openParen := by
      rw [Cursor.kind_next (by rw [htypes.close]; decide), htypes.paren]
    rw [templateCall, run_discard_expect hless, run_bind (run_typeArguments htypes.types htypes.close), run_discard_expect hparen]
    refine ⟨rfl, fun failure e => ?_⟩
    cases hlist : exprList expr .closeParen d.next.next with
    | ok arguments e' =>
      rw [run_bind hlist]
      constructor <;> rintro ⟨⟩
    | error failure' e' => simp only [Bind.bind, EStateM.bind, hlist, EStateM.Result.error.injEq]

/-- The lookahead sees two type arguments in `f<A{}, B>(`, and the parser fails behind them only. -/
theorem templateCall_lookahead_end :
    ∃ (tokens : List Token) (c : Cursor) (left : Expr), tokens.map Token.kind =
        [.identifier, .less, .identifier, .openCurly, .closeCurly, .comma, .identifier, .greater,
          .openParen, .eof] ∧
      c.stream = .ofList tokens "main" ∧ c.index = 1 ∧ c.setSuffix = true ∧ left.isNamed ∧
      c.kind = .less ∧ c.atTemplateCall left ∧
      ∃ types d, TypeArguments c.next types d ∧
        ∀ failure e, templateCall expr left c = .error failure e ↔
          exprList expr .closeParen d.next.next = .error failure e := by
  let tokens : List Token := [⟨.identifier, "f", .null⟩, ⟨.less, "<", .null⟩, ⟨.identifier, "A", .null⟩,
    ⟨.openCurly, "\x7b", .null⟩, ⟨.closeCurly, "\x7d", .null⟩, ⟨.comma, ",", .null⟩,
    ⟨.identifier, "B", .null⟩, ⟨.greater, ">", .null⟩, ⟨.openParen, "(", .null⟩, ⟨.eof, "EOF", .null⟩]
  let c : Cursor := ⟨.ofList tokens "main", "main", 1, 0, true⟩
  let left : Expr := .symbol ⟨.blank, "f"⟩
  have hleft : left.isNamed := rfl
  obtain ⟨hahead, hrun⟩ := templateCall_lookahead (c := c) rfl hleft rfl
  have hat : c.atTemplateCall left := by decide
  obtain ⟨types, d, htypes⟩ := hahead.1 hat
  exact ⟨tokens, c, left, rfl, rfl, rfl, rfl, hleft, rfl, hat, types, d, htypes, (hrun types d htypes expr).2⟩

end Parser

end ScriptAnalysis
