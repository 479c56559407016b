import ScriptAnalysis.Proofs.Grammar.Parallel

/-!
Expressions read from two streams in step. Each production keeps what relates its parts; nesting takes a
word, so depths above the number of words are enough (`Parser.pairs_exprWithin`).
-/
namespace ScriptAnalysis

namespace Parser

open Pairing (Takes)

variable {A : Pairing} {c c' : Cursor}

/-- The number of a token is one node, wherever it is told to start. -/
theorem pairs_number (hc : A.near c c') {t t' : Token} (hvalue : t.value = t'.value) (negative : Bool)
    {x x' : Position}
    (hplace : ∀ y y', A.place ⟨⟨c.nextId⟩, ⟨x, y⟩⟩ ⟨⟨c'.nextId⟩, ⟨x', y'⟩⟩) :
    Pairs A (number t negative x) (number t' negative x') c c' fun e e' d =>
      A.expr e e' ∧ d.ahead = c.ahead := by
  obtain ⟨text, htext⟩ : ∃ text, text = if negative then "-" ++ t'.value else t'.value := ⟨_, rfl⟩
  simp only [number, hvalue, ← htext]
  split
  · cases Numeral.decimal? text.toList with
    | none => exact pairs_reject (A.blame_refl _)
    | some value => exact pairs_nodeAt hc ⟨A.float (hplace _ _), rfl⟩
  · cases Numeral.integer? text.toList with
    | none => exact pairs_reject (A.blame_refl _)
    | some value => exact pairs_nodeAt hc ⟨A.int (hplace _ _), rfl⟩

theorem pairs_reference (hc : A.near c c') : Pairs A reference reference c c'
    (Takes (fun r r' => A.place r.node r'.node ∧ r.name = r'.name) c) := by
  refine pairs_name hc (A.blame_unexpected hc) fun hk hvalue hpast => ?_
  refine pairs_nodeAt hpast.near ⟨⟨?_, hvalue⟩, hpast.lt⟩
  exact A.start hc hpast.near (by rw [hk]; decide) (Cursor.not_atBody hk (by decide)) _ _

theorem pairs_negativeNumber (hc : A.near c c') (hk : c.kind = .dash) :
    Pairs A negativeNumber negativeNumber c c' (Takes A.expr c) := by
  refine pairs_advance hc (by rw [hk]; decide) fun hpast => pairs_kind hpast.near ?_
  split
  · exact pairs_fail (pairs_unexpectedBecause hpast.near _)
  next hnumber =>
    have hnumber := not_not.1 hnumber
    refine pairs_advance hpast.near (by rw [hnumber]; decide) fun hpast' => ?_
    refine (pairs_number hpast'.near (A.value hpast.near (by rw [hnumber]; decide)) true
      fun _ _ => ?_).mono ?_
    · exact A.start hc hpast'.near (by rw [hk]; decide) (Cursor.not_atBody hk (by decide)) _ _
    · rintro e e' d ⟨he, hd⟩
      exact ⟨he, hd.trans_lt (hpast'.lt.trans hpast.lt)⟩

theorem pairs_constructor (k : Composite) (hc : A.near c c') (hk : c.kind ≠ .eof) (hbody : ¬ c.AtBody) :
    Pairs A (constructor k) (constructor k) c c' (Takes A.expr c) := by
  refine pairs_advance hc hk fun hpast => (pairs_reference hpast.near).bind ?_
  rintro ⟨n, x⟩ ⟨n', x'⟩ d d' hd ⟨⟨hn, rfl⟩, hlt⟩
  exact pairs_nodeFrom hd ⟨A.construct (A.start hc hd hk hbody _ _) hn, hlt.trans hpast.lt⟩

theorem pairs_typeArguments (hc : A.near c c') :
    Pairs A typeArguments typeArguments c c' (Takes (List.Forall₂ A.type) c) := by
  have hloop := pairs_iterate (I := fun ts ts' _ => List.Forall₂ A.type ts ts')
    (P := fun ts ts' d => List.Forall₂ A.type ts ts' ∧ d.ahead ≤ c.ahead)
    typeArgumentStep typeArgumentStep hc ?_ .nil
  · refine hloop.bind ?_
    rintro ts ts' d d' hd ⟨hts, hle⟩
    refine pairs_discard (pairs_expect hd (by decide) fun _ hpast => pairs_pure hpast.near ⟨hts, ?_⟩)
    exact hpast.lt.trans_le hle
  · intro ts ts' d d' hd hle hts
    refine pairs_kind hd ?_
    split
    next => exact pairs_pure hd (.done ⟨List.rel_reverse hts, hle⟩)
    next =>
      refine (pairs_typeExpr hd).bind ?_
      rintro t t' e e' he ⟨ht, hlt⟩
      refine pairs_kind he ?_
      split
      next hcomma =>
        refine pairs_discard (pairs_advance he (by rw [hcomma]; decide) fun hpast => ?_)
        exact pairs_pure hpast.near (.more (.cons ht hts) (hpast.lt.trans hlt))
      next => exact pairs_pure he (.more (.cons ht hts) hlt)

/-- Parsers of expressions that go in step wherever fewer words than the given number are left. -/
def Inside (A : Pairing) (n : Nat) (expr expr' : Power → Parser Expr) : Prop :=
  ∀ p d d', A.near d d' → d.ahead < n → ¬ d.AtBody → Pairs A (expr p) (expr' p) d d' (Takes A.expr d)

section Productions

variable {n : Nat} {expr expr' : Power → Parser Expr} (hexpr : Inside A n expr expr')
include hexpr

theorem pairs_exprList (hc : A.near c c') (hlt : c.ahead < n) (hbody : ¬ c.AtBody) {close : TokenKind}
    (hclose : close ≠ .eof) (hcurly : close ≠ .openCurly) :
    Pairs A (exprList expr close) (exprList expr' close) c c' (Takes (List.Forall₂ A.expr) c) :=
  (pairs_commaSeparated hc hclose hcurly hbody fun d d' hd hle hbody =>
    hexpr _ d d' hd (hle.trans_lt hlt) hbody).mono fun _ _ _ h => h.1

variable (hc : A.near c c') (hle : c.ahead ≤ n)
include hc hle

section Starts

variable (hbody : ¬ c.AtBody)
include hbody

theorem pairs_grouping (hk : c.kind = .openParen) :
    Pairs A (grouping expr) (grouping expr') c c' (Takes A.expr c) := by
  refine pairs_advance hc (by rw [hk]; decide) fun hpast => ?_
  refine (hexpr _ _ _ hpast.near (hpast.lt.trans_le hle)
    (Cursor.not_atBody_next hk (by decide) (by decide))).bind ?_
  rintro e e' d d' hd ⟨he, hlt⟩
  refine pairs_discard (pairs_expect hd (by decide) fun _ hpast' => ?_)
  refine pairs_nodeFrom hpast'.near ⟨A.paren ?_ he, hpast'.lt.trans (hlt.trans hpast.lt)⟩
  exact A.start hc hpast'.near (by rw [hk]; decide) hbody _ _

theorem pairs_literal (k : Container) {close : TokenKind} (hclose : close ≠ .eof)
    (hcurly : close ≠ .openCurly) (hk : c.kind ≠ .eof) (hopen : c.kind ≠ .closeParen) :
    Pairs A (literal expr k close) (literal expr' k close) c c' (Takes A.expr c) := by
  refine pairs_advance hc hk fun hpast => ?_
  refine (pairs_exprList hexpr hpast.near (hpast.lt.trans_le hle)
    (Cursor.not_atBody_next rfl hopen hk) hclose hcurly).bind ?_
  rintro es es' d d' hd ⟨hes, hlt⟩
  exact pairs_nodeFrom hd ⟨A.literal (A.start hc hd hk hbody _ _) hes, hlt.trans hpast.lt⟩

theorem pairs_negation (hk : c.kind = .not) :
    Pairs A (negation expr) (negation expr') c c' (Takes A.expr c) := by
  refine pairs_advance hc (by rw [hk]; decide) fun hpast => ?_
  refine (hexpr _ _ _ hpast.near (hpast.lt.trans_le hle)
    (Cursor.not_atBody_next hk (by decide) (by decide))).bind ?_
  rintro e e' d d' hd ⟨he, hlt⟩
  refine pairs_nodeAt hd ⟨A.not ?_ he, hlt.trans hpast.lt⟩
  exact A.start hc hd (by rw [hk]; decide) hbody _ _

theorem pairs_primary : Pairs A (primary expr) (primary expr') c c' (Takes A.expr c) := by
  refine pairs_kind hc ?_
  split
  next hk =>
    have hne : c.kind ≠ .eof := by rw [hk]; decide
    refine pairs_advance hc hne fun hpast => ?_
    refine (pairs_number hpast.near (A.value hc (by rw [hk]; decide)) false
      fun _ _ => A.start hc hpast.near hne hbody _ _).mono ?_
    rintro e e' d ⟨he, hd⟩
    exact ⟨he, hd.trans_lt hpast.lt⟩
  next =>
    refine (pairs_reference hc).bind ?_
    rintro ⟨m, x⟩ ⟨m', x'⟩ d d' hd ⟨⟨hm, rfl⟩, hlt⟩
    exact pairs_pure hd ⟨A.symbol hm, hlt⟩
  next hk =>
    have hne : c.kind ≠ .eof := by rw [hk]; decide
    refine pairs_advance hc hne fun hpast => ?_
    rw [A.value hc (by rw [hk]; decide)]
    exact pairs_nodeAt hpast.near ⟨A.string (A.start hc hpast.near hne hbody _ _), hpast.lt⟩
  next hk => exact pairs_negativeNumber hc hk
  next hk => exact pairs_negation hexpr hc hle hbody hk
  next hk => exact pairs_grouping hexpr hc hle hbody hk
  next hk =>
    exact pairs_literal hexpr hc hle hbody .array (by decide) (by decide) (by rw [hk]; decide)
      (by rw [hk]; decide)
  next hk =>
    exact pairs_literal hexpr hc hle hbody .set (by decide) (by decide) (by rw [hk]; decide)
      (by rw [hk]; decide)
  next hk => exact pairs_constructor .struct hc (by rw [hk]; decide) hbody
  next hk => exact pairs_constructor .cls hc (by rw [hk]; decide) hbody
  next => exact pairs_unexpected hc

end Starts

section Extensions

variable {left left' : Expr} (hleft : A.expr left left')
include hleft

theorem pairs_assignment (hk : c.kind = .assignment) :
    Pairs A (assignment expr left) (assignment expr' left') c c' (Takes A.expr c) := by
  refine pairs_discard (pairs_advance hc (by rw [hk]; decide) fun hpast => ?_)
  refine (hexpr _ _ _ hpast.near (hpast.lt.trans_le hle)
    (Cursor.not_atBody_next hk (by decide) (by decide))).bind ?_
  rintro e e' d d' hd ⟨he, hlt⟩
  refine pairs_nodeAt hd ⟨A.assign ?_ hleft he, hlt.trans hpast.lt⟩
  exact A.restart (A.exprNode hleft) hd _ _

theorem pairs_binary (op : BinaryOp) (power : Power) (hk : c.kind ≠ .closeParen) (hend : c.kind ≠ .eof) :
    Pairs A (binary expr left op power) (binary expr' left' op power) c c' (Takes A.expr c) := by
  refine pairs_discard (pairs_advance hc hend fun hpast => ?_)
  refine (hexpr _ _ _ hpast.near (hpast.lt.trans_le hle) (Cursor.not_atBody_next rfl hk hend)).bind ?_
  rintro e e' d d' hd ⟨he, hlt⟩
  refine pairs_nodeAt hd ⟨A.binary ?_ hleft he, hlt.trans hpast.lt⟩
  exact A.restart (A.exprNode hleft) hd _ _

theorem pairs_call : Pairs A (call expr left) (call expr' left') c c' (Takes A.expr c) := by
  refine pairs_discard (pairs_expect hc (by decide) fun hk hpast => ?_)
  refine (pairs_exprList hexpr hpast.near (hpast.lt.trans_le hle)
    (Cursor.not_atBody_next hk (by decide) (by decide)) (by decide) (by decide)).bind ?_
  rintro es es' d d' hd ⟨hes, hlt⟩
  refine pairs_nodeFrom hd ⟨A.call ?_ hleft hes, hlt.trans hpast.lt⟩
  exact A.restart (A.exprNode hleft) hd _ _

theorem pairs_index : Pairs A (index expr left) (index expr' left') c c' (Takes A.expr c) := by
  refine pairs_discard (pairs_expect hc (by decide) fun hk hpast => ?_)
  refine (hexpr _ _ _ hpast.near (hpast.lt.trans_le hle)
    (Cursor.not_atBody_next hk (by decide) (by decide))).bind ?_
  rintro e e' d d' hd ⟨he, hlt⟩
  refine pairs_discard (pairs_expect hd (by decide) fun _ hpast' => ?_)
  refine pairs_nodeFrom hpast'.near ⟨A.index ?_ hleft he, hpast'.lt.trans (hlt.trans hpast.lt)⟩
  exact A.restart (A.exprNode hleft) hpast'.near _ _

omit hexpr hle in
theorem pairs_member (k : Composite) (hk : c.kind ≠ .eof) :
    Pairs A (member k left) (member k left') c c' (Takes A.expr c) := by
  refine pairs_discard (pairs_advance hc hk fun hpast => ?_)
  refine pairs_name hpast.near (A.blame_unexpected hpast.near) fun _ hvalue hpast' => ?_
  rw [hvalue]
  refine pairs_nodeFrom hpast'.near ⟨A.member ?_ hleft, hpast'.lt.trans hpast.lt⟩
  exact A.restart (A.exprNode hleft) hpast'.near _ _

theorem pairs_templateCall :
    Pairs A (templateCall expr left) (templateCall expr' left') c c' (Takes A.expr c) := by
  refine pairs_discard (pairs_expect hc (by decide) fun _ hpast => ?_)
  refine (pairs_typeArguments hpast.near).bind ?_
  rintro ts ts' d d' hd ⟨hts, hlt⟩
  refine pairs_discard (pairs_expect hd (by decide) fun hk hpast' => ?_)
  have hshort := hpast'.lt.trans (hlt.trans hpast.lt)
  refine (pairs_exprList hexpr hpast'.near (hshort.trans_le hle)
    (Cursor.not_atBody_next hk (by decide) (by decide)) (by decide) (by decide)).bind ?_
  rintro es es' e e' he ⟨hes, hlt'⟩
  refine pairs_nodeFrom he ⟨A.templateCall ?_ hleft hts hes, hlt'.trans hshort⟩
  exact A.restart (A.exprNode hleft) he _ _

theorem pairs_extension (power : Power) :
    Pairs A (extension expr left c.kind power) (extension expr' left' c.kind power) c c'
      (Takes A.expr c) := by
  unfold extension
  split
  next hk => exact pairs_assignment hexpr hc hle hleft hk
  next => exact pairs_call hexpr hc hle hleft
  next => exact pairs_index hexpr hc hle hleft
  next hk => exact pairs_member hc hleft .struct (by rw [hk]; decide)
  next hk => exact pairs_member hc hleft .cls (by rw [hk]; decide)
  next =>
    split
    next op hop =>
      refine pairs_binary hexpr hc hle hleft op power ?_ ?_ <;> (intro hk; rw [hk] at hop; cases hop)
    next => exact pairs_unexpected hc

theorem pairs_extensionStep (power : Power) {c₀ : Cursor} (hlt : c.ahead < c₀.ahead) :
    Pairs A (extensionStep expr power left) (extensionStep expr' power left') c c'
      (Round (fun e e' _ => A.expr e e') (Takes A.expr c₀) c) := by
  have hcall : c'.atTemplateCall left' = c.atTemplateCall left := by
    rw [Cursor.atTemplateCall, Cursor.atTemplateCall, ← A.kind hc, A.isNamed hleft]
    by_cases hless : c.kind = .less
    · rw [A.lookahead hc hless]
    · simp [hless]
  refine pairs_get ?_
  rw [hcall, ← A.kind hc]
  have hmore : ∀ e e' d d', A.near d d' → Takes A.expr c e e' d →
      Pairs A (pure (.inl e)) (pure (.inl e')) d d' (Round (fun e e' _ => A.expr e e') (Takes A.expr c₀) c) :=
    fun e e' d d' hd he => pairs_pure hd (.more he.1 he.2)
  split
  · exact (pairs_templateCall hexpr hc hle hleft).bind hmore
  · split
    · split
      · exact (pairs_extension hexpr hc hle hleft _).bind hmore
      · exact pairs_pure hc (.done ⟨hleft, hlt⟩)
    · exact pairs_pure hc (.done ⟨hleft, hlt⟩)

end Extensions

theorem pairs_expression (power : Power) (hbody : ¬ c.AtBody) :
    Pairs A (expression expr power) (expression expr' power) c c' (Takes A.expr c) := by
  refine (pairs_primary hexpr hc hle hbody).bind ?_
  rintro e e' d d' hd ⟨he, hlt⟩
  refine pairs_iterate (I := fun e e' _ => A.expr e e') _ _ hd ?_ he
  intro l l' f f' hf hshort hl
  exact pairs_extensionStep hexpr hf (by omega) hl power (by omega)

end Productions

theorem pairs_exprWithin (hc : A.near c c') {depth depth' : Nat} (h : c.ahead < depth)
    (h' : c.ahead < depth') (power : Power) (hbody : ¬ c.AtBody) :
    Pairs A (exprWithin depth power) (exprWithin depth' power) c c' (Takes A.expr c) := by
  induction depth generalizing depth' c c' power with
  | zero => cases h
  | succ depth ih =>
    cases depth' with
    | zero => cases h'
    | succ depth' =>
      refine pairs_expression (n := c.ahead) ?_ hc le_rfl power hbody
      intro p d d' hd hlt hd'
      exact ih hd (by omega) (by omega) p hd'

end Parser

end ScriptAnalysis
