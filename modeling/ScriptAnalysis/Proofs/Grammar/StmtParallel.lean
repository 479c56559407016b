import ScriptAnalysis.Proofs.Grammar.ExprParallel

/-!
Statements and programs read from two streams in step (`Parser.pairs_stmtWithin`,
`Parser.pairs_program`).
-/
namespace ScriptAnalysis

namespace Parser

open Pairing (Takes)

variable {A : Pairing} {c c' : Cursor} {α β : Type}

abbrev Binders (A : Pairing) : List Binder → List Binder → Prop :=
  List.Forall₂ (Binder.Related A.place A.type)

structure Blocks (A : Pairing) (b b' : Block) : Prop where
  node : A.opener b.node b'.node
  body : List.Forall₂ A.stmt b.body b'.body

/-- Class names that are related for a class that ends anywhere. -/
def Supers (A : Pairing) (found found' : List Superclass) : Prop :=
  ∀ d d', A.near d d' →
    List.Forall₂ (Superclass.Related A.place ⟨d.nextId⟩ ⟨d'.nextId⟩) found found'

/-- A statement starts where no body does. -/
theorem start_of_kind {k : TokenKind} {d d' : Cursor} (hc : A.near c c') (hd : A.near d d')
    (hk : c.kind = k) (hcurly : k ≠ .openCurly) (hend : k ≠ .eof) (x x' : Position) :
    A.place ⟨⟨d.nextId⟩, ⟨c.position, x⟩⟩ ⟨⟨d'.nextId⟩, ⟨c'.position, x'⟩⟩ :=
  A.start hc hd (hk ▸ hend) (Cursor.not_atBody hk hcurly) x x'

section Heads

variable (hc : A.near c c')
include hc

theorem pairs_binder : Pairs A binder binder c c' (Takes (Binder.Related A.place A.type) c) := by
  refine pairs_name hc (A.blame_unexpected hc) fun hk hvalue hpast => ?_
  refine pairs_discard (pairs_expect hpast.near (by decide) fun _ hpast' => ?_)
  refine (pairs_typeExpr hpast'.near).bind ?_
  rintro t t' d d' hd ⟨ht, hlt⟩
  refine pairs_nodeFrom hd ⟨⟨?_, hvalue, ht⟩, hlt.trans (hpast'.lt.trans hpast.lt)⟩
  exact start_of_kind hc hd hk (by decide) (by decide) _ _

theorem pairs_structField :
    Pairs A structField structField c c' (Takes (Binder.Related A.place A.type) c) := by
  refine pairs_expect hc (by decide) fun hk hpast => ?_
  refine pairs_name hpast.near (A.blame_unexpected hpast.near) fun _ hvalue hpast' => ?_
  refine pairs_discard (pairs_expect hpast'.near (by decide) fun _ hpast'' => ?_)
  refine (pairs_typeExpr hpast''.near).bind ?_
  rintro t t' d d' hd ⟨ht, hlt⟩
  refine pairs_nodeFrom hd ⟨⟨?_, hvalue, ht⟩, hlt.trans (hpast''.lt.trans (hpast'.lt.trans hpast.lt))⟩
  exact start_of_kind hc hd hk (by decide) (by decide) _ _

theorem pairs_parameters : Pairs A parameters parameters c c' fun ps ps' d =>
    Takes (Binders A) c ps ps' d ∧ d.behind = .closeParen := by
  refine pairs_discard (pairs_expect hc (by decide) fun hk hpast => ?_)
  refine (pairs_commaSeparated hpast.near (by decide) (by decide)
    (Cursor.not_atBody_next hk (by decide) (by decide)) fun d d' hd _ _ => pairs_binder hd).mono ?_
  rintro ps ps' d ⟨hps, hbehind⟩
  exact ⟨⟨hps.1, hps.2.trans hpast.lt⟩, hbehind⟩

/-- A result type may be left out behind a parenthesis, in front of a body. -/
theorem pairs_resultType (hbehind : c.behind = .closeParen) :
    Pairs A resultType resultType c c' fun t t' d =>
      (d.kind = .openCurly → A.type t t') ∧ d.ahead ≤ c.ahead := by
  refine pairs_kind hc ?_
  split
  · refine pairs_get (pairs_nodeAt hc ⟨fun hcurly => A.name ?_, le_rfl⟩)
    exact A.omitted hc ⟨hcurly, hbehind⟩
  next hcolon =>
    have hcolon := not_not.1 hcolon
    refine pairs_discard (pairs_advance hc (by rw [hcolon]; decide) fun hpast => pairs_get ?_)
    refine (pairs_typeExpr hpast.near).bind ?_
    rintro t t' d d' hd ⟨ht, hlt⟩
    refine pairs_kind hd ?_
    split
    · exact pairs_pure hd ⟨fun _ => ht, (hlt.trans hpast.lt).le⟩
    · have hback := A.back hpast.near hd
      have hahead : Cursor.ahead { d with index := c.next.index } = c.next.ahead := by
        simp only [Cursor.ahead, Cursor.words, A.stream hd hpast.near]
      refine Pairs.mono (pairs_withoutSetSuffix hback (pairs_typeExpr (A.allow hback false))) ?_
      rintro t t' e ⟨ht, hlt⟩
      exact ⟨fun _ => ht, (hlt.trans (hahead.trans_lt hpast.lt)).le⟩

theorem pairs_superclassStep {n : Nat} (hlt : c.ahead < n) {found found' : List Superclass}
    (h : Supers A found found') : Pairs A (superclassStep found) (superclassStep found') c c'
      (Round (fun all all' _ => Supers A all all') (fun all all' d => Supers A all all' ∧ d.ahead < n) c) := by
  refine pairs_name hc (A.blame_unexpected hc) fun hk hvalue hpast => pairs_kind hpast.near ?_
  have hcons : Supers A (⟨c.current.value, c.current.span⟩ :: found)
      (⟨c'.current.value, c'.current.span⟩ :: found') :=
    fun d d' hd => .cons ⟨hvalue, start_of_kind hc hd hk (by decide) (by decide) _ _⟩ (h d d' hd)
  split
  · refine pairs_pure hpast.near (.done ⟨?_, hpast.lt.trans hlt⟩)
    exact fun d d' hd => List.rel_reverse (hcons d d' hd)
  next hcomma =>
    have hcomma := not_not.1 hcomma
    refine pairs_discard (pairs_advance hpast.near (by rw [hcomma]; decide) fun hpast' => ?_)
    exact pairs_pure hpast'.near (.more hcons (hpast'.lt.trans hpast.lt))

theorem pairs_superclasses : Pairs A superclasses superclasses c c' fun found found' d =>
    Supers A found found' ∧ d.ahead ≤ c.ahead := by
  refine pairs_kind hc ?_
  split
  · exact pairs_pure hc ⟨fun _ _ _ => .nil, le_rfl⟩
  next hfrom =>
    have hfrom := not_not.1 hfrom
    refine pairs_discard (pairs_advance hc (by rw [hfrom]; decide) fun hpast => ?_)
    refine (pairs_iterate _ _ hpast.near (fun found found' d d' hd hle h =>
      pairs_superclassStep hd (hle.trans_lt hpast.lt) h) fun _ _ _ => .nil).mono ?_
    exact fun _ _ _ h => ⟨h.1, h.2.le⟩

theorem pairs_struct (hk : c.kind = .struct) : Pairs A struct struct c c' (Takes A.stmt c) := by
  refine pairs_advance hc (by rw [hk]; decide) fun hpast => ?_
  refine pairs_name hpast.near (A.blame_unexpected hpast.near) fun _ hvalue hpast₁ => ?_
  refine pairs_discard (pairs_expect hpast₁.near (by decide) fun _ hpast₂ => ?_)
  have hloop := pairs_iterate (I := fun bs bs' _ => Binders A bs bs')
    (P := fun bs bs' d => Takes (Binders A) c bs bs' d) structStep structStep
    hpast₂.near ?_ .nil
  · refine hloop.bind ?_
    rintro bs bs' d d' hd ⟨hbs, hlt⟩
    refine pairs_discard (pairs_expect hd (by decide) fun _ hpast₃ => ?_)
    rw [hvalue]
    refine pairs_nodeFrom hpast₃.near ⟨A.struct ?_ hbs, hpast₃.lt.trans hlt⟩
    exact start_of_kind hc hpast₃.near hk (by decide) (by decide) _ _
  · intro bs bs' d d' hd hle hbs
    refine pairs_kind hd ?_
    split
    next =>
      exact pairs_pure hd (.done ⟨List.rel_reverse hbs,
        hle.trans_lt (hpast₂.lt.trans (hpast₁.lt.trans hpast.lt))⟩)
    next =>
      refine (pairs_structField hd).bind ?_
      rintro b b' e e' he ⟨hb, hlt⟩
      exact pairs_pure he (.more (.cons hb hbs) hlt)

end Heads

/-- Parsers of statements that go in step wherever fewer words than the given number are left. -/
def Within (A : Pairing) (n : Nat) (stmt stmt' : Parser Stmt) : Prop :=
  ∀ d d', A.near d d' → d.ahead < n → Pairs A stmt stmt' d d' (Takes A.stmt d)

section Productions

variable {n : Nat} {stmt stmt' : Parser Stmt} (hstmt : Within A n stmt stmt') (hc : A.near c c')
  (hle : c.ahead ≤ n)
include hstmt hc hle

theorem pairs_blockOf : Pairs A (blockOf stmt) (blockOf stmt') c c' fun b b' d =>
    Takes (Blocks A) c b b' d ∧ c.kind = .openCurly := by
  refine pairs_expect hc (by decide) fun hk hpast => ?_
  have hloop := pairs_iterate (I := fun xs xs' _ => List.Forall₂ A.stmt xs xs')
    (P := Takes (List.Forall₂ A.stmt) c) (blockStep stmt) (blockStep stmt')
    hpast.near ?_ .nil
  · refine hloop.bind ?_
    rintro xs xs' d d' hd ⟨hxs, hlt⟩
    refine pairs_discard (pairs_expect hd (by decide) fun _ hpast' => ?_)
    exact pairs_nodeFrom hpast'.near
      ⟨⟨⟨A.opens hpast'.near _ _, hxs⟩, hpast'.lt.trans hlt⟩, hk⟩
  · intro xs xs' d d' hd hshort hxs
    have hlt := hshort.trans_lt hpast.lt
    refine pairs_kind hd ?_
    split
    · exact pairs_pure hd (.done ⟨List.rel_reverse hxs, hlt⟩)
    · exact pairs_unexpectedBecause hd _
    · refine (hstmt d d' hd (hlt.trans_le hle)).bind ?_
      rintro x x' e e' he ⟨hx, hlt'⟩
      exact pairs_pure he (.more (.cons hx hxs) hlt')

/-- What functions and templates share: parameters, a result type and a body. -/
theorem pairs_signature {f f' : List Binder → TypeExpr → Block → Parser β}
    {Q : β → β → Cursor → Prop}
    (h : ∀ ps ps' r r' b b' d d', A.near d d' → Binders A ps ps' → A.type r r' → Blocks A b b' →
      d.ahead < c.ahead → Pairs A (f ps r b) (f' ps' r' b') d d' Q) :
    Pairs A (do let ps ← parameters; let r ← resultType; let b ← blockOf stmt; f ps r b)
      (do let ps ← parameters; let r ← resultType; let b ← blockOf stmt'; f' ps r b) c c' Q := by
  refine (pairs_parameters hc).bind ?_
  rintro ps ps' d d' hd ⟨⟨hps, hlt⟩, hbehind⟩
  refine (pairs_resultType hd hbehind).bind ?_
  rintro r r' e e' he ⟨hr, hshort⟩
  refine (pairs_blockOf hstmt he (by omega)).bind ?_
  rintro b b' g g' hg ⟨⟨hb, hlt'⟩, hcurly⟩
  exact h ps ps' r r' b b' g g' hg hps (hr hcurly) hb (by omega)

/-- A function with what stands in front of the word `fun`. -/
theorem pairs_function (visibility : Option Visibility) {x x' : Position}
    (hplace : ∀ d d', A.near d d' → ∀ y y', A.place ⟨⟨d.nextId⟩, ⟨x, y⟩⟩ ⟨⟨d'.nextId⟩, ⟨x', y'⟩⟩) :
    Pairs A (function stmt visibility x) (function stmt' visibility x') c c' (Takes A.stmt c) := by
  refine pairs_discard (pairs_expect hc (by decide) fun _ hpast => ?_)
  refine pairs_name hpast.near (A.blame_unexpected hpast.near) fun _ hvalue hpast' => ?_
  have hshort := hpast'.lt.trans hpast.lt
  rw [hvalue]
  refine pairs_signature hstmt hpast'.near (hshort.le.trans hle) ?_
  intro ps ps' r r' b b' d d' hd hps hr hb hlt
  exact pairs_nodeFrom hd ⟨A.function (hplace d d' hd _ _) (A.opens hd _ _) hps hr hb.node hb.body,
    hlt.trans hshort⟩

theorem pairs_template (hk : c.kind = .template) :
    Pairs A (template stmt) (template stmt') c c' (Takes A.stmt c) := by
  refine pairs_advance hc (by rw [hk]; decide) fun hpast => ?_
  refine pairs_discard (pairs_expect hpast.near (by decide) fun hless hpast₁ => ?_)
  refine (pairs_commaSeparated hpast₁.near (by decide) (by decide)
    (Cursor.not_atBody_next hless (by decide) (by decide)) fun d d' hd _ _ => pairs_binder hd).bind ?_
  rintro ts ts' d d' hd ⟨⟨hts, hlt⟩, -⟩
  refine pairs_discard (pairs_expect hd (by decide) fun _ hpast₂ => ?_)
  refine pairs_name hpast₂.near (A.blame_unexpected hpast₂.near) fun _ hvalue hpast₃ => ?_
  have hshort : d.next.next.ahead < c.ahead :=
    hpast₃.lt.trans (hpast₂.lt.trans (hlt.trans (hpast₁.lt.trans hpast.lt)))
  rw [hvalue]
  refine pairs_signature hstmt hpast₃.near (hshort.le.trans hle) ?_
  intro ps ps' r r' b b' e e' he hps hr hb hlt'
  refine pairs_nodeFrom he ⟨A.template ?_ (A.opens he _ _) hts hps hr hb.node hb.body, hlt'.trans hshort⟩
  exact start_of_kind hc he hk (by decide) (by decide) _ _

/-- A class with what stands in front of the word `class`. -/
theorem pairs_cls (visibility : Option Visibility) {x x' : Position}
    (hplace : ∀ d d', A.near d d' → ∀ y y', A.place ⟨⟨d.nextId⟩, ⟨x, y⟩⟩ ⟨⟨d'.nextId⟩, ⟨x', y'⟩⟩) :
    Pairs A (cls stmt visibility x) (cls stmt' visibility x') c c' (Takes A.stmt c) := by
  refine pairs_discard (pairs_expect hc (by decide) fun _ hpast => ?_)
  refine pairs_name hpast.near (A.blame_unexpected hpast.near) fun _ hvalue hpast' => ?_
  have hshort := hpast'.lt.trans hpast.lt
  rw [hvalue]
  refine (pairs_superclasses hpast'.near).bind ?_
  rintro found found' d d' hd ⟨hfound, hle'⟩
  refine (pairs_blockOf hstmt hd (by omega)).bind ?_
  rintro b b' e e' he ⟨⟨hb, hlt⟩, -⟩
  exact pairs_nodeFrom he ⟨A.cls (hplace e e' he _ _) (A.opens he _ _) (hfound e e' he) hb.node hb.body,
    hlt.trans_le (hle'.trans hshort.le)⟩

theorem pairs_marked (visibility : Visibility) (hend : c.kind ≠ .eof) (hcurly : c.kind ≠ .openCurly) :
    Pairs A (marked stmt visibility) (marked stmt' visibility) c c' (Takes A.stmt c) := by
  refine pairs_advance hc hend fun hpast => pairs_kind hpast.near ?_
  have hplace := fun d d' (hd : A.near d d') => start_of_kind hc hd rfl hcurly hend
  have hshort := hpast.lt.le
  split
  · exact (pairs_function hstmt hpast.near (hshort.trans hle) _ hplace).further hshort
  · exact (pairs_cls hstmt hpast.near (hshort.trans hle) _ hplace).further hshort
  · exact pairs_unexpectedBecause hpast.near _

section Expressions

variable {expr expr' : Power → Parser Expr} (hexpr : Inside A (n + 1) expr expr')
include hexpr

omit hstmt in
theorem pairs_variableOrField (hk : c.kind = .var) :
    Pairs A (variableOrField expr) (variableOrField expr') c c' (Takes A.stmt c) := by
  refine pairs_advance hc (by rw [hk]; decide) fun hpast => ?_
  refine pairs_name hpast.near (A.blame_because hpast.near _) fun _ hvalue hpast₁ => ?_
  refine pairs_discard (pairs_expect hpast₁.near (by decide) fun _ hpast₂ => ?_)
  refine (pairs_typeExpr hpast₂.near).bind ?_
  rintro t t' d d' hd ⟨ht, hlt⟩
  have hshort : d.ahead < c.ahead := hlt.trans (hpast₂.lt.trans (hpast₁.lt.trans hpast.lt))
  have hplace := fun e e' (he : A.near e e') => start_of_kind hc he hk (by decide) (by decide)
  refine pairs_kind hd ?_
  split
  · exact pairs_nodeFrom hd ⟨A.field ⟨hplace d d' hd _ _, hvalue, ht⟩, hshort⟩
  next hassign =>
    have hassign := not_not.1 hassign
    refine pairs_discard (pairs_advance hd (by rw [hassign]; decide) fun hpast₃ => ?_)
    refine (hexpr _ _ _ hpast₃.near (by have := hpast₃.lt; omega)
      (Cursor.not_atBody_next hassign (by decide) (by decide))).bind ?_
    rintro e e' g g' hg ⟨he, hlt'⟩
    exact pairs_nodeFrom hg ⟨A.binding ⟨hplace g g' hg _ _, hvalue, ht⟩ he,
      hlt'.trans (hpast₃.lt.trans hshort)⟩

theorem pairs_conditional (hk : c.kind = .ifWord) :
    Pairs A (conditional expr stmt) (conditional expr' stmt') c c' (Takes A.stmt c) := by
  refine pairs_advance hc (by rw [hk]; decide) fun hpast => ?_
  have hplace := fun e e' (he : A.near e e') => start_of_kind hc he hk (by decide) (by decide)
  have hfirst := hpast.lt
  refine (hexpr _ _ _ hpast.near (by omega)
    (Cursor.not_atBody_next hk (by decide) (by decide))).bind ?_
  rintro e e' d d' hd ⟨he, hlt⟩
  refine (hstmt d d' hd (by omega)).bind ?_
  rintro x x' g g' hg ⟨hx, hlt'⟩
  refine pairs_kind hg ?_
  split
  · exact pairs_nodeFrom hg ⟨A.ifThen (hplace g g' hg _ _) he hx, hlt'.trans (hlt.trans hfirst)⟩
  next helse =>
    have helse := not_not.1 helse
    refine pairs_discard (pairs_advance hg (by rw [helse]; decide) fun hpast' => ?_)
    have hshort := hpast'.lt.trans (hlt'.trans (hlt.trans hfirst))
    refine (hstmt _ _ hpast'.near (hshort.trans_le hle)).bind ?_
    rintro y y' k k' hk' ⟨hy, hlt''⟩
    exact pairs_nodeFrom hk' ⟨A.ifElse (hplace k k' hk' _ _) he hx hy, hlt''.trans hshort⟩

theorem pairs_loop (hk : c.kind = .whileWord) :
    Pairs A (loop expr stmt) (loop expr' stmt') c c' (Takes A.stmt c) := by
  refine pairs_advance hc (by rw [hk]; decide) fun hpast => ?_
  have hfirst := hpast.lt
  refine (hexpr _ _ _ hpast.near (by omega)
    (Cursor.not_atBody_next hk (by decide) (by decide))).bind ?_
  rintro e e' d d' hd ⟨he, hlt⟩
  refine (hstmt d d' hd (by omega)).bind ?_
  rintro x x' g g' hg ⟨hx, hlt'⟩
  refine pairs_nodeFrom hg ⟨A.loop ?_ he hx, hlt'.trans (hlt.trans hfirst)⟩
  exact start_of_kind hc hg hk (by decide) (by decide) _ _

omit hstmt in
theorem pairs_ret (hk : c.kind = .returnWord) : Pairs A (ret expr) (ret expr') c c' (Takes A.stmt c) := by
  refine pairs_advance hc (by rw [hk]; decide) fun hpast => pairs_kind hpast.near ?_
  have hplace := fun e e' (he : A.near e e') => start_of_kind hc he hk (by decide) (by decide)
  have hfirst := hpast.lt
  split
  · refine (hexpr _ _ _ hpast.near (by omega)
      (Cursor.not_atBody_next hk (by decide) (by decide))).bind ?_
    rintro e e' d d' hd ⟨he, hlt⟩
    exact pairs_nodeFrom hd ⟨A.ret (hplace d d' hd _ _) (.some he), hlt.trans hfirst⟩
  · exact pairs_nodeFrom hpast.near ⟨A.ret (hplace _ _ hpast.near _ _) .none, hfirst⟩

omit hstmt in
theorem pairs_action (hcurly : c.kind ≠ .openCurly) :
    Pairs A (action expr) (action expr') c c' (Takes A.stmt c) := by
  refine pairs_get ((hexpr _ c c' hc (by omega) (Cursor.not_atBody rfl hcurly)).bind ?_)
  rintro e e' d d' hd ⟨he, hlt⟩
  rw [← A.isAction he]
  split
  · exact pairs_fail (pairs_reject (A.blame_action he _))
  · exact pairs_nodeAt hd ⟨A.action (A.restart (A.exprNode he) hd _ _) he, hlt⟩

theorem pairs_statement : Pairs A (statement expr stmt) (statement expr' stmt') c c' (Takes A.stmt c) := by
  refine pairs_kind hc ?_
  have hplace : ∀ {k}, c.kind = k → k ≠ .openCurly → k ≠ .eof → ∀ d d', A.near d d' → ∀ y y',
      A.place ⟨⟨d.nextId⟩, ⟨c.position, y⟩⟩ ⟨⟨d'.nextId⟩, ⟨c'.position, y'⟩⟩ :=
    fun hk hcurly hend d d' hd => start_of_kind hc hd hk hcurly hend
  split
  next =>
    refine (pairs_blockOf hstmt hc hle).bind ?_
    rintro b b' d d' hd ⟨⟨hb, hlt⟩, -⟩
    exact pairs_pure hd ⟨A.block hb.node hb.body, hlt⟩
  next hk => exact pairs_variableOrField hc hle hexpr hk
  next hk => exact pairs_get (pairs_function hstmt hc hle none (hplace hk (by decide) (by decide)))
  next hk => exact pairs_get (pairs_cls hstmt hc hle none (hplace hk (by decide) (by decide)))
  next hk => exact pairs_marked hstmt hc hle .pub (by rw [hk]; decide) (by rw [hk]; decide)
  next hk => exact pairs_marked hstmt hc hle .pvt (by rw [hk]; decide) (by rw [hk]; decide)
  next hk => exact pairs_struct hc hk
  next hk => exact pairs_template hstmt hc hle hk
  next hk => exact pairs_conditional hstmt hc hle hexpr hk
  next hk => exact pairs_loop hstmt hc hle hexpr hk
  next hk => exact pairs_ret hc hle hexpr hk
  next hcurly _ _ _ _ _ _ _ _ _ _ => exact pairs_action hc hle hexpr hcurly

end Expressions

end Productions

theorem pairs_stmtWithin (hc : A.near c c') {depth depth' : Nat} (h : c.ahead < depth)
    (h' : c.ahead < depth') : Pairs A (stmtWithin depth) (stmtWithin depth') c c' (Takes A.stmt c) := by
  induction depth generalizing depth' c c' with
  | zero => cases h
  | succ depth ih =>
    cases depth' with
    | zero => cases h'
    | succ depth' =>
      refine pairs_statement (n := c.ahead) ?_ hc le_rfl ?_
      · intro d d' hd hlt
        exact ih hd (by omega) (by omega)
      · intro p d d' hd hlt hbody
        exact pairs_exprWithin hd (by omega) (by omega) p hbody

theorem ahead_le (hc : A.near c c') : c.ahead ≤ c.remaining ∧ c.ahead ≤ c'.remaining :=
  ⟨c.length_words_le, A.length hc ▸ c'.length_words_le⟩

theorem pairs_stmt (hc : A.near c c') : Pairs A stmt stmt c c' (Takes A.stmt c) := by
  obtain ⟨h, h'⟩ := ahead_le hc
  exact pairs_get (pairs_stmtWithin hc (Nat.lt_succ_of_le h) (Nat.lt_succ_of_le h'))

theorem pairs_program (hc : A.near c c') : Pairs A program program c c' fun p p' _ =>
    p.node.id = ⟨c.nextId⟩ ∧ p'.node.id = ⟨c'.nextId⟩ ∧ List.Forall₂ A.stmt p.body p'.body := by
  have hloop := pairs_iterate (I := fun xs xs' _ => List.Forall₂ A.stmt xs xs')
    (P := fun xs xs' _ => List.Forall₂ A.stmt xs xs') programStep programStep
    (A.fresh hc) ?_ .nil
  · refine Pairs.bind (m := iterate programStep []) hloop ?_
    intro xs xs' d d' hd hxs
    exact pairs_get (pairs_pure hd ⟨rfl, rfl, hxs⟩)
  · intro xs xs' d d' hd _ hxs
    refine pairs_kind hd ?_
    split
    next => exact pairs_pure hd (.done (List.rel_reverse hxs))
    next =>
      refine (pairs_stmt hd).bind ?_
      rintro x x' e e' he ⟨hx, hlt⟩
      exact pairs_pure he (.more (.cons hx hxs) hlt)

end Parser

end ScriptAnalysis
