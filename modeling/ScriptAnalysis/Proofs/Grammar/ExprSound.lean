import ScriptAnalysis.Proofs.Grammar.Runs

/-!
Expressions that are read are derived from the grammar: `Parser.runs_exprWithin`. The loop over extensions
keeps what the grammar asks of a left operand, and what stands behind it decides where it stops.
-/
namespace ScriptAnalysis

open Word (mark)

section Powers

variable {p q : Power} {e : Expr}

theorem Power.lt_iff : p < q ↔ p.level < q.level := Iff.rfl

theorem Power.level_le (p : Power) : p.level ≤ Power.primary.level := by cases p <;> decide

theorem BinaryOp.power_lt_unary (op : BinaryOp) : op.power < .unary := by cases op <;> decide

theorem BinaryOp.assignment_lt_power (op : BinaryOp) : .assignment < op.power := by
  cases op <;> decide

theorem BinaryOp.spelling?_kind (op : BinaryOp) : op.kind.spelling?.isSome := by cases op <;> rfl

theorem BinaryOp.eq_lower_of_kind {op : BinaryOp} (h : op.kind = .less) : op = .lower := by
  cases op <;> first | rfl | cases h

theorem Composite.spelling?_accessKind (c : Composite) : c.accessKind.spelling?.isSome := by
  cases c <;> rfl

theorem Composite.spelling?_constructorKind (c : Composite) :
    c.constructorKind.spelling?.isSome := by
  cases c <;> rfl

theorem TokenKind.extensionPower?_cases {k : TokenKind} (h : k.extensionPower? = some q) :
    (k = .assignment ∧ q = .assignment) ∨ (k = .openParen ∧ q = .call) ∨
      (k = .openBracket ∧ q = .call) ∨ (∃ c : Composite, k = c.accessKind ∧ q = .member) ∨
        ∃ op : BinaryOp, k = op.kind ∧ q = op.power := by
  cases k with
  | assignment => exact .inl ⟨rfl, by cases h; rfl⟩
  | openParen => exact .inr (.inl ⟨rfl, by cases h; rfl⟩)
  | openBracket => exact .inr (.inr (.inl ⟨rfl, by cases h; rfl⟩))
  | dot => exact .inr (.inr (.inr (.inl ⟨.struct, rfl, by cases h; rfl⟩)))
  | dollar => exact .inr (.inr (.inr (.inl ⟨.cls, rfl, by cases h; rfl⟩)))
  | star => exact .inr (.inr (.inr (.inr ⟨.multiply, rfl, by cases h; rfl⟩)))
  | slash => exact .inr (.inr (.inr (.inr ⟨.divide, rfl, by cases h; rfl⟩)))
  | percent => exact .inr (.inr (.inr (.inr ⟨.remainder, rfl, by cases h; rfl⟩)))
  | plus => exact .inr (.inr (.inr (.inr ⟨.add, rfl, by cases h; rfl⟩)))
  | dash => exact .inr (.inr (.inr (.inr ⟨.subtract, rfl, by cases h; rfl⟩)))
  | greater => exact .inr (.inr (.inr (.inr ⟨.greater, rfl, by cases h; rfl⟩)))
  | less => exact .inr (.inr (.inr (.inr ⟨.lower, rfl, by cases h; rfl⟩)))
  | greaterEquals => exact .inr (.inr (.inr (.inr ⟨.greaterEqual, rfl, by cases h; rfl⟩)))
  | lessEquals => exact .inr (.inr (.inr (.inr ⟨.lowerEqual, rfl, by cases h; rfl⟩)))
  | equals => exact .inr (.inr (.inr (.inr ⟨.equal, rfl, by cases h; rfl⟩)))
  | notEquals => exact .inr (.inr (.inr (.inr ⟨.notEqual, rfl, by cases h; rfl⟩)))
  | and => exact .inr (.inr (.inr (.inr ⟨.and, rfl, by cases h; rfl⟩)))
  | or => exact .inr (.inr (.inr (.inr ⟨.or, rfl, by cases h; rfl⟩)))
  | _ => cases h

end Powers

namespace Expr

variable {p q : Power} {e : Expr} {c d : Cursor}

def operandPower : Expr → Power
  | .assign _ _ _ => .comma
  | .binary _ op _ _ => op.power
  | .not _ _ => .unary
  | _ => .primary

theorem operandPower_le (e : Expr) : e.operandPower.level ≤ e.power.level := by
  cases e with
  | assign => exact (by decide : Power.comma.level ≤ Power.assignment.level)
  | _ => exact le_rfl

/-- The power of the operator or suffix that an expression was extended by last. -/
def lastPower? : Expr → Option Power
  | .assign _ _ _ => some .assignment
  | .binary _ op _ _ => some op.power
  | .call _ _ _ | .templateCall _ _ _ _ | .index _ _ _ => some .call
  | .member _ _ _ _ => some .member
  | _ => none

theorem power_of_isNamed (h : e.isNamed) : e.power = .primary := by
  cases e <;> first | rfl | cases h

theorem operandPower_of_isNamed (h : e.isNamed) : e.operandPower = .primary := by
  cases e <;> first | rfl | cases h

theorem tip_of_isNamed (h : e.isNamed) : e.tip = e := by
  cases e <;> first | rfl | cases h

structure Halts (p : Power) (e : Expr) (d : Cursor) : Prop where
  power : ∀ q, d.kind.extensionPower? = some q → ¬ p < q
  less : d.kind = .less → e.tip.isNamed → typeArgumentsAhead d.kindsAhead = false

structure Begun (p : Power) (c : Cursor) (e : Expr) (d : Cursor) : Prop where
  read : e.At c d
  last : ∀ q, e.lastPower? = some q → p < q
  settled : e.isNamed ∨ e.Halts e.operandPower d

structure Read (p : Power) (c : Cursor) (e : Expr) (d : Cursor) : Prop where
  read : e.At c d
  last : ∀ q, e.lastPower? = some q → p < q
  power : ∀ q, d.kind.extensionPower? = some q → ¬ p < q
  less : p < .call → d.kind = .less → e.tip.isNamed → typeArgumentsAhead d.kindsAhead = false

/-- What is read at a power is an operand of that power, or an operator in front of one. -/
theorem Read.binds (h : Read p c e d) : p < e.power ∨ ¬ e.power < .unary := by
  cases e with
  | assign => exact .inl (h.last _ rfl)
  | binary => exact .inl (h.last _ rfl)
  | not => exact .inr (by decide : ¬ Power.unary < .unary)
  | _ => exact .inr (by decide : ¬ Power.primary < .unary)

theorem At.span (h : e.At c d) : e.span = ⟨c.position, d.lastEnd⟩ := by cases h <;> rfl

mutual

theorem At.before {c d : Cursor} {e : Expr} (h : e.At c d) : c.Before d := by
  cases h with
  | int h | float h | string h | symbol h => exact (Cursor.before_next h (by decide)).fresh
  | negativeInt hdash h | negativeFloat hdash h =>
    exact ((Cursor.before_next hdash (by decide)).trans (Cursor.before_next h (by decide))).fresh
  | paren hopen hinner hclose =>
    exact (((Cursor.before_next hopen (by decide)).trans hinner.before).trans
      (Cursor.before_next hclose (by decide))).fresh
  | @literal _ _ k _ hopen helements =>
    exact ((Cursor.before_next hopen k.opening_ne).trans (before_items k.closing_ne helements)).fresh
  | @construct _ k h hname =>
    have hk : k.constructorKind ≠ .eof := by cases k <;> decide
    exact ((Cursor.before_next h hk).trans (Cursor.before_next hname (by decide))).fresh.fresh
  | not h hoperand => exact ((Cursor.before_next h (by decide)).trans hoperand.before).fresh
  | @binary _ _ _ op _ _ hleft h hright =>
    have hop : op.kind ≠ .eof := by cases op <;> decide
    exact ((hleft.before.trans (Cursor.before_next h hop)).trans hright.before).fresh
  | assign htarget h hvalue =>
    exact ((htarget.before.trans (Cursor.before_next h (by decide))).trans hvalue.before).fresh
  | call hcallee h _ harguments =>
    exact ((hcallee.before.trans (Cursor.before_next h (by decide))).trans
      (before_items (by decide) harguments)).fresh
  | templateCall hcallee h _ htypes hopen harguments =>
    have hless := hcallee.before.trans (Cursor.before_next h (by decide))
    have hgreater := (hless.trans_reaches htypes.reaches).trans
      (Cursor.before_next htypes.kind (by decide))
    exact ((hgreater.trans (Cursor.before_next hopen (by decide))).trans
      (before_items (by decide) harguments)).fresh
  | index hbase h _ hposition hclose =>
    exact (((hbase.before.trans (Cursor.before_next h (by decide))).trans hposition.before).trans
      (Cursor.before_next hclose (by decide))).fresh
  | @member _ _ k _ hstem h _ hname =>
    have hk : k.accessKind ≠ .eof := by cases k <;> decide
    exact ((hstem.before.trans (Cursor.before_next h hk)).trans
      (Cursor.before_next hname (by decide))).fresh

theorem before_items {c d : Cursor} {close : TokenKind} {items : List Expr} (hclose : close ≠ .eof)
    (h : ItemsAt Expr.At c close items d) : c.Before d := by
  cases h with
  | nil h => exact Cursor.before_next h hclose
  | last ha h => exact ha.before.trans (Cursor.before_next h hclose)
  | more ha hcomma hitems =>
    exact (ha.before.trans (Cursor.before_next hcomma (by decide))).trans (before_items hclose hitems)

end

mutual

/-- The words of the tokens are derived from the grammar. -/
theorem At.reads {c d : Cursor} {e : Expr} (h : e.At c d) : e.Reads c.words d.words := by
  cases h with
  | int h hpoint hvalue =>
    rw [Cursor.words_text h rfl (by decide)]
    exact .int hpoint hvalue
  | negativeInt hdash h hpoint hvalue =>
    rw [Cursor.words_mark hdash rfl, Cursor.words_text h rfl (by decide)]
    exact .negativeInt hpoint hvalue
  | float h hpoint hvalue =>
    rw [Cursor.words_text h rfl (by decide)]
    exact .float hpoint hvalue
  | negativeFloat hdash h hpoint hvalue =>
    rw [Cursor.words_mark hdash rfl, Cursor.words_text h rfl (by decide)]
    exact .negativeFloat hpoint hvalue
  | string h =>
    rw [Cursor.words_text h rfl (by decide)]
    exact .string
  | symbol h =>
    rw [Cursor.words_text h rfl (by decide)]
    exact @Reads.symbol ⟨_, _⟩ _
  | paren hopen hinner hclose =>
    have hreads := hinner.reads
    rw [Cursor.words_mark hclose rfl] at hreads
    rw [Cursor.words_mark hopen rfl]
    exact .paren hreads
  | @literal _ _ k _ hopen helements =>
    rw [Cursor.words_mark hopen k.spelling?_opening]
    have hitems := reads_items k.spelling?_closing helements
    exact .literal hitems
  | @construct _ k h hname =>
    rw [Cursor.words_mark h k.spelling?_constructorKind, Cursor.words_text hname rfl (by decide)]
    exact @Reads.construct _ _ ⟨_, _⟩ _
  | not h hoperand hpower =>
    rw [Cursor.words_mark h rfl]
    exact .not hoperand.reads hpower
  | @binary _ d _ op _ _ hleft h hright hleftPower hrightPower hless =>
    have hwords := Cursor.words_mark h op.spelling?_kind
    have hreads := hleft.reads
    rw [hwords] at hreads
    refine .binary hreads hright.reads hleftPower hrightPower ?_
    rwa [← Cursor.typeArgumentsAhead_kindsAhead hwords]
  | assign htarget h hvalue hpower =>
    have hreads := htarget.reads
    rw [Cursor.words_mark h rfl] at hreads
    exact .assign hreads hvalue.reads hpower
  | call hcallee h hpower harguments =>
    have hreads := hcallee.reads
    have hitems := reads_items rfl harguments
    rw [Cursor.words_mark h rfl] at hreads
    exact .call hreads hpower hitems
  | templateCall hcallee h hnamed htypes hopen harguments =>
    have hreads := hcallee.reads
    have hitems := reads_items rfl harguments
    rw [Cursor.words_mark h rfl, htypes.words, Cursor.words_mark htypes.kind rfl,
      Cursor.words_mark hopen rfl] at hreads
    exact .templateCall hreads hnamed hitems
  | index hbase h hpower hposition hclose =>
    have hreads := hbase.reads
    have hreads' := hposition.reads
    rw [Cursor.words_mark h rfl] at hreads
    rw [Cursor.words_mark hclose rfl] at hreads'
    exact .index hreads hpower hreads'
  | @member _ _ k _ hstem h hpower hname =>
    have hreads := hstem.reads
    rw [Cursor.words_mark h k.spelling?_accessKind, Cursor.words_text hname rfl (by decide)] at hreads
    exact .member hreads hpower

theorem reads_items {c d : Cursor} {close : TokenKind} {items : List Expr}
    (hclose : close.spelling?.isSome) (h : ItemsAt Expr.At c close items d) :
    Items Expr.Reads c.words close items d.words := by
  cases h with
  | nil h =>
    rw [Cursor.words_mark h hclose]
    exact .nil
  | last ha h =>
    have hreads := ha.reads
    rw [Cursor.words_mark h hclose] at hreads
    exact .last hreads
  | more ha hcomma hitems =>
    have hreads := ha.reads
    rw [Cursor.words_mark hcomma rfl] at hreads
    exact .more hreads (reads_items hclose hitems)

end

/-- An expression that is not named and ends in no operand may be followed by anything. -/
theorem halts_primary (h : e.tip.isNamed = false) : e.Halts .primary d where
  power := by
    intro q _ hlt
    have := q.level_le
    rw [Power.lt_iff] at hlt
    omega
  less := by simp [h]

theorem Begun.not_lt (h : Begun p c e d) (hq : d.kind.extensionPower? = some q) :
    ¬ e.operandPower < q := by
  rcases h.settled with hnamed | hhalts
  · rw [operandPower_of_isNamed hnamed, Power.lt_iff]
    have := q.level_le
    omega
  · exact hhalts.power q hq

/-- What a suffix follows is no operator with operands. -/
theorem Begun.unary_lt (h : Begun p c e d) (hq : d.kind.extensionPower? = some q) (hlt : .unary < q) :
    .unary < e.power := by
  have hpower := h.not_lt hq
  have hle := e.operandPower_le
  rw [Power.lt_iff] at *
  omega

theorem begun_atom (h : e.At c d) (hlast : ∀ q, e.lastPower? = some q → p < q)
    (hoperand : e.operandPower = .primary) (htip : e.tip = e) : Begun p c e d where
  read := h
  last := hlast
  settled := by
    cases hnamed : e.isNamed with
    | true => exact .inl rfl
    | false =>
      right
      rw [hoperand]
      exact halts_primary (by rw [htip, hnamed])

/-- An expression that a token starts and that no operator has extended. -/
theorem begun_start (h : e.At c d) (hlast : e.lastPower? = none) (hoperand : e.operandPower = .primary)
    (htip : e.tip = e) : Begun p c e d :=
  begun_atom h (by simp [hlast]) hoperand htip

end Expr

namespace Parser

/-- From the cursors behind a first one on, the parser reads expressions. -/
def ReadsBehind (w : Region) (E : Prop) (expr : Power → Parser Expr) (c : Cursor) : Prop :=
  ∀ d p, c.Before d → Runs w E (expr p) d (Expr.Read p d)

variable {w : Region} {E : Prop} {expr : Power → Parser Expr} {p : Power} {c c₀ : Cursor}

section Primary

theorem toList_signed (negative : Bool) (text : String) :
    (if negative then "-" ++ text else text).toList =
      (if negative then ['-'] else []) ++ text.toList := by
  cases negative <;> simp

theorem runs_number {token : Token} {negative : Bool} {start : Position} {Q : Expr → Cursor → Prop}
    (hmarks : w.stream.Marks token.span.start)
    (hdecimal : ∀ value, '.' ∈ token.value.toList →
      Numeral.decimal? ((if negative then ['-'] else []) ++ token.value.toList) = some value →
      Q (.float ⟨⟨c.nextId⟩, ⟨start, token.span.stop⟩⟩ value) c.fresh)
    (hinteger : ∀ value, '.' ∉ token.value.toList →
      Numeral.integer? ((if negative then ['-'] else []) ++ token.value.toList) = some value →
      Q (.int ⟨⟨c.nextId⟩, ⟨start, token.span.stop⟩⟩ value) c.fresh) :
    Runs w E (number token negative start) c Q := by
  have hpoint : token.value.toList.contains '.' ↔ '.' ∈ token.value.toList := by simp
  simp only [number, hpoint, toList_signed]
  split
  next hmem =>
    split
    next value hvalue => exact runs_nodeAt (runs_pure (hdecimal value hmem hvalue))
    next => exact runs_reject hmarks
  next hmem =>
    split
    next value hvalue => exact runs_nodeAt (runs_pure (hinteger value hmem hvalue))
    next => exact runs_reject hmarks

theorem runs_positive (h : c.kind = .number) :
    Runs w E (do let token ← advance; number token false token.span.start) c (Expr.Begun p c) := by
  have hnode := Cursor.cover_next (c := c) (by rw [h]; decide)
  refine runs_in fun hc => runs_advance (runs_number hc.marks ?_ ?_)
  · intro value hpoint hvalue
    exact Expr.begun_start (hnode ▸ .float h hpoint hvalue) rfl rfl rfl
  · intro value hpoint hvalue
    exact Expr.begun_start (hnode ▸ .int h hpoint hvalue) rfl rfl rfl

theorem runs_negativeNumber (h : c.kind = .dash) : Runs w E negativeNumber c (Expr.Begun p c) := by
  refine runs_advance (runs_kind ?_)
  split
  · exact runs_fail (runs_unexpectedBecause _)
  next hnumber =>
    have hnumber := not_not.1 hnumber
    have hend : c.next.next.lastEnd = c.next.current.span.stop :=
      Cursor.lastEnd_next (by rw [hnumber]; decide)
    refine runs_in fun hc => runs_advance (runs_number hc.marks ?_ ?_)
    · intro value hpoint hvalue
      exact Expr.begun_start (hend ▸ .negativeFloat h hnumber hpoint hvalue) rfl rfl rfl
    · intro value hpoint hvalue
      exact Expr.begun_start (hend ▸ .negativeInt h hnumber hpoint hvalue) rfl rfl rfl

theorem runs_reference {f : Reference → Parser Expr} {Q : Expr → Cursor → Prop}
    (h : c.kind = .identifier → Runs w E (f ⟨c.cover c.next, c.current.value⟩) c.next.fresh Q) :
    Runs w E (reference >>= f) c Q := by
  have href : Runs w E reference c fun ref d => c.kind = .identifier ∧
      ref = ⟨c.cover c.next, c.current.value⟩ ∧ d = c.next.fresh := by
    refine runs_expect fun hname => runs_nodeAt (runs_pure ⟨hname, ?_, rfl⟩)
    rw [← Cursor.cover_next (by rw [hname]; decide)]
  refine href.bind ?_
  rintro _ _ ⟨hname, rfl, rfl⟩
  exact h hname

theorem runs_constructor {k : Composite} (h : c.kind = k.constructorKind) :
    Runs w E (constructor k) c (Expr.Begun p c) := by
  refine runs_advance (runs_reference fun hname => runs_nodeFrom (runs_pure ?_))
  exact Expr.begun_start (.construct h hname) rfl rfl rfl

theorem runs_exprList {close : TokenKind} {Q : List Expr → Cursor → Prop}
    (hexpr : ReadsBehind w E expr c₀) (hc : c₀.Before c)
    (h : ∀ es d, ItemsAt Expr.At c close es d → Q es d) : Runs w E (exprList expr close) c Q := by
  refine runs_commaSeparated (fun d hd => ?_) h
  exact (hexpr d .comma (hc.trans_reaches hd)).mono id fun e _ he => ⟨he.read, he.read.before⟩

theorem runs_literal {k : Container} (hexpr : ReadsBehind w E expr c) (h : c.kind = k.opening) :
    Runs w E (literal expr k k.closing) c (Expr.Begun p c) := by
  refine runs_advance (Runs.bind (runs_exprList hexpr (Cursor.before_next h k.opening_ne)
    fun _ _ helements => helements) fun elements d helements => ?_)
  exact runs_nodeFrom (runs_pure (Expr.begun_start (.literal h helements) rfl rfl rfl))

theorem runs_grouping (hexpr : ReadsBehind w E expr c) (h : c.kind = .openParen) :
    Runs w E (grouping expr) c (Expr.Begun p c) := by
  refine runs_advance ((hexpr _ .lowest (Cursor.before_next h (by decide))).bind fun inner d hinner => ?_)
  refine runs_discard (runs_expect fun hclose => runs_nodeFrom (runs_pure ?_))
  exact Expr.begun_start (.paren h hinner.read hclose) rfl rfl rfl

theorem runs_negation (hexpr : ReadsBehind w E expr c) (h : c.kind = .not) :
    Runs w E (negation expr) c (Expr.Begun p c) := by
  refine runs_advance ((hexpr _ .unary (Cursor.before_next h (by decide))).bind fun operand d hread => ?_)
  have hpower : ¬ operand.power < .unary :=
    hread.binds.elim (fun hlt => Nat.lt_asymm hlt) id
  refine runs_nodeAt (runs_pure ⟨?_, by simp [Expr.lastPower?], .inr ?_⟩)
  · rw [hread.read.span]
    exact .not h hread.read hpower
  · exact ⟨hread.power, hread.less (by decide)⟩

theorem runs_primary (hexpr : ReadsBehind w E expr c) :
    Runs w E (primary expr) c (Expr.Begun p c) := by
  refine runs_kind ?_
  split
  next h => exact runs_positive h
  next h =>
    exact runs_reference fun _ => runs_pure (Expr.begun_start (.symbol h) rfl rfl rfl)
  next h =>
    refine runs_advance (runs_nodeAt (runs_pure (Expr.begun_start ?_ rfl rfl rfl)))
    rw [← Cursor.cover_next (by rw [h]; decide)]
    exact .string h
  next h => exact runs_negativeNumber h
  next h => exact runs_negation hexpr h
  next h => exact runs_grouping hexpr h
  next h => exact runs_literal (k := .array) hexpr h
  next h => exact runs_literal (k := .set) hexpr h
  next h => exact runs_constructor (k := .struct) h
  next h => exact runs_constructor (k := .cls) h
  next => exact runs_unexpected

end Primary

section TypeArguments

theorem accepts_typeWords {stage : TypeArgumentStage} (h : stage = .start ∨ stage = .name)
    (t : TypeExpr) (ws : List Word) :
    stage.accepts ((t.words ++ ws).map Word.kind) = TypeArgumentStage.suffix.accepts
      (ws.map Word.kind) := by
  induction t generalizing ws with
  | name node text => rcases h with rfl | rfl <;> rfl
  | container node c component ih =>
    rw [TypeExpr.words, List.append_assoc, ih]
    cases c <;> rfl

/-- The type arguments found so far, at the cursor behind them. The lookahead has seen that the tokens go
on as type arguments: with one more, or with what may stand behind one. -/
inductive TypesTo (c : Cursor) : List TypeExpr → Cursor → Prop
  | next {types : List TypeExpr} {d : Cursor} {stage : TypeArgumentStage}
    (hstage : stage = .start ∧ types = [] ∧ d = c ∨ stage = .name)
    (hmore : ∀ t more e, TypeExpr.ListAt d (t :: more) e →
      TypeExpr.ListAt c (types.reverse ++ t :: more) e)
    (h : stage.accepts (d.words.map Word.kind)) : TypesTo c types d
  | behind {types : List TypeExpr} {d : Cursor}
    (hall : d.kind = .greater → TypeExpr.ListAt c types.reverse d)
    (h : TypeArgumentStage.suffix.accepts (d.words.map Word.kind)) : TypesTo c types d

/-- One more type argument. Without a comma before it the lookahead would have failed. -/
theorem TypesTo.snoc {c d e : Cursor} {types : List TypeExpr} {t : TypeExpr} (h : TypesTo c types d)
    (ht : t.At d e) :
    (∀ more f, TypeExpr.ListAt d (t :: more) f → TypeExpr.ListAt c (types.reverse ++ t :: more) f) ∧
      TypeArgumentStage.suffix.accepts (e.words.map Word.kind) := by
  cases h with
  | next hstage hmore h =>
    rw [ht.words, accepts_typeWords (hstage.imp_left And.left)] at h
    exact ⟨fun more f => hmore t more f, h⟩
  | behind hall h =>
    obtain ⟨text, tail, hwords⟩ := t.exists_words
    rw [ht.words, hwords] at h
    cases h

theorem runs_typeArgumentStep {types : List TypeExpr} (h : TypesTo c₀ types c) :
    Runs w E (typeArgumentStep types) c fun r d =>
      r.elim (fun more => TypesTo c₀ more d ∧ c.Before d) fun all =>
        d.kind = .greater → TypeExpr.ListAt c₀ all d := by
  refine runs_kind ?_
  split
  next hgreater =>
    refine runs_pure fun _ => ?_
    cases h with
    | next hstage hmore h =>
      rcases hstage with ⟨_, rfl, rfl⟩ | rfl
      · exact .nil hgreater
      · rw [Cursor.words_mark hgreater rfl] at h
        cases h
    | behind hall h => exact hall hgreater
  next =>
    refine runs_typeExpr.bind fun t d ht => ?_
    obtain ⟨hmore, haccepts⟩ := h.snoc ht
    refine runs_kind ?_
    split
    next hcomma =>
      have hpast := ht.before.trans (Cursor.before_next hcomma (by decide))
      rw [Cursor.words_mark hcomma rfl] at haccepts
      refine runs_discard (runs_advance (runs_pure ⟨.next (.inr rfl) ?_ haccepts, hpast⟩))
      intro u more e hlist
      simpa using hmore (u :: more) e (.more ht hcomma hlist)
    next =>
      refine runs_pure ⟨.behind (fun hgreater => ?_) haccepts, ht.before⟩
      simpa using hmore [] d (.last ht hgreater)

theorem runs_typeArguments {f : List TypeExpr → Parser Expr} {Q : Expr → Cursor → Prop}
    (hahead : TypeArgumentStage.start.accepts (c.words.map Word.kind))
    (h : ∀ types d, TypeExpr.ListAt c types d → Runs w E (f types) d.next Q) :
    Runs w E (typeArguments >>= f) c Q := by
  have hall : Runs w E typeArguments c fun types e => ∃ d, TypeExpr.ListAt c types d ∧ e = d.next := by
    have hstart : TypesTo c [] c := .next (.inl ⟨rfl, rfl, rfl⟩) (fun _ _ _ h => h) hahead
    refine (runs_iterate (fun types d hd => runs_typeArgumentStep hd) hstart).bind fun types d hd => ?_
    exact runs_discard (runs_expect fun hgreater => runs_pure ⟨d, hd hgreater, rfl⟩)
  refine hall.bind ?_
  rintro types _ ⟨d, hd, rfl⟩
  exact h types d hd

end TypeArguments

section Extensions

variable {left : Expr}

theorem runs_assignment (hexpr : ReadsBehind w E expr c₀) (h : c.kind = .assignment)
    (hleft : left.Begun p c₀ c) (hp : p < .assignment) :
    Runs w E (assignment expr left) c fun e d => e.Begun p c₀ d ∧ c.Before d := by
  have hpower := hleft.not_lt (q := .assignment) (by rw [h]; rfl)
  have hnext := Cursor.before_next h (by decide)
  have htarget : .assignment < left.power := by
    cases left with
    | assign => exact absurd (by decide : Power.comma < .assignment) hpower
    | binary node op => exact op.assignment_lt_power
    | not => exact (by decide : Power.assignment < .unary)
    | _ => exact (by decide : Power.assignment < .primary)
  refine runs_discard (runs_advance ((hexpr _ .comma (hleft.read.before.trans hnext)).bind fun value d hvalue => ?_))
  refine runs_nodeAt (runs_pure ⟨⟨?_, by simpa [Expr.lastPower?] using hp, .inr ?_⟩,
    (hnext.trans hvalue.read.before).fresh⟩)
  · rw [hleft.read.span, hvalue.read.span]
    exact .assign hleft.read h hvalue.read htarget
  · exact ⟨hvalue.power, hvalue.less (by decide)⟩

theorem runs_binary (hexpr : ReadsBehind w E expr c₀) {op : BinaryOp} (h : c.kind = op.kind)
    (hleft : left.Begun p c₀ c) (hp : p < op.power)
    (hless : c.kind = .less → left.tip.isNamed → typeArgumentsAhead c.kindsAhead = false) :
    Runs w E (binary expr left op op.power) c fun e d => e.Begun p c₀ d ∧ c.Before d := by
  have hop : op.kind ≠ .eof := by cases op <;> decide
  have hpower := hleft.not_lt (q := op.power) (by rw [h]; cases op <;> rfl)
  have hnext := Cursor.before_next h hop
  have hunary := op.power_lt_unary
  have hleftPower : ¬ left.power < op.power := by
    have := left.operandPower_le
    rw [Power.lt_iff] at hpower ⊢
    omega
  refine runs_discard (runs_advance ((hexpr _ op.power (hleft.read.before.trans hnext)).bind
    fun right d hright => ?_))
  have hrightPower : op.power < right.power :=
    hright.binds.elim id fun hge => Nat.lt_of_lt_of_le hunary (Nat.not_lt.1 hge)
  refine runs_nodeAt (runs_pure ⟨⟨?_, by simpa [Expr.lastPower?] using hp, .inr ?_⟩,
    (hnext.trans hright.read.before).fresh⟩)
  · rw [hleft.read.span, hright.read.span]
    refine .binary hleft.read h hright.read hleftPower hrightPower ?_
    rintro rfl
    exact hless h
  · exact ⟨hright.power, hright.less (Nat.lt_trans hunary (by decide))⟩

theorem runs_call (hexpr : ReadsBehind w E expr c₀) (h : c.kind = .openParen)
    (hleft : left.Begun p c₀ c) (hp : p < .call) : Runs w E (call expr left) c fun e d => e.Begun p c₀ d ∧ c.Before d := by
  have hpower := hleft.unary_lt (q := .call) (by rw [h]; rfl) (by decide)
  have hnext := Cursor.before_next h (by decide)
  refine runs_discard (runs_expect fun _ => ?_)
  refine Runs.bind (runs_exprList hexpr (hleft.read.before.trans hnext) fun _ _ hall => hall)
    fun arguments d hall => runs_nodeFrom (runs_pure ⟨?_, ?_⟩)
  · refine Expr.begun_atom ?_ (by simpa [Expr.lastPower?] using hp) rfl rfl
    rw [hleft.read.span]
    exact .call hleft.read h hpower hall
  · exact (hnext.trans (Expr.before_items (by decide) hall)).fresh

theorem runs_index (hexpr : ReadsBehind w E expr c₀) (h : c.kind = .openBracket)
    (hleft : left.Begun p c₀ c) (hp : p < .call) : Runs w E (index expr left) c fun e d => e.Begun p c₀ d ∧ c.Before d := by
  have hpower := hleft.unary_lt (q := .call) (by rw [h]; rfl) (by decide)
  have hnext := Cursor.before_next h (by decide)
  refine runs_discard (runs_expect fun _ => ?_)
  refine (hexpr _ .lowest (hleft.read.before.trans hnext)).bind fun position d hread => ?_
  refine runs_discard (runs_expect fun hclose => runs_nodeFrom (runs_pure ⟨?_, ?_⟩))
  · refine Expr.begun_atom ?_ (by simpa [Expr.lastPower?] using hp) rfl rfl
    rw [hleft.read.span]
    exact .index hleft.read h hpower hread.read hclose
  · exact ((hnext.trans hread.read.before).trans (Cursor.before_next hclose (by decide))).fresh

theorem runs_member {k : Composite} (h : c.kind = k.accessKind) (hleft : left.Begun p c₀ c)
    (hp : p < .member) : Runs w E (member k left) c fun e d => e.Begun p c₀ d ∧ c.Before d := by
  have hpower := hleft.unary_lt (q := .member) (by rw [h]; cases k <;> rfl) (by decide)
  have hk : k.accessKind ≠ .eof := by cases k <;> decide
  refine runs_discard (runs_advance (runs_expect fun hname => runs_nodeFrom (runs_pure ⟨?_, ?_⟩)))
  · refine Expr.begun_atom ?_ (by simpa [Expr.lastPower?] using hp) rfl rfl
    rw [hleft.read.span]
    exact .member hleft.read h hpower hname
  · exact ((Cursor.before_next h hk).trans (Cursor.before_next hname (by decide))).fresh

theorem runs_templateCall (hexpr : ReadsBehind w E expr c₀) (hleft : left.Begun p c₀ c)
    (h : c.atTemplateCall left) (hp : p < .call) :
    Runs w E (templateCall expr left) c fun e d => e.Begun p c₀ d ∧ c.Before d := by
  obtain ⟨⟨hless, hnamed⟩, hahead⟩ :
      (c.kind = .less ∧ left.isNamed) ∧ typeArgumentsAhead c.kindsAhead := by
    simpa [Cursor.atTemplateCall] using h
  rw [Cursor.typeArgumentsAhead_kindsAhead (Cursor.words_mark hless rfl),
    TypeArgumentStage.typeArgumentsAhead_eq_accepts] at hahead
  refine runs_discard (runs_expect fun _ => runs_typeArguments hahead fun types d htypes => ?_)
  refine runs_discard (runs_expect fun hopen => ?_)
  have hnext := (((Cursor.before_next hless (by decide)).trans_reaches htypes.reaches).trans
    (Cursor.before_next htypes.kind (by decide))).trans (Cursor.before_next hopen (by decide))
  refine Runs.bind (runs_exprList hexpr (hleft.read.before.trans hnext) fun _ _ hall => hall)
    fun arguments e hall => runs_nodeFrom (runs_pure ⟨?_, ?_⟩)
  · refine Expr.begun_atom ?_ (by simpa [Expr.lastPower?] using hp) rfl rfl
    rw [hleft.read.span]
    exact .templateCall hleft.read hless hnamed htypes hopen hall
  · exact (hnext.trans (Expr.before_items (by decide) hall)).fresh

theorem runs_extension (hexpr : ReadsBehind w E expr c₀) {q : Power}
    (hq : c.kind.extensionPower? = some q) (hpq : p < q) (hleft : left.Begun p c₀ c)
    (hless : p < .call → c.kind = .less → left.tip.isNamed → typeArgumentsAhead c.kindsAhead = false) :
    Runs w E (extension expr left c.kind q) c fun e d => e.Begun p c₀ d ∧ c.Before d := by
  rcases TokenKind.extensionPower?_cases hq with
    ⟨h, rfl⟩ | ⟨h, rfl⟩ | ⟨h, rfl⟩ | ⟨k, h, rfl⟩ | ⟨op, h, rfl⟩
  · rw [h]
    exact runs_assignment hexpr h hleft hpq
  · rw [h]
    exact runs_call hexpr h hleft hpq
  · rw [h]
    exact runs_index hexpr h hleft hpq
  · have heq : extension expr left k.accessKind .member = member k left := by cases k <;> rfl
    rw [h, heq]
    exact runs_member h hleft hpq
  · have heq : extension expr left op.kind op.power = binary expr left op op.power := by
      cases op <;> rfl
    rw [h, heq]
    exact runs_binary hexpr h hleft hpq (hless (Nat.lt_trans hpq (op.power_lt_unary.trans (by decide))))

theorem runs_extensionStep (hexpr : ReadsBehind w E expr c₀) (hleft : left.Begun p c₀ c) :
    Runs w E (extensionStep expr p left) c fun r d =>
      r.elim (fun e => e.Begun p c₀ d ∧ c.Before d) fun e => e.Read p c₀ d := by
  refine runs_get ?_
  split
  next htemplate =>
    exact (runs_templateCall hexpr hleft htemplate.2 htemplate.1).bind fun e d h => runs_pure h
  next htemplate =>
    have hless : p < .call → c.kind = .less → left.tip.isNamed →
        typeArgumentsAhead c.kindsAhead = false := by
      intro hp hless htip
      rcases hleft.settled with hnamed | hhalts
      · have hnot : c.atTemplateCall left = false := by simpa [hp] using htemplate
        simpa [Cursor.atTemplateCall, hless, hnamed] using hnot
      · exact hhalts.less hless htip
    split
    next q hq =>
      split
      next hpq => exact (runs_extension hexpr hq hpq hleft hless).bind fun e d h => runs_pure h
      next hpq =>
        refine runs_pure ⟨hleft.read, hleft.last, ?_, hless⟩
        rintro q' hq'
        cases hq.symm.trans hq'
        exact hpq
    next hnone =>
      refine runs_pure ⟨hleft.read, hleft.last, ?_, hless⟩
      intro q hq
      cases hnone.symm.trans hq

theorem runs_expression (hexpr : ReadsBehind w E expr c) :
    Runs w E (expression expr p) c (Expr.Read p c) :=
  (runs_primary hexpr).bind fun _ _ h =>
    runs_iterate (fun _ _ hleft => runs_extensionStep hexpr hleft) h

end Extensions

/-- An expression that is read is derived from the grammar, and more depth than tokens is enough. -/
theorem runs_exprWithin (depth : Nat) (p : Power) (c : Cursor) :
    Runs w (c.remaining < depth) (exprWithin depth p) c (Expr.Read p c) := by
  induction depth generalizing p c with
  | zero => exact runs_exhausted (Nat.not_lt_zero _)
  | succ depth ih =>
    refine runs_expression fun d p hd => (ih p d).mono (fun hlt => ?_) fun _ _ h => h
    have := hd.remaining_lt
    omega

theorem runs_expr (p : Power) (c : Cursor) : Runs w True (Parser.expr p) c (Expr.Read p c) :=
  runs_get ((runs_exprWithin _ p c).mono (fun _ => Nat.lt_succ_self _) fun _ _ h => h)

end Parser

end ScriptAnalysis
