import ScriptAnalysis.Proofs.Grammar.ExprSound

/-!
Expressions that the grammar derives are read. Where tokens are derived with a tree and nothing behind them
extends it, reading takes these tokens and gives that tree (`Parser.expr_eq_ok_iff`), and up to there it
goes through every left operand of the tree (`Parser.run_begun`). What is derived from words is derived
from any tokens with these words (`Expr.Reads.exists_at`).
-/
namespace ScriptAnalysis

open Word (mark firstKind)

section Bare

/-- The node of a tree whose nodes do not matter. -/
def Node.blank : Node := ⟨⟨0⟩, .null⟩

def TypeExpr.bare : TypeExpr → TypeExpr
  | .name _ text => .name .blank text
  | .container _ c component => .container .blank c component.bare

namespace Expr

mutual

def bare : Expr → Expr
  | .int _ value => .int .blank value
  | .float _ value => .float .blank value
  | .string _ value => .string .blank value
  | .symbol ref => .symbol ⟨.blank, ref.name⟩
  | .paren _ inner => .paren .blank inner.bare
  | .literal _ c elements => .literal .blank c (bareAll elements)
  | .not _ operand => .not .blank operand.bare
  | .binary _ op left right => .binary .blank op left.bare right.bare
  | .assign _ target value => .assign .blank target.bare value.bare
  | .call _ callee arguments => .call .blank callee.bare (bareAll arguments)
  | .templateCall _ callee types arguments =>
    .templateCall .blank callee.bare (types.map TypeExpr.bare) (bareAll arguments)
  | .index _ base position => .index .blank base.bare position.bare
  | .member _ c stem name => .member .blank c stem.bare name
  | .construct _ c ref => .construct .blank c ⟨.blank, ref.name⟩

def bareAll : List Expr → List Expr
  | [] => []
  | e :: others => e.bare :: bareAll others

end

theorem bareAll_eq_map (es : List Expr) : bareAll es = es.map bare := by
  induction es with
  | nil => rfl
  | cons e es ih => rw [bareAll, ih, List.map_cons]

theorem isNamed_bare (e : Expr) : e.bare.isNamed = e.isNamed := by
  cases e <;> rw [bare] <;> rfl

theorem isNamed_of_bare {e e' : Expr} (h : e.bare = e'.bare) : e.isNamed = e'.isNamed := by
  rw [← e.isNamed_bare, h, e'.isNamed_bare]

theorem power_of_bare {e e' : Expr} (h : e.bare = e'.bare) : e.power = e'.power := by
  have hbare (e : Expr) : e.bare.power = e.power := by cases e <;> rw [bare] <;> rfl
  rw [← hbare e, h, hbare]

theorem tip_bare (e : Expr) : e.bare.tip = e.tip.bare := by
  cases e with
  | not _ operand => rw [bare, tip, tip, operand.tip_bare]
  | binary _ _ _ right => rw [bare, tip, tip, right.tip_bare]
  | assign _ _ value => rw [bare, tip, tip, value.tip_bare]
  | _ =>
    rw [bare]
    rfl

end Expr

end Bare

section Tokens

/-- The cursor shows the words, and set suffixes are allowed. -/
structure Cursor.Shows (c : Cursor) (ws : List Word) : Prop where
  words : c.words = ws
  setSuffix : c.setSuffix = true

namespace Cursor.Shows

variable {c : Cursor} {w : Word} {ws : List Word} {k : TokenKind} {text : String}

theorem kind (h : c.Shows ws) : c.kind = firstKind ws := by rw [kind_eq, h.words]

theorem fresh (h : c.Shows ws) : c.fresh.Shows ws := ⟨h.words, h.setSuffix⟩

theorem split (h : c.Shows (w :: ws)) : c.current.word = w ∧ c.next.Shows ws := by
  have hend : c.kind ≠ .eof := by
    intro heq
    have hwords := h.words
    rw [words_eq_nil heq] at hwords
    cases hwords
  have hwords := List.cons.inj ((words_of_kind hend).symm.trans h.words)
  refine ⟨hwords.1, hwords.2, ?_⟩
  rw [next_eq hend]
  exact h.setSuffix

theorem next (h : c.Shows (w :: ws)) : c.next.Shows ws := h.split.2

theorem value (h : c.Shows (⟨k, text⟩ :: ws)) (hk : k.spelling? = none) : c.current.value = text :=
  (Token.eq_of_word h.split.1 hk).2

end Cursor.Shows

theorem TypeExpr.exists_at (t : TypeExpr) {c : Cursor} {mid : List Word} (h : c.Shows (t.words ++ mid)) :
    ∃ (t' : TypeExpr) (d : Cursor), t'.At c d ∧ d.Shows mid ∧ t'.bare = t.bare := by
  induction t generalizing mid with
  | name node text =>
    refine ⟨_, _, .name h.kind, h.next.fresh, ?_⟩
    rw [bare, bare, h.value rfl]
  | container node k component ih =>
    rw [words, List.append_assoc] at h
    obtain ⟨t', d, ht, hd, hbare⟩ := ih h
    have hsuffix : d.typeSuffix? = some k := by
      rw [Cursor.typeSuffix?, hd.kind, Cursor.peek_one hd.words, hd.setSuffix]
      cases k <;> rfl
    refine ⟨_, _, .container ht hsuffix, hd.next.next.fresh, ?_⟩
    rw [bare, bare, hbare]

theorem TypeExpr.exists_listAt (types : List TypeExpr) {c : Cursor} {mid : List Word}
    (h : c.Shows (Word.commaJoined (types.map words) ++ mark .greater :: mid)) :
    ∃ (types' : List TypeExpr) (d : Cursor), ListAt c types' d ∧ d.Shows (mark .greater :: mid) ∧
      types'.map bare = types.map bare := by
  induction types generalizing c with
  | nil => exact ⟨[], c, .nil h.kind, h, rfl⟩
  | cons t types ih =>
    cases types with
    | nil =>
      obtain ⟨t', d, ht, hd, hbare⟩ := t.exists_at h
      exact ⟨[t'], d, .last ht hd.kind, hd, by rw [List.map_singleton, hbare, List.map_singleton]⟩
    | cons u types =>
      rw [List.map_cons, List.map_cons, Word.commaJoined, List.append_assoc] at h
      obtain ⟨t', d, ht, hd, hbare⟩ := t.exists_at h
      obtain ⟨types', e, htypes, he, hbares⟩ := ih hd.next
      obtain ⟨u', types', rfl⟩ : ∃ u' us, types' = u' :: us := by
        cases types' with
        | nil => cases hbares
        | cons u' us => exact ⟨u', us, rfl⟩
      exact ⟨_, e, .more ht hd.kind htypes, he, by rw [List.map_cons, hbare, hbares]; rfl⟩

namespace Expr

mutual

/-- The tokens of an expression that is derived from words are derived with it, up to its nodes. -/
theorem Reads.exists_at {input rest : List Word} {e : Expr} (h : e.Reads input rest) :
    ∀ c : Cursor, c.Shows input →
      ∃ (e' : Expr) (d : Cursor), e'.At c d ∧ d.Shows rest ∧ e'.bare = e.bare := by
  intro c hc
  cases h with
  | int hpoint hvalue =>
    rw [← hc.value rfl] at hpoint hvalue
    exact ⟨_, _, .int hc.kind hpoint hvalue, hc.next.fresh, by rw [bare, bare]⟩
  | negativeInt hpoint hvalue =>
    rw [← hc.next.value rfl] at hpoint hvalue
    exact ⟨_, _, .negativeInt hc.kind hc.next.kind hpoint hvalue, hc.next.next.fresh, by rw [bare, bare]⟩
  | float hpoint hvalue =>
    rw [← hc.value rfl] at hpoint hvalue
    exact ⟨_, _, .float hc.kind hpoint hvalue, hc.next.fresh, by rw [bare, bare]⟩
  | negativeFloat hpoint hvalue =>
    rw [← hc.next.value rfl] at hpoint hvalue
    exact ⟨_, _, .negativeFloat hc.kind hc.next.kind hpoint hvalue, hc.next.next.fresh,
      by rw [bare, bare]⟩
  | string => exact ⟨_, _, .string hc.kind, hc.next.fresh, by rw [bare, bare, hc.value rfl]⟩
  | symbol => exact ⟨_, _, .symbol hc.kind, hc.next.fresh, by rw [bare, bare, hc.value rfl]⟩
  | paren hinner =>
    obtain ⟨inner', d, hinner', hd, hbare⟩ := hinner.exists_at _ hc.next
    exact ⟨_, _, .paren hc.kind hinner' hd.kind, hd.next.fresh, by rw [bare, bare, hbare]⟩
  | literal helements =>
    obtain ⟨elements', d, helements', hd, hbare⟩ := exists_itemsAt helements _ hc.next
    exact ⟨_, _, .literal hc.kind helements', hd.fresh, by rw [bare, bare, hbare]⟩
  | construct =>
    exact ⟨_, _, .construct hc.kind hc.next.kind, hc.next.next.fresh.fresh,
      by rw [bare, bare, hc.next.value rfl]⟩
  | not hoperand hpower =>
    obtain ⟨operand', d, hoperand', hd, hbare⟩ := hoperand.exists_at _ hc.next
    rw [← power_of_bare hbare] at hpower
    exact ⟨_, _, .not hc.kind hoperand' hpower, hd.fresh, by rw [bare, bare, hbare]⟩
  | binary hleft hright hleftPower hrightPower hless =>
    obtain ⟨left', d, hleft', hd, hbare⟩ := hleft.exists_at c hc
    obtain ⟨right', e, hright', he, hbare'⟩ := hright.exists_at _ hd.next
    rw [← power_of_bare hbare] at hleftPower
    rw [← power_of_bare hbare'] at hrightPower
    refine ⟨_, _, .binary hleft' hd.kind hright' hleftPower hrightPower ?_, he.fresh,
      by rw [bare, bare, hbare, hbare']⟩
    rw [Cursor.typeArgumentsAhead_kindsAhead hd.words, ← isNamed_bare, ← tip_bare, hbare, tip_bare,
      isNamed_bare]
    exact hless
  | assign htarget hvalue hpower =>
    obtain ⟨target', d, htarget', hd, hbare⟩ := htarget.exists_at c hc
    obtain ⟨value', e, hvalue', he, hbare'⟩ := hvalue.exists_at _ hd.next
    rw [← power_of_bare hbare] at hpower
    exact ⟨_, _, .assign htarget' hd.kind hvalue' hpower, he.fresh, by rw [bare, bare, hbare, hbare']⟩
  | call hcallee hpower harguments =>
    obtain ⟨callee', d, hcallee', hd, hbare⟩ := hcallee.exists_at c hc
    obtain ⟨arguments', e, harguments', he, hbare'⟩ := exists_itemsAt harguments _ hd.next
    rw [← power_of_bare hbare] at hpower
    exact ⟨_, _, .call hcallee' hd.kind hpower harguments', he.fresh, by rw [bare, bare, hbare, hbare']⟩
  | @templateCall _ _ types _ _ _ _ hcallee hnamed harguments =>
    obtain ⟨callee', d, hcallee', hd, hbare⟩ := hcallee.exists_at c hc
    obtain ⟨types', e, htypes', he, hbares⟩ := TypeExpr.exists_listAt types hd.next
    obtain ⟨arguments', f, harguments', hf, hbare'⟩ := exists_itemsAt harguments _ he.next.next
    rw [← isNamed_of_bare hbare] at hnamed
    exact ⟨_, _, .templateCall hcallee' hd.kind hnamed htypes' he.next.kind harguments', hf.fresh,
      by rw [bare, bare, hbare, hbares, hbare']⟩
  | index hbase hpower hposition =>
    obtain ⟨base', d, hbase', hd, hbare⟩ := hbase.exists_at c hc
    obtain ⟨position', e, hposition', he, hbare'⟩ := hposition.exists_at _ hd.next
    rw [← power_of_bare hbare] at hpower
    exact ⟨_, _, .index hbase' hd.kind hpower hposition' he.kind, he.next.fresh,
      by rw [bare, bare, hbare, hbare']⟩
  | member hstem hpower =>
    obtain ⟨stem', d, hstem', hd, hbare⟩ := hstem.exists_at c hc
    rw [← power_of_bare hbare] at hpower
    exact ⟨_, _, .member hstem' hd.kind hpower hd.next.kind, hd.next.next.fresh,
      by rw [bare, bare, hbare, hd.next.value rfl]⟩

theorem exists_itemsAt {input rest : List Word} {close : TokenKind} {items : List Expr}
    (h : Items Reads input close items rest) : ∀ c : Cursor, c.Shows input →
      ∃ (items' : List Expr) (d : Cursor), ItemsAt Expr.At c close items' d ∧ d.Shows rest ∧
        bareAll items' = bareAll items := by
  intro c hc
  cases h with
  | nil => exact ⟨[], _, .nil hc.kind, hc.next, rfl⟩
  | last ha =>
    obtain ⟨a', d, ha', hd, hbare⟩ := ha.exists_at c hc
    exact ⟨[a'], _, .last ha' hd.kind, hd.next, by rw [bareAll, hbare, bareAll, bareAll, bareAll]⟩
  | @more _ _ _ _ a items ha hitems =>
    obtain ⟨a', d, ha', hd, hbare⟩ := ha.exists_at c hc
    obtain ⟨items', e, hitems', he, hbares⟩ := exists_itemsAt hitems _ hd.next
    exact ⟨a' :: items', e, .more ha' hd.kind hitems', he,
      by rw [bareAll, hbare, hbares, bareAll]⟩

end

end Expr

end Tokens

section Operands

namespace Expr

variable {p q : Power} {e left : Expr} {c d : Cursor}

theorem comma_lt_power (e : Expr) : .comma < e.power := by
  cases e with
  | binary node op => exact lt_trans (by decide : Power.comma.level < 2) op.assignment_lt_power
  | assign => exact (by decide : Power.comma < .assignment)
  | not => exact (by decide : Power.comma < .unary)
  | _ => exact (by decide : Power.comma < .primary)

theorem operandPower_eq (h : .assignment < e.power) : e.operandPower = e.power := by
  cases e with
  | assign => exact absurd h (lt_irrefl Power.assignment.level)
  | _ => rfl

theorem power_of_unary_lt (h : .unary < e.power) : e.power = .primary := by
  cases e with
  | assign => exact absurd h (by decide : ¬ Power.unary < .assignment)
  | not => exact absurd h (by decide : ¬ Power.unary < .unary)
  | binary node op => exact absurd h (Nat.lt_asymm op.power_lt_unary)
  | _ => rfl

theorem At.startsExpr (h : e.At c d) : c.kind.startsExpr := by
  induction hn : sizeOf e using Nat.strong_induction_on generalizing e d with
  | _ n ih =>
    subst hn
    cases h with
    | int h | float h | string h | symbol h | negativeInt h | negativeFloat h | paren h | not h =>
      rw [h]
      rfl
    | @literal _ _ k _ h => rw [h]; cases k <;> rfl
    | @construct _ k h => rw [h]; cases k <;> rfl
    | binary h | assign h | call h | templateCall h | index h | member h =>
      exact ih _ (by simp; omega) h rfl

/-- Operators and suffixes inside an operand bind more tightly than the power it is read at. -/
theorem lt_of_lastPower? (hp : p < .call) (h : p < e.power ∨ ¬ e.power < .unary)
    (hq : e.lastPower? = some q) : p < q := by
  cases e with
  | assign =>
    cases hq
    exact h.resolve_right (not_not.2 (by decide : Power.assignment < .unary))
  | binary _ op =>
    cases hq
    exact h.resolve_right (not_not.2 op.power_lt_unary)
  | call | templateCall | index =>
    cases hq
    exact hp
  | member =>
    cases hq
    exact lt_trans hp (by decide : Power.call.level < Power.member.level)
  | _ => cases hq

theorem Halts.read (h : e.Halts p d) (hread : e.At c d) (hp : p < .call)
    (hbinds : p < e.power ∨ ¬ e.power < .unary) : Read p c e d :=
  ⟨hread, fun _ => lt_of_lastPower? hp hbinds, h.power, fun _ => h.less⟩

theorem halts_of_none (hd : d.kind.extensionPower? = none) : e.Halts p d where
  power q hq := by cases hd.symm.trans hq
  less hless := by
    rw [hless] at hd
    cases hd

theorem At.read (h : e.At c d) (hp : p.level ≤ Power.comma.level) (hd : d.kind.extensionPower? = none) :
    Read p c e d :=
  (halts_of_none hd).read h (Nat.lt_of_le_of_lt hp (by decide))
    (.inl (Nat.lt_of_le_of_lt hp e.comma_lt_power))

/-- The left operand of an extension has been read where it is extended. -/
theorem At.begun (h : left.At c d) (hq : d.kind.extensionPower? = some q) (hp : p < .call) (hpq : p < q)
    (hassignment : .assignment < left.power) (hpower : ¬ left.power < q)
    (hless : d.kind = .less → left.tip.isNamed → typeArgumentsAhead d.kindsAhead = false) :
    Begun p c left d where
  read := h
  last _ := lt_of_lastPower? hp (.inl (Nat.lt_of_lt_of_le hpq (Nat.not_lt.1 hpower)))
  settled := by
    refine .inr ⟨?_, hless⟩
    intro q' hq'
    cases hq.symm.trans hq'
    rwa [operandPower_eq hassignment]

theorem At.begun_suffix (h : left.At c d) (hq : d.kind.extensionPower? = some q) (hp : p < .call)
    (hpq : p < q) (hpower : .unary < left.power) (hless : d.kind ≠ .less) : Begun p c left d := by
  have hprimary := power_of_unary_lt hpower
  refine h.begun hq hp hpq ?_ ?_ fun h => absurd h hless
  · rw [hprimary]
    decide
  · rw [hprimary]
    exact Nat.not_lt.2 q.level_le

/-- What has been read has begun, and nothing extends the last operand either. -/
theorem Read.begun (h : Read p c e d) (hp : p < .call) : Begun p c e d := by
  have hhalts {q : Power} (hle : p.level ≤ q.level) : e.Halts q d :=
    ⟨fun r hr hlt => h.power r hr (Nat.lt_of_le_of_lt hle hlt), h.less hp⟩
  refine ⟨h.read, h.last, ?_⟩
  cases e with
  | assign =>
    exact .inr (hhalts (Nat.le_of_lt_succ (h.last _ rfl)))
  | binary => exact .inr (hhalts (Nat.le_of_lt (h.last _ rfl)))
  | not => exact .inr (hhalts (Nat.le_of_lt_succ hp))
  | _ => exact (begun_atom h.read h.last rfl rfl).settled

end Expr

end Operands

namespace Parser

section Types

variable {c d : Cursor} {t : TypeExpr} {types found : List TypeExpr}
  {r : EStateM.Result Failure Cursor (List TypeExpr)}

/-- Reading a type goes through the types that it has suffixes behind. -/
theorem run_typeAt (h : t.At c d) :
    ∃ fuel, d.remaining < fuel ∧ typeExpr .lowest c = repeatWithin (typeStep .lowest) fuel t d := by
  induction h with
  | name h =>
    have hname : typeName c = .ok (.name (c.cover c.next) c.current.value) c.next.fresh := by
      rw [typeName, run_bind (run_expect h), Cursor.cover_next (by rw [h]; decide)]
      rfl
    refine ⟨_, Nat.lt_succ_self _, ?_⟩
    rw [typeExpr, run_kind, if_neg (not_not.2 h)]
    exact run_bind hname
  | @container d t k ht hsuffix ih =>
    refine run_go_on ih ?_ (Cursor.before_suffix hsuffix).fresh
    have hstart : t.node.span.start = c.position := by rw [ht.span]
    rw [typeStep, run_get, hsuffix, Cursor.cover, ← hstart]
    rfl

theorem run_typeExpr_at (h : t.At c d) (hd : d.kind = .comma ∨ d.kind = .greater) :
    typeExpr .lowest c = .ok t d := by
  obtain ⟨fuel, hfuel, hrun⟩ := run_typeAt h
  have hend : d.typeSuffix? = none := by
    rw [Cursor.typeSuffix?]
    rcases hd with hd | hd <;> rw [hd]
  rw [hrun]
  refine run_end (Nat.zero_lt_of_lt hfuel) ?_
  rw [typeStep, run_get, hend]
  rfl

inductive TypesRead : Cursor → List TypeExpr → Cursor → Prop
  | last {c d : Cursor} {t : TypeExpr} (h : typeExpr .lowest c = .ok t d) : TypesRead c [t] d
  | more {c d e : Cursor} {t : TypeExpr} {types : List TypeExpr} (h : typeExpr .lowest c = .ok t d)
    (hcomma : d.kind = .comma) (hrest : TypesRead d.next types e) : TypesRead c (t :: types) e

theorem located_of_typeExpr (h : typeExpr .lowest c = .ok t d) : t.At c d :=
  (runs_typeExpr (E := True)).of_ok h

theorem kind_of_typeExpr (h : typeExpr .lowest c = .ok t d) : c.kind = .identifier := by
  have hat := located_of_typeExpr h
  clear h
  induction hat with
  | name h => exact h
  | container _ _ ih => exact ih

theorem typesRead_of_listAt (h : TypeExpr.ListAt c types d) :
    types = [] ∧ d = c ∨ TypesRead c types d := by
  induction h with
  | nil => exact .inl ⟨rfl, rfl⟩
  | last ht h => exact .inr (.last (run_typeExpr_at ht (.inr h)))
  | more ht hcomma _ ih =>
    exact .inr (.more (run_typeExpr_at ht (.inl hcomma)) hcomma (ih.resolve_left (by simp)))

theorem TypesRead.accepts (h : TypesRead c types d) {stage : TypeArgumentStage}
    (hstage : stage = .start ∨ stage = .name) :
    stage.accepts (c.words.map Word.kind) = TypeArgumentStage.suffix.accepts (d.words.map Word.kind) := by
  induction h generalizing stage with
  | last hread => rw [(located_of_typeExpr hread).words, accepts_typeWords hstage]
  | more hread hcomma _ ih =>
    rw [(located_of_typeExpr hread).words, accepts_typeWords hstage, Cursor.words_mark hcomma rfl,
      ← ih (.inr rfl)]
    rfl

theorem accepts_greater {stage : TypeArgumentStage} (hstage : stage = .start ∨ stage = .suffix)
    (hclose : c.kind = .greater) :
    stage.accepts (c.words.map Word.kind) = decide (c.peek 1 = .openParen) := by
  have hwords := Cursor.words_mark hclose rfl
  rw [Cursor.peek_one hwords, hwords]
  cases c.next.words with
  | nil => rcases hstage with rfl | rfl <;> rfl
  | cons w ws => rcases hstage with rfl | rfl <;> rfl

theorem accepts_typeArguments (h : types = [] ∧ d = c ∨ TypesRead c types d) (hclose : d.kind = .greater)
    (hparen : d.peek 1 = .openParen) : TypeArgumentStage.start.accepts (c.words.map Word.kind) := by
  rcases h with ⟨rfl, rfl⟩ | htypes
  · rw [accepts_greater (.inl rfl) hclose]
    exact decide_eq_true hparen
  · rw [htypes.accepts (.inl rfl), accepts_greater (.inr rfl) hclose]
    exact decide_eq_true hparen

theorem run_typeArgumentsEnd (hclose : c.kind = .greater)
    (hr : ∃ fuel, c.remaining < fuel ∧ r = repeatWithin typeArgumentStep fuel found c) :
    r = .ok found.reverse c := by
  obtain ⟨fuel, hfuel, rfl⟩ := hr
  refine run_end (Nat.zero_lt_of_lt hfuel) ?_
  rw [typeArgumentStep, run_kind, if_pos hclose]
  rfl

/-- One more type argument, and the comma behind it if there is one. -/
theorem run_typeArgument (h : typeExpr .lowest c = .ok t d) (found : List TypeExpr) :
    typeArgumentStep found c = .ok (.inl (t :: found)) (if d.kind = .comma then d.next else d) := by
  rw [typeArgumentStep, run_kind, if_neg (by rw [kind_of_typeExpr h]; decide), run_bind h, run_kind]
  split <;> rfl

/-- The parser of type arguments reads them one by one. -/
theorem TypesRead.run (h : TypesRead c types d) (hclose : d.kind = .greater)
    (hr : ∃ fuel, c.remaining < fuel ∧ r = repeatWithin typeArgumentStep fuel found c) :
    r = .ok (found.reverse ++ types) d := by
  induction h generalizing found with
  | @last c d t hread =>
    have hstep := run_typeArgument hread found
    rw [if_neg (by rw [hclose]; decide)] at hstep
    rw [run_typeArgumentsEnd hclose (run_go_on hr hstep (located_of_typeExpr hread).before),
      List.reverse_cons]
  | @more c d e t types hread hcomma _ ih =>
    have hstep := run_typeArgument hread found
    rw [if_pos hcomma] at hstep
    have hbefore := (located_of_typeExpr hread).before.trans (Cursor.before_next hcomma (by decide))
    rw [ih hclose (run_go_on hr hstep hbefore), List.reverse_cons, List.append_assoc,
      List.singleton_append]

/-- Type arguments are read up to the parenthesis behind them. -/
theorem run_typeArguments (h : types = [] ∧ d = c ∨ TypesRead c types d) (hclose : d.kind = .greater) :
    typeArguments c = .ok types d.next := by
  have hloop : iterate typeArgumentStep [] c = .ok types d := by
    have hr : ∃ fuel, c.remaining < fuel ∧
        iterate typeArgumentStep [] c = repeatWithin typeArgumentStep fuel [] c :=
      ⟨_, Nat.lt_succ_self _, rfl⟩
    rcases h with ⟨rfl, rfl⟩ | htypes
    · exact run_typeArgumentsEnd hclose hr
    · exact htypes.run hclose hr
  rw [typeArguments, run_bind hloop, run_discard_expect hclose]
  rfl

end Types

/-- From the cursors behind a first one on, the parser reads what is there to be read. -/
def RunsBehind (expr : Power → Parser Expr) (c : Cursor) : Prop :=
  ∀ p a e d, c.Before a → p < .call → Expr.Read p a e d → expr p a = .ok e d

variable {expr : Power → Parser Expr} {p : Power} {c c₀ d : Cursor} {e left : Expr}

section Lists

variable {items found : List Expr} {close : TokenKind} {r : EStateM.Result Failure Cursor (List Expr)}

structure Closes (close : TokenKind) : Prop where
  comma : close ≠ .comma
  starts : close.startsExpr = false
  extends_none : close.extensionPower? = none

theorem closes_closeParen : Closes .closeParen := ⟨by decide, rfl, rfl⟩

theorem closes_closing (k : Container) : Closes k.closing := by cases k <;> exact ⟨by decide, rfl, rfl⟩

theorem run_itemsEnd {item : Parser Expr} (hclose : c.kind = close)
    (hr : ∃ fuel, c.remaining < fuel ∧ r = repeatWithin (commaStep close item) fuel found c) :
    r = .ok found.reverse c := by
  obtain ⟨fuel, hfuel, rfl⟩ := hr
  refine run_end (Nat.zero_lt_of_lt hfuel) ?_
  rw [commaStep, run_kind, if_pos hclose]
  rfl

/-- One more item, and the comma behind it if there is one. -/
theorem run_commaStep (hexpr : RunsBehind expr c₀) (hc : c₀.Before c) (hclose : Closes close)
    (h : e.At c d) (hd : d.kind = .comma ∨ d.kind = close) (found : List Expr) :
    commaStep close (expr .comma) found c =
      .ok (.inl (e :: found)) (if d.kind = .comma then d.next else d) := by
  have hopen : c.kind ≠ close := by
    intro heq
    have hstarts := h.startsExpr
    rw [heq, hclose.starts] at hstarts
    cases hstarts
  have hnone : d.kind.extensionPower? = none := by
    rcases hd with hd | hd <;> rw [hd]
    · rfl
    · exact hclose.extends_none
  rw [commaStep, run_kind, if_neg hopen, run_bind (hexpr _ _ _ _ hc (by decide) (h.read le_rfl hnone)),
    run_kind]
  by_cases hcomma : d.kind = .comma
  · rw [if_pos hcomma, if_pos hcomma]
    rfl
  · rw [if_neg hcomma, if_neg hcomma, if_neg (not_not.2 (hd.resolve_left hcomma))]
    rfl

theorem run_items (hexpr : RunsBehind expr c₀) (hc : c₀.Before c) (hclose : Closes close)
    (h : ItemsAt Expr.At c close items d)
    (hr : ∃ fuel, c.remaining < fuel ∧ r = repeatWithin (commaStep close (expr .comma)) fuel found c) :
    ∃ e, r = .ok (found.reverse ++ items) e ∧ e.kind = close ∧ d = e.next := by
  induction h generalizing found with
  | nil h => exact ⟨_, by rw [run_itemsEnd h hr, List.append_nil], h, rfl⟩
  | @last c d close a ha h =>
    have hstep := run_commaStep hexpr hc hclose ha (.inr h) found
    rw [if_neg (h ▸ hclose.comma)] at hstep
    exact ⟨d, by rw [run_itemsEnd h (run_go_on hr hstep ha.before), List.reverse_cons], h, rfl⟩
  | @more c d e close a items ha hcomma _ ih =>
    have hstep := run_commaStep hexpr hc hclose ha (.inl hcomma) found
    rw [if_pos hcomma] at hstep
    have hbefore := ha.before.trans (Cursor.before_next hcomma (by decide))
    obtain ⟨e, hrun, hend⟩ := ih (hc.trans hbefore) hclose (run_go_on hr hstep hbefore)
    rw [List.reverse_cons, List.append_assoc, List.singleton_append] at hrun
    exact ⟨e, hrun, hend⟩

theorem run_exprList (hexpr : RunsBehind expr c₀) (hc : c₀.Before c) (hclose : Closes close)
    (h : ItemsAt Expr.At c close items d) : exprList expr close c = .ok items d := by
  obtain ⟨e, hrun, hend, rfl⟩ := run_items (r := iterate (commaStep close (expr .comma)) [] c) hexpr hc
    hclose h ⟨_, Nat.lt_succ_self _, rfl⟩
  rw [exprList, commaSeparated, run_bind hrun, run_discard_expect hend]
  rfl

end Lists

section Numbers

variable {token : Token} (negative : Bool)

theorem run_int (start : Position) (hpoint : '.' ∉ token.value.toList) {value : Int}
    (h : Numeral.integer? ((if negative then ['-'] else []) ++ token.value.toList) = some value) :
    number token negative start c = .ok (.int ⟨⟨c.nextId⟩, ⟨start, token.span.stop⟩⟩ value) c.fresh := by
  have hcontains : ¬ token.value.toList.contains '.' := by simpa using hpoint
  simp only [number, if_neg hcontains, toList_signed, h]
  rfl

theorem run_badInt (start : Position) (hpoint : '.' ∉ token.value.toList)
    (h : Numeral.integer? ((if negative then ['-'] else []) ++ token.value.toList) = none) :
    number token negative start c = .error (.rejected (.atPosition (.badNumber
      (if negative then "-" ++ token.value else token.value)) token.span.start)) c := by
  have hcontains : ¬ token.value.toList.contains '.' := by simpa using hpoint
  simp only [number, if_neg hcontains, toList_signed, h]
  rfl

theorem run_float (start : Position) (hpoint : '.' ∈ token.value.toList) {value : Binary64}
    (h : Numeral.decimal? ((if negative then ['-'] else []) ++ token.value.toList) = some value) :
    number token negative start c = .ok (.float ⟨⟨c.nextId⟩, ⟨start, token.span.stop⟩⟩ value) c.fresh := by
  have hcontains : token.value.toList.contains '.' := by simpa using hpoint
  simp only [number, if_pos hcontains, toList_signed, h]
  rfl

theorem run_positive (h : c.kind = .number) :
    primary expr c = number c.current false c.position c.next := by
  rw [primary, run_kind, h]
  rfl

theorem run_negative (hdash : c.kind = .dash) (h : c.next.kind = .number) :
    primary expr c = number c.next.current true c.position c.next.next := by
  rw [primary, run_kind, hdash]
  show negativeNumber c = _
  rw [negativeNumber, run_advance, run_kind, if_neg (not_not.2 h)]
  rfl

end Numbers

section Primary

theorem run_reference (h : c.kind = .identifier) :
    reference c = .ok ⟨c.cover c.next, c.current.value⟩ c.next.fresh := by
  rw [reference, run_bind (run_expect h), Cursor.cover_next (by rw [h]; decide)]
  rfl

theorem run_constructor {k : Composite} (h : c.kind = k.constructorKind)
    (hname : c.next.kind = .identifier) :
    primary expr c = .ok (.construct (c.cover c.next.next.fresh) k
      ⟨c.next.cover c.next.next, c.next.current.value⟩) c.next.next.fresh.fresh := by
  have hk : primary expr c = constructor k c := by
    rw [primary, run_kind, h]
    cases k <;> rfl
  rw [hk, constructor, run_advance, run_bind (run_reference hname)]
  rfl

theorem run_literal (hexpr : RunsBehind expr c) {k : Container} {elements : List Expr}
    (h : c.kind = k.opening) (helements : ItemsAt Expr.At c.next k.closing elements d) :
    primary expr c = .ok (.literal (c.cover d) k elements) d.fresh := by
  have hk : primary expr c = literal expr k k.closing c := by
    rw [primary, run_kind, h]
    cases k <;> rfl
  rw [hk, literal, run_advance,
    run_bind (run_exprList hexpr (Cursor.before_next h k.opening_ne) (closes_closing k) helements)]
  rfl

theorem run_grouping (hexpr : RunsBehind expr c) {inner : Expr} (h : c.kind = .openParen)
    (hinner : inner.At c.next d) (hclose : d.kind = .closeParen) :
    primary expr c = .ok (.paren (c.cover d.next) inner) d.next.fresh := by
  have hrun := hexpr .lowest _ _ _ (Cursor.before_next h (by decide)) (by decide)
    (hinner.read (by decide) (by rw [hclose]; rfl))
  rw [primary, run_kind, h]
  show grouping expr c = _
  rw [grouping, run_advance, run_bind hrun, run_discard_expect hclose]
  rfl

theorem run_negation (hexpr : RunsBehind expr c) {operand : Expr} (h : c.kind = .not)
    (hoperand : operand.At c.next d) (hpower : ¬ operand.power < .unary) (hhalts : operand.Halts .unary d) :
    primary expr c = .ok (.not (c.cover d) operand) d.fresh := by
  have hrun := hexpr .unary _ _ _ (Cursor.before_next h (by decide)) (by decide)
    (hhalts.read hoperand (by decide) (.inr hpower))
  rw [primary, run_kind, h]
  show negation expr c = _
  rw [negation, run_advance, run_bind hrun, hoperand.span]
  rfl

end Primary

section Extensions

variable {right : Expr}

/-- A token that extends an expression, where no type arguments are ahead. -/
theorem run_extension {q : Power} (hq : c.kind.extensionPower? = some q) (hpq : p < q)
    (hless : c.kind = .less → left.isNamed → typeArgumentsAhead c.kindsAhead = false)
    (h : extension expr left c.kind q c = .ok e d) : extensionStep expr p left c = .ok (.inl e) d := by
  have htemplate : ¬ (p < .call ∧ c.atTemplateCall left) := by
    rintro ⟨_, htemplate⟩
    rw [Cursor.atTemplateCall, Bool.and_eq_true, Bool.and_eq_true, decide_eq_true_eq] at htemplate
    rw [hless htemplate.1.1 htemplate.1.2] at htemplate
    cases htemplate.2
  rw [extensionStep, run_get, if_neg htemplate, hq]
  simp only [if_pos hpq]
  rw [run_bind h]
  rfl

/-- The power of an operator, and the parser of its right operand. -/
theorem extension_kind (expr : Power → Parser Expr) (left : Expr) (op : BinaryOp) :
    op.kind.extensionPower? = some op.power ∧
      extension expr left op.kind op.power = binary expr left op op.power := by
  cases op <;> exact ⟨rfl, rfl⟩

theorem run_binary {op : BinaryOp} (hleft : left.At c₀ c) (hright : right.At c.next d)
    (h : expr op.power c.next = .ok right d) :
    binary expr left op op.power c = .ok (.binary (c₀.cover d) op left right) d.fresh := by
  rw [binary, run_discard_advance, run_bind h, hleft.span, hright.span]
  rfl

theorem run_assignment (hleft : left.At c₀ c) (hright : right.At c.next d)
    (h : expr .comma c.next = .ok right d) :
    assignment expr left c = .ok (.assign (c₀.cover d) left right) d.fresh := by
  rw [assignment, run_discard_advance, run_bind h, hleft.span, hright.span]
  rfl

theorem run_call {arguments : List Expr} (hleft : left.At c₀ c) (hopen : c.kind = .openParen)
    (h : exprList expr .closeParen c.next = .ok arguments d) :
    call expr left c = .ok (.call (c₀.cover d) left arguments) d.fresh := by
  rw [call, run_discard_expect hopen, run_bind h, hleft.span]
  rfl

theorem run_index (hleft : left.At c₀ c) (hopen : c.kind = .openBracket)
    (h : expr .lowest c.next = .ok right d) (hclose : d.kind = .closeBracket) :
    index expr left c = .ok (.index (c₀.cover d.next) left right) d.next.fresh := by
  rw [index, run_discard_expect hopen, run_bind h, run_discard_expect hclose, hleft.span]
  rfl

theorem run_member {k : Composite} (hleft : left.At c₀ c) (hname : c.next.kind = .identifier) :
    member k left c =
      .ok (.member (c₀.cover c.next.next) k left c.next.current.value) c.next.next.fresh := by
  rw [member, run_discard_advance, run_bind (run_expect hname), hleft.span]
  rfl

theorem run_templateCall {types : List TypeExpr} {arguments : List Expr} {a : Cursor}
    (hleft : left.At c₀ c) (h : c.kind = .less) (hnamed : left.isNamed) (hp : p < .call)
    (htypes : TypeExpr.ListAt c.next types a) (hopen : a.next.kind = .openParen)
    (hrun : exprList expr .closeParen a.next.next = .ok arguments d) :
    extensionStep expr p left c = .ok (.inl (.templateCall (c₀.cover d) left types arguments)) d.fresh := by
  have hparen : a.peek 1 = .openParen := by
    rw [← Cursor.kind_next (by rw [htypes.kind]; decide), hopen]
  have hread := typesRead_of_listAt htypes
  have htemplate : c.atTemplateCall left := by
    rw [Cursor.atTemplateCall, h, hnamed, Cursor.typeArgumentsAhead_kindsAhead (Cursor.words_mark h rfl),
      TypeArgumentStage.typeArgumentsAhead_eq_accepts, accepts_typeArguments hread htypes.kind hparen]
    rfl
  have hcall : templateCall expr left c =
      .ok (.templateCall (c₀.cover d) left types arguments) d.fresh := by
    rw [templateCall, run_discard_expect h, run_bind (run_typeArguments hread htypes.kind),
      run_discard_expect hopen, run_bind hrun, hleft.span]
    rfl
  rw [extensionStep, run_get, if_pos ⟨hp, htemplate⟩, run_bind hcall]
  rfl

/-- Reading stops where nothing extends the expression. -/
theorem run_extensionEnd (h : Expr.Read p c₀ e c) (hp : p < .call) :
    extensionStep expr p e c = .ok (.inr e) c := by
  have htemplate : ¬ (p < .call ∧ c.atTemplateCall e) := by
    rintro ⟨_, htemplate⟩
    rw [Cursor.atTemplateCall, Bool.and_eq_true, Bool.and_eq_true, decide_eq_true_eq] at htemplate
    have hnone := h.less hp htemplate.1.1 (by rw [Expr.tip_of_isNamed htemplate.1.2, htemplate.1.2])
    rw [hnone] at htemplate
    cases htemplate.2
  rw [extensionStep, run_get, if_neg htemplate]
  cases hq : c.kind.extensionPower? with
  | none => rfl
  | some q =>
    simp only [if_neg (h.power q hq)]
    rfl

end Extensions

theorem run_start (h : primary expr c = .ok e d) :
    ∃ fuel, d.remaining < fuel ∧ expression expr p c = repeatWithin (extensionStep expr p) fuel e d := by
  refine ⟨_, Nat.lt_succ_self _, ?_⟩
  rw [expression, run_bind h]
  rfl

/-- Reading an expression goes through the expressions that are extended on the way to it. What comes then
is the same loop at the cursor behind it, whether it goes on, ends or fails. -/
theorem run_begun (hexpr : RunsBehind expr c) (hp : p < .call) (h : Expr.Begun p c e d) :
    ∃ fuel, d.remaining < fuel ∧ expression expr p c = repeatWithin (extensionStep expr p) fuel e d := by
  -- By induction on the size, since the left operand starts at the same cursor.
  induction hn : sizeOf e using Nat.strong_induction_on generalizing e d with
  | _ n ih =>
    subst hn
    obtain ⟨hread, hlast, hsettled⟩ := h
    cases hread with
    | int h hpoint hvalue =>
      refine run_start ?_
      rw [run_positive h, run_int false _ hpoint hvalue, Cursor.cover_next (by rw [h]; decide)]
      rfl
    | negativeInt hdash h hpoint hvalue =>
      refine run_start ?_
      rw [run_negative hdash h, run_int true _ hpoint hvalue, Cursor.cover,
        Cursor.lastEnd_next (by rw [h]; decide)]
    | float h hpoint hvalue =>
      refine run_start ?_
      rw [run_positive h, run_float false _ hpoint hvalue, Cursor.cover_next (by rw [h]; decide)]
      rfl
    | negativeFloat hdash h hpoint hvalue =>
      refine run_start ?_
      rw [run_negative hdash h, run_float true _ hpoint hvalue, Cursor.cover,
        Cursor.lastEnd_next (by rw [h]; decide)]
    | string h =>
      refine run_start ?_
      rw [primary, run_kind, h, Cursor.cover_next (by rw [h]; decide)]
      rfl
    | symbol h =>
      refine run_start ?_
      rw [primary, run_kind, h]
      exact run_bind (run_reference h)
    | paren hopen hinner hclose => exact run_start (run_grouping hexpr hopen hinner hclose)
    | literal hopen helements => exact run_start (run_literal hexpr hopen helements)
    | construct h hname => exact run_start (run_constructor h hname)
    | not h hoperand hpower =>
      have hhalts := hsettled.resolve_left (by simp [Expr.isNamed])
      exact run_start (run_negation hexpr h hoperand hpower ⟨hhalts.power, hhalts.less⟩)
    | @binary _ d e op left right hleft h hright hleftPower hrightPower hless =>
      have hhalts := hsettled.resolve_left (by simp [Expr.isNamed])
      have hpq : p < op.power := hlast _ rfl
      have hnext := Cursor.before_next h (by cases op <;> decide)
      obtain ⟨hq, hextension⟩ := extension_kind expr left op
      rw [← h] at hq hextension
      have hlower (hkind : d.kind = .less) : op = .lower := BinaryOp.eq_lower_of_kind (h ▸ hkind)
      have hassignment := Nat.lt_of_lt_of_le op.assignment_lt_power (Nat.not_lt.1 hleftPower)
      have hbegun := hleft.begun hq hp hpq hassignment hleftPower fun hkind => hless (hlower hkind)
      have hcall : op.power < .call := lt_trans op.power_lt_unary (by decide : Power.unary.level < 9)
      have hrun := hexpr op.power _ _ _ (hleft.before.trans hnext) hcall
        ((⟨hhalts.power, hhalts.less⟩ : right.Halts op.power e).read hright hcall (.inl hrightPower))
      refine run_go_on (ih _ (by simp; omega) hbegun rfl) (run_extension hq hpq ?_ ?_)
        (hnext.trans hright.before).fresh
      · intro hkind hnamed
        exact hless (hlower hkind) (by rw [Expr.tip_of_isNamed hnamed, hnamed])
      · rw [hextension]
        exact run_binary hleft hright hrun
    | @assign _ d e _ value hleft h hright hpower =>
      have hhalts := hsettled.resolve_left (by simp [Expr.isNamed])
      have hpq : p < .assignment := hlast _ rfl
      have hnext := Cursor.before_next h (by decide)
      have hbegun := hleft.begun (q := .assignment) (by rw [h]; rfl) hp hpq hpower (Nat.lt_asymm hpower)
        (by simp [h])
      have hrun := hexpr .comma _ _ _ (hleft.before.trans hnext) (by decide)
        ((⟨hhalts.power, hhalts.less⟩ : value.Halts .comma e).read hright (by decide)
          (.inl value.comma_lt_power))
      refine run_go_on (ih _ (by simp; omega) hbegun rfl)
        (run_extension (by rw [h]; rfl) hpq (by simp [h]) ?_)
        (hnext.trans hright.before).fresh
      rw [h]
      exact run_assignment hleft hright hrun
    | call hleft h hpower harguments =>
      have hnext := Cursor.before_next h (by decide)
      have hbegun := hleft.begun_suffix (q := .call) (by rw [h]; rfl) hp hp hpower (by simp [h])
      have hrun := run_exprList hexpr (hleft.before.trans hnext) closes_closeParen harguments
      refine run_go_on (ih _ (by simp; omega) hbegun rfl) (run_extension (by rw [h]; rfl) hp (by simp [h]) ?_)
        (hnext.trans (Expr.before_items (by decide) harguments)).fresh
      rw [h]
      exact run_call hleft h hrun
    | templateCall hleft h hnamed htypes hopen harguments =>
      have hnext := (((Cursor.before_next h (by decide)).trans_reaches htypes.reaches).trans
        (Cursor.before_next htypes.kind (by decide))).trans (Cursor.before_next hopen (by decide))
      have hprimary : p < .primary := hp.trans (by decide : Power.call.level < Power.primary.level)
      have hbegun : Expr.Begun p c _ _ := ⟨hleft, fun _ => Expr.lt_of_lastPower? hp
        (.inl (by rwa [Expr.power_of_isNamed hnamed])), .inl hnamed⟩
      have hrun := run_exprList hexpr (hleft.before.trans hnext) closes_closeParen harguments
      exact run_go_on (ih _ (by simp; omega) hbegun rfl)
        (run_templateCall hleft h hnamed hp htypes hopen hrun)
        (hnext.trans (Expr.before_items (by decide) harguments)).fresh
    | index hleft h hpower hposition hclose =>
      have hnext := Cursor.before_next h (by decide)
      have hbegun := hleft.begun_suffix (q := .call) (by rw [h]; rfl) hp hp hpower (by simp [h])
      have hrun := hexpr .lowest _ _ _ (hleft.before.trans hnext) (by decide)
        (hposition.read (by decide) (by rw [hclose]; rfl))
      refine run_go_on (ih _ (by simp; omega) hbegun rfl) (run_extension (by rw [h]; rfl) hp (by simp [h]) ?_)
        ((hnext.trans hposition.before).trans (Cursor.before_next hclose (by decide))).fresh
      rw [h]
      exact run_index hleft h hrun hclose
    | @member _ d k stem hleft h hpower hname =>
      have hpq : p < .member := hp.trans (by decide : Power.call.level < Power.member.level)
      have hnext := Cursor.before_next h (by cases k <;> decide)
      have hq : d.kind.extensionPower? = some .member := by rw [h]; cases k <;> rfl
      have hless : d.kind ≠ .less := by rw [h]; cases k <;> decide
      have hextension : extension expr stem d.kind .member = member k stem := by rw [h]; cases k <;> rfl
      have hbegun := hleft.begun_suffix hq hp hpq hpower hless
      refine run_go_on (ih _ (by simp; omega) hbegun rfl) (run_extension hq hpq (fun h => absurd h hless) ?_)
        (hnext.trans (Cursor.before_next hname (by decide))).fresh
      rw [hextension]
      exact run_member hleft hname

theorem run_expression (hexpr : RunsBehind expr c) (hp : p < .call) (h : Expr.Read p c e d) :
    expression expr p c = .ok e d := by
  obtain ⟨fuel, hfuel, hrun⟩ := run_begun hexpr hp (h.begun hp)
  rw [hrun]
  exact run_end (Nat.zero_lt_of_lt hfuel) (run_extensionEnd h hp)

/-- More depth than tokens is enough to read an expression. -/
theorem run_exprWithin {depth : Nat} (hp : p < .call) (h : Expr.Read p c e d) (hdepth : c.remaining < depth) :
    exprWithin depth p c = .ok e d := by
  induction depth generalizing p c e d with
  | zero => cases hdepth
  | succ depth ih =>
    refine run_expression ?_ hp h
    intro p a e d hbefore hp h
    have := hbefore.remaining_lt
    exact ih hp h (by omega)

/-- Below the power of calls exactly what is derived from the grammar and stops there is read. -/
theorem expr_eq_ok_iff (hp : p < .call) : Parser.expr p c = .ok e d ↔ Expr.Read p c e d :=
  ⟨(runs_expr p c).of_ok, fun h => run_exprWithin hp h (Nat.lt_succ_self _)⟩

theorem runsBehind_exprWithin (c : Cursor) : RunsBehind (exprWithin c.remaining) c :=
  fun _ _ _ _ hbefore hp h => run_exprWithin hp h hbefore.remaining_lt

end Parser

end ScriptAnalysis
