import ScriptAnalysis.Proofs.Grammar.Derivation

/-!
The grammar over a stream of tokens. `At c tree d` says that the tokens from one cursor up to another are
derived from the grammar with the given tree, each node of which covers its own tokens and has the number
that was next behind them. What the cursors show besides, words and all, makes it a derivation of the
grammar over words (`Stmt.At.reads`).
-/
namespace ScriptAnalysis

open Word (mark)

namespace TokenStream

/-- The token at an index; from the end on it is the closing one. -/
def tokenAt (s : TokenStream) (i : Nat) : Token := s.tokens[i]?.getD s.last

theorem lt_size_of_kind {s : TokenStream} {i : Nat} (h : (s.tokenAt i).kind ≠ .eof) :
    i < s.tokens.size := by
  by_contra hle
  apply h
  rw [tokenAt, Array.getElem?_eq_none (Nat.not_lt.1 hle)]
  exact s.last_kind

def Marks (s : TokenStream) (q : Position) : Prop := ∃ i, q = (s.tokenAt i).span.start

end TokenStream

namespace Cursor

variable {c d e : Cursor} {k : TokenKind}

/-- The cursor once a node number has been handed out. -/
def fresh (c : Cursor) : Cursor := { c with nextId := c.nextId + 1 }

/-- The node over the tokens between two cursors, made at the second. -/
def cover (c d : Cursor) : Node := ⟨⟨d.nextId⟩, ⟨c.position, d.lastEnd⟩⟩

structure Moves (c d : Cursor) : Prop where
  stream : d.stream = c.stream
  file : d.file = c.file
  index : c.index ≤ d.index
  le : d.index ≤ max c.index c.stream.tokens.size
  nextId : c.nextId ≤ d.nextId

structure Reaches (c d : Cursor) : Prop extends Moves c d where
  setSuffix : d.setSuffix = c.setSuffix

structure Before (c d : Cursor) : Prop extends Reaches c d where
  lt : c.index < d.index

structure Again (c d : Cursor) : Prop extends Moves c d where
  back : d.index = c.index

theorem Moves.trans (h : c.Moves d) (h' : d.Moves e) : c.Moves e where
  stream := h'.stream.trans h.stream
  file := h'.file.trans h.file
  index := Nat.le_trans h.index h'.index
  le := by
    have hd := h.le
    have he := h'.le
    rw [h.stream] at he
    omega
  nextId := Nat.le_trans h.nextId h'.nextId

theorem Moves.fresh (h : c.Moves d) : c.Moves d.fresh :=
  ⟨h.stream, h.file, h.index, h.le, Nat.le_succ_of_le h.nextId⟩

theorem Moves.refl (c : Cursor) : c.Moves c :=
  ⟨rfl, rfl, Nat.le_refl _, Nat.le_max_left .., Nat.le_refl _⟩

theorem Reaches.refl (c : Cursor) : c.Reaches c := ⟨.refl c, rfl⟩

theorem Reaches.trans (h : c.Reaches d) (h' : d.Reaches e) : c.Reaches e :=
  ⟨h.toMoves.trans h'.toMoves, h'.setSuffix.trans h.setSuffix⟩

theorem Reaches.fresh (h : c.Reaches d) : c.Reaches d.fresh := ⟨h.toMoves.fresh, h.setSuffix⟩

theorem Before.le_size (h : c.Before d) : d.index ≤ c.stream.tokens.size := by
  have := h.le
  have := h.lt
  omega

theorem Before.trans_reaches (h : c.Before d) (h' : d.Reaches e) : c.Before e :=
  ⟨h.toReaches.trans h', Nat.lt_of_lt_of_le h.lt h'.index⟩

theorem Reaches.trans_before (h : c.Reaches d) (h' : d.Before e) : c.Before e :=
  ⟨h.trans h'.toReaches, Nat.lt_of_le_of_lt h.index h'.lt⟩

theorem Before.fresh (h : c.Before d) : c.Before d.fresh := ⟨h.toReaches.fresh, h.lt⟩

theorem Before.trans (h : c.Before d) (h' : d.Before e) : c.Before e := h.trans_reaches h'.toReaches

/-- Less is left from further on. -/
theorem Before.remaining_lt (h : c.Before d) : d.remaining < c.remaining := by
  have := h.lt
  have := h.le_size
  unfold remaining
  rw [h.stream]
  omega

theorem Reaches.remaining_le (h : c.Reaches d) : d.remaining ≤ c.remaining := by
  have := h.index
  unfold remaining
  rw [h.stream]
  omega

theorem lt_size (h : c.kind ≠ .eof) : c.index < c.stream.tokens.size := TokenStream.lt_size_of_kind h

theorem next_eq (h : c.kind ≠ .eof) : c.next = { c with index := c.index + 1 } := if_pos (lt_size h)

theorem before_next (h : c.kind = k) (hk : k ≠ .eof) : c.Before c.next := by
  have hend : c.kind ≠ .eof := h ▸ hk
  rw [next_eq hend]
  exact ⟨⟨⟨rfl, rfl, Nat.le_succ _, Nat.le_trans (lt_size hend) (Nat.le_max_right ..), Nat.le_refl _⟩, rfl⟩,
    Nat.lt_succ_self _⟩

theorem kind_next (h : c.kind ≠ .eof) : c.next.kind = c.peek 1 := by
  rw [next_eq h, kind, current, peek]
  cases c.stream.tokens[c.index + 1]? with
  | none => exact c.stream.last_kind
  | some t => rfl

theorem lastEnd_eq {i : Nat} (hi : c.index = i + 1) (hlt : i < c.stream.tokens.size) :
    c.lastEnd = (c.stream.tokenAt i).span.stop := by
  rw [lastEnd, hi]
  simp only [TokenStream.get?, if_neg hlt.ne, TokenStream.tokenAt, Array.getElem?_eq_getElem hlt,
    Option.getD_some]

theorem lastEnd_next (h : c.kind ≠ .eof) : c.next.lastEnd = c.current.span.stop := by
  rw [next_eq h]
  exact lastEnd_eq rfl (lt_size h)

theorem cover_next (h : c.kind ≠ .eof) : c.cover c.next = ⟨⟨c.next.nextId⟩, c.current.span⟩ := by
  rw [cover, lastEnd_next h]
  rfl

/-- The word at the place has a kind with one spelling. -/
theorem words_mark (h : c.kind = k) (hk : k.spelling?.isSome) : c.words = mark k :: c.next.words := by
  have hend : c.kind ≠ .eof := by
    rintro heq
    rw [← h, heq] at hk
    simp [TokenKind.spelling?, TokenKind.keywords, TokenKind.signs] at hk
  have hword : c.current.word = mark c.current.kind := Token.word_eq_mark (by rwa [← kind, h])
  rw [words_of_kind hend, hword, ← kind, h]

/-- The word at the place has a kind with many spellings. -/
theorem words_text (h : c.kind = k) (hk : k.spelling? = none) (hend : k ≠ .eof) :
    c.words = ⟨k, c.current.value⟩ :: c.next.words := by
  have hword : c.current.word = ⟨c.current.kind, c.current.value⟩ :=
    Token.word_eq (by rwa [← kind, h])
  rw [words_of_kind (h ▸ hend), hword, ← kind, h]

end Cursor

section Lists

variable {α : Type}

inductive ItemsAt (R : Cursor → α → Cursor → Prop) : Cursor → TokenKind → List α → Cursor → Prop
  | nil {c : Cursor} {close : TokenKind} (h : c.kind = close) : ItemsAt R c close [] c.next
  | last {c d : Cursor} {close : TokenKind} {a : α} (ha : R c a d) (h : d.kind = close) :
    ItemsAt R c close [a] d.next
  | more {c d e : Cursor} {close : TokenKind} {a : α} {items : List α} (ha : R c a d)
    (hcomma : d.kind = .comma) (hitems : ItemsAt R d.next close items e) :
    ItemsAt R c close (a :: items) e

inductive ManyAt (R : Cursor → α → Cursor → Prop) : Cursor → List α → Cursor → Prop
  | nil {c : Cursor} : ManyAt R c [] c
  | cons {c d e : Cursor} {a : α} {items : List α} (ha : R c a d) (hitems : ManyAt R d items e) :
    ManyAt R c (a :: items) e

theorem ManyAt.snoc {R : Cursor → α → Cursor → Prop} {c d e : Cursor} {items : List α} {a : α}
    (h : ManyAt R c items d) (ha : R d a e) : ManyAt R c (items ++ [a]) e := by
  induction h with
  | nil => exact .cons ha .nil
  | cons hb _ ih => exact .cons hb (ih ha)

end Lists

section Heads

inductive TypeExpr.At : Cursor → TypeExpr → Cursor → Prop
  | name {c : Cursor} (h : c.kind = .identifier) :
    TypeExpr.At c (.name (c.cover c.next) c.current.value) c.next.fresh
  | container {c d : Cursor} {t : TypeExpr} {k : Container} (ht : TypeExpr.At c t d)
    (hsuffix : d.typeSuffix? = some k) :
    TypeExpr.At c (.container (c.cover d.next.next) k t) d.next.next.fresh

inductive TypeExpr.ListAt : Cursor → List TypeExpr → Cursor → Prop
  | nil {c : Cursor} (h : c.kind = .greater) : TypeExpr.ListAt c [] c
  | last {c d : Cursor} {t : TypeExpr} (ht : t.At c d) (h : d.kind = .greater) :
    TypeExpr.ListAt c [t] d
  | more {c d e : Cursor} {t u : TypeExpr} {types : List TypeExpr} (ht : t.At c d)
    (hcomma : d.kind = .comma) (htypes : TypeExpr.ListAt d.next (u :: types) e) :
    TypeExpr.ListAt c (t :: u :: types) e

inductive Binder.At : Cursor → Binder → Cursor → Prop
  | mk {c d : Cursor} {type : TypeExpr} (hname : c.kind = .identifier) (hcolon : c.next.kind = .colon)
    (htype : type.At c.next.next d) : Binder.At c ⟨c.cover d, c.current.value, type⟩ d.fresh

inductive Binder.FieldAt : Cursor → Binder → Cursor → Prop
  | mk {c d : Cursor} {type : TypeExpr} (hvar : c.kind = .var) (hname : c.next.kind = .identifier)
    (hcolon : c.next.next.kind = .colon) (htype : type.At c.next.next.next d) :
    Binder.FieldAt c ⟨c.cover d, c.next.current.value, type⟩ d.fresh

/-- A result type. An omitted one is an empty span behind the token before it. One that is read again, so
that a body is left, takes the numbers that come next. -/
inductive TypeExpr.ResultAt : Cursor → TypeExpr → Cursor → Prop
  | omitted {c : Cursor} (h : c.kind ≠ .colon) :
    TypeExpr.ResultAt c (.name ⟨⟨c.nextId⟩, .empty c.lastEnd⟩ "Void") c.fresh
  | written {c b d : Cursor} {type : TypeExpr} (h : c.kind = .colon) (hb : c.next.Again b)
    (htype : type.At b d) : TypeExpr.ResultAt c type { d with setSuffix := c.setSuffix }

def Visibility.At : Option Visibility → Cursor → Cursor → Prop
  | none, c, d => d = c
  | some .pub, c, d => c.kind = .pub ∧ d = c.next
  | some .pvt, c, d => c.kind = .pvt ∧ d = c.next

inductive Superclass.NamesAt : Cursor → List Superclass → Cursor → Prop
  | last {c : Cursor} (h : c.kind = .identifier) :
    Superclass.NamesAt c [⟨c.current.value, c.current.span⟩] c.next
  | more {c d : Cursor} {others : List Superclass} (h : c.kind = .identifier)
    (hcomma : c.next.kind = .comma) (hothers : Superclass.NamesAt c.next.next others d) :
    Superclass.NamesAt c (⟨c.current.value, c.current.span⟩ :: others) d

inductive Superclass.AllAt : Cursor → List Superclass → Cursor → Prop
  | none {c : Cursor} : Superclass.AllAt c [] c
  | some {c d : Cursor} {names : List Superclass} (h : c.kind = .fromWord)
    (hnames : Superclass.NamesAt c.next names d) : Superclass.AllAt c names d

end Heads

inductive Expr.At : Cursor → Expr → Cursor → Prop
  | int {c : Cursor} {value : Int} (h : c.kind = .number) (hpoint : '.' ∉ c.current.value.toList)
    (hvalue : Numeral.integer? c.current.value.toList = some value) :
    Expr.At c (.int (c.cover c.next) value) c.next.fresh
  | negativeInt {c : Cursor} {value : Int} (hdash : c.kind = .dash) (h : c.next.kind = .number)
    (hpoint : '.' ∉ c.next.current.value.toList)
    (hvalue : Numeral.integer? ('-' :: c.next.current.value.toList) = some value) :
    Expr.At c (.int (c.cover c.next.next) value) c.next.next.fresh
  | float {c : Cursor} {value : Binary64} (h : c.kind = .number)
    (hpoint : '.' ∈ c.current.value.toList)
    (hvalue : Numeral.decimal? c.current.value.toList = some value) :
    Expr.At c (.float (c.cover c.next) value) c.next.fresh
  | negativeFloat {c : Cursor} {value : Binary64} (hdash : c.kind = .dash) (h : c.next.kind = .number)
    (hpoint : '.' ∈ c.next.current.value.toList)
    (hvalue : Numeral.decimal? ('-' :: c.next.current.value.toList) = some value) :
    Expr.At c (.float (c.cover c.next.next) value) c.next.next.fresh
  | string {c : Cursor} (h : c.kind = .string) :
    Expr.At c (.string (c.cover c.next) c.current.value) c.next.fresh
  | symbol {c : Cursor} (h : c.kind = .identifier) :
    Expr.At c (.symbol ⟨c.cover c.next, c.current.value⟩) c.next.fresh
  | paren {c d : Cursor} {inner : Expr} (hopen : c.kind = .openParen) (hinner : Expr.At c.next inner d)
    (hclose : d.kind = .closeParen) : Expr.At c (.paren (c.cover d.next) inner) d.next.fresh
  | literal {c d : Cursor} {k : Container} {elements : List Expr} (hopen : c.kind = k.opening)
    (helements : ItemsAt Expr.At c.next k.closing elements d) :
    Expr.At c (.literal (c.cover d) k elements) d.fresh
  | construct {c : Cursor} {k : Composite} (h : c.kind = k.constructorKind)
    (hname : c.next.kind = .identifier) :
    Expr.At c (.construct (c.cover c.next.next.fresh) k
      ⟨c.next.cover c.next.next, c.next.current.value⟩) c.next.next.fresh.fresh
  | not {c d : Cursor} {operand : Expr} (h : c.kind = .not) (hoperand : Expr.At c.next operand d)
    (hpower : ¬ operand.power < .unary) : Expr.At c (.not (c.cover d) operand) d.fresh
  | binary {c d e : Cursor} {op : BinaryOp} {left right : Expr} (hleft : Expr.At c left d)
    (h : d.kind = op.kind) (hright : Expr.At d.next right e) (hleftPower : ¬ left.power < op.power)
    (hrightPower : op.power < right.power)
    (hless : op = .lower → left.tip.isNamed → typeArgumentsAhead d.kindsAhead = false) :
    Expr.At c (.binary (c.cover e) op left right) e.fresh
  | assign {c d e : Cursor} {target value : Expr} (htarget : Expr.At c target d)
    (h : d.kind = .assignment) (hvalue : Expr.At d.next value e) (hpower : .assignment < target.power) :
    Expr.At c (.assign (c.cover e) target value) e.fresh
  | call {c d e : Cursor} {callee : Expr} {arguments : List Expr} (hcallee : Expr.At c callee d)
    (h : d.kind = .openParen) (hpower : .unary < callee.power)
    (harguments : ItemsAt Expr.At d.next .closeParen arguments e) :
    Expr.At c (.call (c.cover e) callee arguments) e.fresh
  | templateCall {c d e f : Cursor} {callee : Expr} {types : List TypeExpr} {arguments : List Expr}
    (hcallee : Expr.At c callee d) (h : d.kind = .less) (hnamed : callee.isNamed)
    (htypes : TypeExpr.ListAt d.next types e) (hopen : e.next.kind = .openParen)
    (harguments : ItemsAt Expr.At e.next.next .closeParen arguments f) :
    Expr.At c (.templateCall (c.cover f) callee types arguments) f.fresh
  | index {c d e : Cursor} {base position : Expr} (hbase : Expr.At c base d) (h : d.kind = .openBracket)
    (hpower : .unary < base.power) (hposition : Expr.At d.next position e)
    (hclose : e.kind = .closeBracket) :
    Expr.At c (.index (c.cover e.next) base position) e.next.fresh
  | member {c d : Cursor} {k : Composite} {stem : Expr} (hstem : Expr.At c stem d)
    (h : d.kind = k.accessKind) (hpower : .unary < stem.power) (hname : d.next.kind = .identifier) :
    Expr.At c (.member (c.cover d.next.next) k stem d.next.current.value) d.next.next.fresh

inductive Stmt.At : Cursor → Stmt → Cursor → Prop
  | block {c d : Cursor} {body : List Stmt} (hopen : c.kind = .openCurly)
    (hbody : ManyAt Stmt.At c.next body d) (hclose : d.kind = .closeCurly) :
    Stmt.At c (.block (c.cover d.next) body) d.next.fresh
  | variable {c d e : Cursor} {type : TypeExpr} {value : Expr} (hvar : c.kind = .var)
    (hname : c.next.kind = .identifier) (hcolon : c.next.next.kind = .colon)
    (htype : type.At c.next.next.next d) (h : d.kind = .assignment) (hvalue : value.At d.next e) :
    Stmt.At c (.variable ⟨c.cover e, c.next.current.value, type⟩ value) e.fresh
  | field {c d : Cursor} {b : Binder} (h : b.FieldAt c d) : Stmt.At c (.field b) d
  | function {c d e f g : Cursor} {visibility : Option Visibility} {parameters : List Binder}
    {result : TypeExpr} {body : List Stmt} (hvisibility : Visibility.At visibility c d)
    (hfn : d.kind = .fn) (hname : d.next.kind = .identifier) (hopen : d.next.next.kind = .openParen)
    (hparameters : ItemsAt Binder.At d.next.next.next .closeParen parameters e)
    (hresult : result.ResultAt e f) (hbegin : f.kind = .openCurly)
    (hbody : ManyAt Stmt.At f.next body g) (hend : g.kind = .closeCurly) :
    Stmt.At c (.function (c.cover g.next.fresh) ⟨visibility, d.next.current.value, parameters, result⟩
      (f.cover g.next) body) g.next.fresh.fresh
  | struct {c d : Cursor} {fields : List Binder} (h : c.kind = .struct)
    (hname : c.next.kind = .identifier) (hopen : c.next.next.kind = .openCurly)
    (hfields : ManyAt Binder.FieldAt c.next.next.next fields d) (hclose : d.kind = .closeCurly) :
    Stmt.At c (.struct (c.cover d.next) c.next.current.value fields) d.next.fresh
  | cls {c d e f : Cursor} {visibility : Option Visibility} {superclasses : List Superclass}
    {body : List Stmt} (hvisibility : Visibility.At visibility c d) (hcls : d.kind = .cls)
    (hname : d.next.kind = .identifier) (hsuperclasses : Superclass.AllAt d.next.next superclasses e)
    (hbegin : e.kind = .openCurly) (hbody : ManyAt Stmt.At e.next body f)
    (hend : f.kind = .closeCurly) :
    Stmt.At c (.cls (c.cover f.next.fresh) ⟨visibility, d.next.current.value, superclasses⟩
      (e.cover f.next) body) f.next.fresh.fresh
  | template {c d e f g : Cursor} {typeParameters parameters : List Binder} {result : TypeExpr}
    {body : List Stmt} (h : c.kind = .template) (hless : c.next.kind = .less)
    (htypes : ItemsAt Binder.At c.next.next .greater typeParameters d) (hfn : d.kind = .fn)
    (hname : d.next.kind = .identifier) (hopen : d.next.next.kind = .openParen)
    (hparameters : ItemsAt Binder.At d.next.next.next .closeParen parameters e)
    (hresult : result.ResultAt e f) (hbegin : f.kind = .openCurly)
    (hbody : ManyAt Stmt.At f.next body g) (hend : g.kind = .closeCurly) :
    Stmt.At c (.template (c.cover g.next.fresh)
      ⟨typeParameters, d.next.current.value, parameters, result⟩ (f.cover g.next) body)
      g.next.fresh.fresh
  | ifThen {c d e : Cursor} {condition : Expr} {thenBody : Stmt} (h : c.kind = .ifWord)
    (hcondition : condition.At c.next d) (hthen : Stmt.At d thenBody e) :
    Stmt.At c (.ifThen (c.cover e) condition thenBody) e.fresh
  | ifElse {c d e f : Cursor} {condition : Expr} {thenBody elseBody : Stmt} (h : c.kind = .ifWord)
    (hcondition : condition.At c.next d) (hthen : Stmt.At d thenBody e) (hword : e.kind = .elseWord)
    (helse : Stmt.At e.next elseBody f) :
    Stmt.At c (.ifElse (c.cover f) condition thenBody elseBody) f.fresh
  | loop {c d e : Cursor} {condition : Expr} {body : Stmt} (h : c.kind = .whileWord)
    (hcondition : condition.At c.next d) (hbody : Stmt.At d body e) :
    Stmt.At c (.loop (c.cover e) condition body) e.fresh
  | ret {c : Cursor} (h : c.kind = .returnWord) : Stmt.At c (.ret (c.cover c.next) none) c.next.fresh
  | retValue {c d : Cursor} {value : Expr} (h : c.kind = .returnWord) (hvalue : value.At c.next d) :
    Stmt.At c (.ret (c.cover d) (some value)) d.fresh
  | action {c d : Cursor} {expr : Expr} (hexpr : expr.At c d) (haction : expr.isAction) :
    Stmt.At c (.action (c.cover d) expr) d.fresh

section Types

variable {c d : Cursor} {t : TypeExpr} {types : List TypeExpr}

theorem Container.opening_ne (k : Container) : k.opening ≠ .eof := by cases k <;> decide

theorem Container.closing_ne (k : Container) : k.closing ≠ .eof := by cases k <;> decide

theorem Cursor.kind_of_typeSuffix? {k : Container} (h : c.typeSuffix? = some k) :
    c.kind = k.opening ∧ c.next.kind = k.closing := by
  suffices hkinds : c.kind = k.opening ∧ c.peek 1 = k.closing from
    ⟨hkinds.1, (Cursor.kind_next (hkinds.1 ▸ k.opening_ne)).trans hkinds.2⟩
  rw [Cursor.typeSuffix?] at h
  split at h
  next hkind =>
    obtain ⟨⟨_, hpeek⟩, hk⟩ := Option.ite_none_right_eq_some.1 h
    cases hk
    exact ⟨hkind, hpeek⟩
  next hkind =>
    obtain ⟨hpeek, hk⟩ := Option.ite_none_right_eq_some.1 h
    cases hk
    exact ⟨hkind, hpeek⟩
  next => cases h

theorem Cursor.before_suffix {k : Container} (h : c.typeSuffix? = some k) : c.Before c.next.next := by
  obtain ⟨hopening, hclosing⟩ := Cursor.kind_of_typeSuffix? h
  exact (Cursor.before_next hopening k.opening_ne).trans (Cursor.before_next hclosing k.closing_ne)

namespace TypeExpr

theorem At.span (h : t.At c d) : t.node.span = ⟨c.position, d.lastEnd⟩ := by cases h <;> rfl

theorem At.before (h : t.At c d) : c.Before d := by
  induction h with
  | name h => exact (Cursor.before_next h (by decide)).fresh
  | container _ hsuffix ih => exact (ih.trans (Cursor.before_suffix hsuffix)).fresh

theorem At.words (h : t.At c d) : c.words = t.words ++ d.words := by
  induction h with
  | name h => exact Cursor.words_text h rfl (by decide)
  | @container d t k _ hsuffix ih =>
    obtain ⟨hopening, hclosing⟩ := Cursor.kind_of_typeSuffix? hsuffix
    rw [ih, Cursor.words_mark hopening k.spelling?_opening,
      Cursor.words_mark hclosing k.spelling?_closing, TypeExpr.words, List.append_assoc]
    rfl

theorem ListAt.kind (h : ListAt c types d) : d.kind = .greater := by
  induction h with
  | nil h => exact h
  | last _ h => exact h
  | more _ _ _ ih => exact ih

theorem ListAt.reaches (h : ListAt c types d) : c.Reaches d := by
  induction h with
  | nil => exact .refl _
  | last ht => exact ht.before.toReaches
  | more ht hcomma _ ih =>
    exact ht.before.toReaches.trans ((Cursor.before_next hcomma (by decide)).toReaches.trans ih)

theorem ListAt.words (h : ListAt c types d) :
    c.words = Word.commaJoined (types.map TypeExpr.words) ++ d.words := by
  induction h with
  | nil => rfl
  | last ht => exact ht.words
  | more ht hcomma _ ih =>
    rw [ht.words, Cursor.words_mark hcomma rfl, ih]
    simp [Word.commaJoined]

end TypeExpr

end Types

end ScriptAnalysis
