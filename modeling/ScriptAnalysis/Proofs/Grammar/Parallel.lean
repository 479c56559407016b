import Mathlib.Data.List.Forall2
import ScriptAnalysis.Proofs.Grammar.Runs

/-!
Parsers that go through two streams in step. What has to be true of the cursors, and in which way trees
are compared, is a parameter (`Pairing`); a parser then fails on both streams, or it gives trees that
are related, and takes as many tokens from the one as from the other (`Parser.Pairs`).
-/
namespace ScriptAnalysis

namespace Cursor

variable {c : Cursor} {k : TokenKind}

def ahead (c : Cursor) : Nat := c.words.length

theorem ahead_next (h : c.kind ≠ .eof) : c.next.ahead < c.ahead := by
  rw [ahead, ahead, words_of_kind h]
  exact Nat.lt_succ_self _

def behind (c : Cursor) : TokenKind := (c.stream.tokenAt (c.index - 1)).kind

theorem behind_next (h : c.kind ≠ .eof) : c.next.behind = c.kind := by
  rw [next_eq h]
  rfl

/-- A brace right behind a parenthesis. A body starts there, and no other node. -/
def AtBody (c : Cursor) : Prop := c.kind = .openCurly ∧ c.behind = .closeParen

theorem not_atBody (h : c.kind = k) (hk : k ≠ .openCurly) : ¬ c.AtBody :=
  fun hbody => hk (h ▸ hbody.1)

theorem not_atBody_next (h : c.kind = k) (hk : k ≠ .closeParen) (hend : k ≠ .eof) : ¬ c.next.AtBody := by
  rintro ⟨-, hbehind⟩
  rw [behind_next (h ▸ hend), h] at hbehind
  exact hk hbehind

end Cursor

structure Binder.Related (N : Node → Node → Prop) (R : TypeExpr → TypeExpr → Prop) (b b' : Binder) :
    Prop where
  node : N b.node b'.node
  name : b.name = b'.name
  type : R b.type b'.type

structure Superclass.Related (N : Node → Node → Prop) (i i' : NodeId) (s s' : Superclass) : Prop where
  name : s.name = s'.name
  place : N ⟨i, s.span⟩ ⟨i', s'.span⟩

structure TreeRelation where
  place : Node → Node → Prop
  opener : Node → Node → Prop
  type : TypeExpr → TypeExpr → Prop
  expr : Expr → Expr → Prop
  stmt : Stmt → Stmt → Prop
  typeNode : ∀ {t t'}, type t t' → place t.node t'.node
  exprNode : ∀ {e e'}, expr e e' → place e.node e'.node
  isNamed : ∀ {e e'}, expr e e' → e.isNamed = e'.isNamed
  isAction : ∀ {e e'}, expr e e' → e.isAction = e'.isAction
  name : ∀ {n n' x}, place n n' → type (.name n x) (.name n' x)
  container : ∀ {n n' k t t'}, place n n' → type t t' → type (.container n k t) (.container n' k t')
  int : ∀ {n n' v}, place n n' → expr (.int n v) (.int n' v)
  float : ∀ {n n' v}, place n n' → expr (.float n v) (.float n' v)
  string : ∀ {n n' v}, place n n' → expr (.string n v) (.string n' v)
  symbol : ∀ {n n' x}, place n n' → expr (.symbol ⟨n, x⟩) (.symbol ⟨n', x⟩)
  paren : ∀ {n n' e e'}, place n n' → expr e e' → expr (.paren n e) (.paren n' e')
  literal : ∀ {n n' k es es'}, place n n' → List.Forall₂ expr es es' →
    expr (.literal n k es) (.literal n' k es')
  not : ∀ {n n' e e'}, place n n' → expr e e' → expr (.not n e) (.not n' e')
  binary : ∀ {n n' op l l' r r'}, place n n' → expr l l' → expr r r' →
    expr (.binary n op l r) (.binary n' op l' r')
  assign : ∀ {n n' l l' r r'}, place n n' → expr l l' → expr r r' →
    expr (.assign n l r) (.assign n' l' r')
  call : ∀ {n n' e e' es es'}, place n n' → expr e e' → List.Forall₂ expr es es' →
    expr (.call n e es) (.call n' e' es')
  templateCall : ∀ {n n' e e' ts ts' es es'}, place n n' → expr e e' → List.Forall₂ type ts ts' →
    List.Forall₂ expr es es' → expr (.templateCall n e ts es) (.templateCall n' e' ts' es')
  index : ∀ {n n' l l' r r'}, place n n' → expr l l' → expr r r' →
    expr (.index n l r) (.index n' l' r')
  member : ∀ {n n' k e e' x}, place n n' → expr e e' → expr (.member n k e x) (.member n' k e' x)
  construct : ∀ {n n' k m m' x}, place n n' → place m m' →
    expr (.construct n k ⟨m, x⟩) (.construct n' k ⟨m', x⟩)
  block : ∀ {n n' xs xs'}, opener n n' → List.Forall₂ stmt xs xs' → stmt (.block n xs) (.block n' xs')
  binding : ∀ {b b' e e'}, b.Related place type b' → expr e e' → stmt (.variable b e) (.variable b' e')
  field : ∀ {b b'}, b.Related place type b' → stmt (.field b) (.field b')
  function : ∀ {n n' v x ps ps' r r' m m' xs xs'}, place n n' → opener n n' →
    List.Forall₂ (Binder.Related place type) ps ps' → type r r' → opener m m' →
    List.Forall₂ stmt xs xs' → stmt (.function n ⟨v, x, ps, r⟩ m xs) (.function n' ⟨v, x, ps', r'⟩ m' xs')
  struct : ∀ {n n' x bs bs'}, place n n' → List.Forall₂ (Binder.Related place type) bs bs' →
    stmt (.struct n x bs) (.struct n' x bs')
  cls : ∀ {n n' v x ss ss' m m' xs xs'}, place n n' → opener n n' →
    List.Forall₂ (Superclass.Related place n.id n'.id) ss ss' → opener m m' →
    List.Forall₂ stmt xs xs' → stmt (.cls n ⟨v, x, ss⟩ m xs) (.cls n' ⟨v, x, ss'⟩ m' xs')
  template : ∀ {n n' ts ts' x ps ps' r r' m m' xs xs'}, place n n' → opener n n' →
    List.Forall₂ (Binder.Related place type) ts ts' → List.Forall₂ (Binder.Related place type) ps ps' →
    type r r' → opener m m' → List.Forall₂ stmt xs xs' →
    stmt (.template n ⟨ts, x, ps, r⟩ m xs) (.template n' ⟨ts', x, ps', r'⟩ m' xs')
  ifThen : ∀ {n n' e e' x x'}, place n n' → expr e e' → stmt x x' →
    stmt (.ifThen n e x) (.ifThen n' e' x')
  ifElse : ∀ {n n' e e' x x' y y'}, place n n' → expr e e' → stmt x x' → stmt y y' →
    stmt (.ifElse n e x y) (.ifElse n' e' x' y')
  loop : ∀ {n n' e e' x x'}, place n n' → expr e e' → stmt x x' → stmt (.loop n e x) (.loop n' e' x')
  ret : ∀ {n n' e e'}, place n n' → Option.Rel expr e e' → stmt (.ret n e) (.ret n' e')
  action : ∀ {n n' e e'}, place n n' → expr e e' → stmt (.action n e) (.action n' e')

structure Pairing extends TreeRelation where
  near : Cursor → Cursor → Prop
  blame : Cause → Cause → Prop
  stream : ∀ {c c' d d'}, near c c' → near d d' → c.stream = d.stream
  kind : ∀ {c c'}, near c c' → c.kind = c'.kind
  value : ∀ {c c'}, near c c' → c.kind.spelling? = none ∧ c.kind ≠ .eof →
    c.current.value = c'.current.value
  setSuffix : ∀ {c c'}, near c c' → c.setSuffix = c'.setSuffix
  length : ∀ {c c'}, near c c' → c.ahead = c'.ahead
  lookahead : ∀ {c c'}, near c c' → c.kind = .less →
    typeArgumentsAhead c.kindsAhead = typeArgumentsAhead c'.kindsAhead
  next : ∀ {c c'}, near c c' → c.kind ≠ .eof → near c.next c'.next
  fresh : ∀ {c c'}, near c c' → near c.fresh c'.fresh
  allow : ∀ {c c'}, near c c' → ∀ allowed : Bool,
    near { c with setSuffix := allowed } { c' with setSuffix := allowed }
  back : ∀ {c c' d d'}, near c c' → near d d' →
    near { d with index := c.index } { d' with index := c'.index }
  /-- A node starts at a token at which no body starts. -/
  start : ∀ {c c' d d'}, near c c' → near d d' → c.kind ≠ .eof → ¬ c.AtBody → ∀ x x',
    place ⟨⟨d.nextId⟩, ⟨c.position, x⟩⟩ ⟨⟨d'.nextId⟩, ⟨c'.position, x'⟩⟩
  restart : ∀ {n n' d d'}, place n n' → near d d' → ∀ x x',
    place ⟨⟨d.nextId⟩, ⟨n.span.start, x⟩⟩ ⟨⟨d'.nextId⟩, ⟨n'.span.start, x'⟩⟩
  /-- A result type is left out in front of a body. -/
  omitted : ∀ {c c'}, near c c' → c.AtBody →
    place ⟨⟨c.nextId⟩, .empty c.lastEnd⟩ ⟨⟨c'.nextId⟩, .empty c'.lastEnd⟩
  opens : ∀ {d d'}, near d d' → ∀ x x', opener ⟨⟨d.nextId⟩, x⟩ ⟨⟨d'.nextId⟩, x'⟩
  blame_refl : ∀ x, blame x x
  blame_unexpected : ∀ {c c'}, near c c' →
    blame (.unexpected c.current.value) (.unexpected c'.current.value)
  blame_because : ∀ {c c'}, near c c' → ∀ message,
    blame (.unexpectedBecause c.current.value message) (.unexpectedBecause c'.current.value message)
  blame_action : ∀ {e e'}, expr e e' → ∀ message,
    blame (.unexpectedBecause e.render message) (.unexpectedBecause e'.render message)

namespace Pairing

variable {A : Pairing} {c c' : Cursor}

theorem peek (h : A.near c c') (hk : c.kind ≠ .eof) : c.peek 1 = c'.peek 1 := by
  rw [← Cursor.kind_next hk, ← Cursor.kind_next (A.kind h ▸ hk), A.kind (A.next h hk)]

theorem typeSuffix? (h : A.near c c') : c.typeSuffix? = c'.typeSuffix? := by
  have hkind := A.kind h
  unfold Cursor.typeSuffix?
  rw [← hkind, ← A.setSuffix h]
  split
  next hopen => rw [peek h (by rw [hopen]; decide)]
  next hopen => rw [peek h (by rw [hopen]; decide)]
  next => rfl

structure Past (A : Pairing) (c d d' : Cursor) : Prop where
  near : A.near d d'
  lt : d.ahead < c.ahead

theorem past_next (h : A.near c c') (hk : c.kind ≠ .eof) : A.Past c c.next c'.next :=
  ⟨A.next h hk, Cursor.ahead_next hk⟩

/-- Related results, for which a token has been taken. -/
def Takes {α : Type} (R : α → α → Prop) (c : Cursor) (a a' : α) (d : Cursor) : Prop :=
  R a a' ∧ d.ahead < c.ahead

end Pairing

namespace Parser

open Pairing (Past Takes past_next)

variable {α β σ : Type} {A : Pairing} {c c' : Cursor} {m m' : Parser α} {f f' : α → Parser β}
  {P : α → α → Cursor → Prop} {Q : β → β → Cursor → Prop}

inductive Meets (A : Pairing) (Q : α → α → Cursor → Prop) :
    EStateM.Result Failure Cursor α → EStateM.Result Failure Cursor α → Prop
  | ok {a a' : α} {d d' : Cursor} (hd : A.near d d') (h : Q a a' d) : Meets A Q (.ok a d) (.ok a' d')
  | rejected {x x' : Diagnostic} {d d' : Cursor} (h : A.blame x.cause x'.cause) :
    Meets A Q (.error (.rejected x) d) (.error (.rejected x') d')

/-- What two parsers do from two cursors on. -/
def Pairs (A : Pairing) (m m' : Parser α) (c c' : Cursor) (Q : α → α → Cursor → Prop) : Prop :=
  Meets A Q (m c) (m' c')

theorem Pairs.bind (hm : Pairs A m m' c c' P)
    (hf : ∀ a a' d d', A.near d d' → P a a' d → Pairs A (f a) (f' a') d d' Q) :
    Pairs A (m >>= f) (m' >>= f') c c' Q := by
  unfold Pairs at hm
  show Meets A Q (EStateM.bind m f c) (EStateM.bind m' f' c')
  unfold EStateM.bind
  generalize m c = r at hm
  generalize m' c' = r' at hm
  cases hm with
  | ok hd h => exact hf _ _ _ _ hd h
  | rejected h => exact .rejected h

theorem Pairs.mono {P' : α → α → Cursor → Prop} (hm : Pairs A m m' c c' P)
    (h : ∀ a a' d, P a a' d → P' a a' d) : Pairs A m m' c c' P' := by
  unfold Pairs at hm ⊢
  generalize m c = r at hm
  generalize m' c' = r' at hm
  cases hm with
  | ok hd ha => exact .ok hd (h _ _ _ ha)
  | rejected hx => exact .rejected hx

/-- A parser that takes a token takes one also from further back. -/
theorem Pairs.further {R : α → α → Prop} {c₀ : Cursor} (hm : Pairs A m m' c c' (Takes R c))
    (h : c.ahead ≤ c₀.ahead) : Pairs A m m' c c' (Takes R c₀) :=
  hm.mono fun _ _ _ ha => ⟨ha.1, Nat.lt_of_lt_of_le ha.2 h⟩

theorem pairs_pure {a a' : α} (hc : A.near c c') (h : P a a' c) : Pairs A (pure a) (pure a') c c' P :=
  .ok hc h

theorem pairs_reject {x x' : Diagnostic} (h : A.blame x.cause x'.cause) :
    Pairs A (reject x) (reject x') c c' P :=
  .rejected h

theorem pairs_unexpected (hc : A.near c c') : Pairs A unexpected unexpected c c' P :=
  .rejected (A.blame_unexpected hc)

theorem pairs_unexpectedBecause (hc : A.near c c') (message : String) :
    Pairs A (unexpectedBecause message) (unexpectedBecause message) c c' P :=
  .rejected (A.blame_because hc message)

/-- What comes behind a failure does not matter. -/
theorem pairs_fail (h : Pairs A m m' c c' fun _ _ _ => False) : Pairs A (m >>= f) (m' >>= f') c c' Q :=
  h.bind fun _ _ _ _ _ h => h.elim

theorem pairs_get {f f' : Cursor → Parser β} (h : Pairs A (f c) (f' c') c c' Q) :
    Pairs A (get >>= f) (get >>= f') c c' Q :=
  h

theorem pairs_kind {f f' : TokenKind → Parser β} (hc : A.near c c')
    (h : Pairs A (f c.kind) (f' c.kind) c c' Q) : Pairs A (kind >>= f) (kind >>= f') c c' Q := by
  show Meets A Q (f c.kind c) (f' c'.kind c')
  rw [← A.kind hc]
  exact h

theorem pairs_advance {f f' : Token → Parser β} (hc : A.near c c') (hk : c.kind ≠ .eof)
    (h : A.Past c c.next c'.next → Pairs A (f c.current) (f' c'.current) c.next c'.next Q) :
    Pairs A (advance >>= f) (advance >>= f') c c' Q :=
  h (past_next hc hk)

theorem pairs_discard {f f' : PUnit → Parser β}
    (h : Pairs A (m >>= fun _ => f ⟨⟩) (m' >>= fun _ => f' ⟨⟩) c c' Q) :
    Pairs A (discard m >>= f) (discard m' >>= f') c c' Q := by
  rw [discard_bind, discard_bind]
  exact h

theorem pairs_expectOr {k : TokenKind} {x : Cursor → Diagnostic} {f f' : Token → Parser β}
    (hc : A.near c c') (hx : A.blame (x c).cause (x c').cause) (hk : k ≠ .eof)
    (h : c.kind = k → A.Past c c.next c'.next → Pairs A (f c.current) (f' c'.current) c.next c'.next Q) :
    Pairs A (expectOr k x >>= f) (expectOr k x >>= f') c c' Q := by
  show Pairs A ((if c.kind = k then advance else reject (x c)) >>= f)
    ((if c'.kind = k then advance else reject (x c')) >>= f') c c' Q
  rw [← A.kind hc]
  split
  next hkind => exact pairs_advance hc (hkind ▸ hk) (h hkind)
  next => exact pairs_fail (pairs_reject hx)

theorem pairs_expect {k : TokenKind} {f f' : Token → Parser β} (hc : A.near c c') (hk : k ≠ .eof)
    (h : c.kind = k → A.Past c c.next c'.next → Pairs A (f c.current) (f' c'.current) c.next c'.next Q) :
    Pairs A (expect k >>= f) (expect k >>= f') c c' Q :=
  pairs_expectOr hc (A.blame_unexpected hc) hk h

/-- A name, which is the same on both sides. -/
theorem pairs_name {x : Cursor → Diagnostic} {f f' : Token → Parser β} (hc : A.near c c')
    (hx : A.blame (x c).cause (x c').cause)
    (h : c.kind = .identifier → c.current.value = c'.current.value → A.Past c c.next c'.next →
      Pairs A (f c.current) (f' c'.current) c.next c'.next Q) :
    Pairs A (expectOr .identifier x >>= f) (expectOr .identifier x >>= f') c c' Q :=
  pairs_expectOr hc hx (by decide) fun hk hpast =>
    h hk (A.value hc (by rw [hk]; decide)) hpast

theorem pairs_nodeAt {x x' : Span} {g g' : Node → β} (hc : A.near c c')
    (h : Q (g ⟨⟨c.nextId⟩, x⟩) (g' ⟨⟨c'.nextId⟩, x'⟩) c.fresh) :
    Pairs A (nodeAt x >>= fun n => pure (g n)) (nodeAt x' >>= fun n => pure (g' n)) c c' Q :=
  .ok (A.fresh hc) h

theorem pairs_nodeFrom {x x' : Position} {g g' : Node → β} (hc : A.near c c')
    (h : Q (g ⟨⟨c.nextId⟩, ⟨x, c.lastEnd⟩⟩) (g' ⟨⟨c'.nextId⟩, ⟨x', c'.lastEnd⟩⟩) c.fresh) :
    Pairs A (nodeFrom x >>= fun n => pure (g n)) (nodeFrom x' >>= fun n => pure (g' n)) c c' Q :=
  pairs_nodeAt hc h

theorem pairs_withoutSetSuffix {R : α → α → Prop} {c₀ : Cursor} (hc : A.near c c')
    (h : Pairs A m m' { c with setSuffix := false } { c' with setSuffix := false } (Takes R c₀)) :
    Pairs A (withoutSetSuffix m) (withoutSetSuffix m') c c' (Takes R c₀) := by
  unfold Pairs at h
  simp only [Pairs, withoutSetSuffix]
  generalize m { c with setSuffix := false } = r at h
  generalize m' { c' with setSuffix := false } = r' at h
  cases h with
  | ok hd h =>
    rw [← A.setSuffix hc]
    exact .ok (A.allow hd _) h
  | rejected h => exact .rejected h

section Loops

inductive Round (I : σ → σ → Cursor → Prop) (P : α → α → Cursor → Prop) (d : Cursor) :
    σ ⊕ α → σ ⊕ α → Cursor → Prop
  | more {s s' : σ} {e : Cursor} (h : I s s' e) (hlt : e.ahead < d.ahead) :
    Round I P d (.inl s) (.inl s') e
  | done {a a' : α} {e : Cursor} (h : P a a' e) : Round I P d (.inr a) (.inr a') e

variable {step step' : σ → Parser (σ ⊕ α)} {I : σ → σ → Cursor → Prop}

theorem pairs_repeatWithin (hc : A.near c c')
    (h : ∀ s s' d d', A.near d d' → d.ahead ≤ c.ahead → I s s' d →
      Pairs A (step s) (step' s') d d' (Round I P d))
    {fuel fuel' : Nat} {s s' : σ} (hfuel : c.ahead < fuel) (hfuel' : c.ahead < fuel') (hs : I s s' c) :
    Pairs A (repeatWithin step fuel s) (repeatWithin step' fuel' s') c c' P := by
  induction fuel generalizing fuel' s s' c c' with
  | zero => cases hfuel
  | succ fuel ih =>
    cases fuel' with
    | zero => cases hfuel'
    | succ fuel' =>
      refine (h s s' c c' hc le_rfl hs).bind ?_
      intro r r' d d' hd hr
      cases hr with
      | more hs' hlt =>
        exact ih hd (fun s s' e e' he hle => h s s' e e' he (by omega)) (by omega) (by omega) hs'
      | done ha => exact pairs_pure hd ha

variable (step step') in
/-- Repetitions whose rounds each take a token end, and what every round keeps holds of their
results. -/
theorem pairs_iterate (hc : A.near c c')
    (h : ∀ s s' d d', A.near d d' → d.ahead ≤ c.ahead → I s s' d →
      Pairs A (step s) (step' s') d d' (Round I P d))
    {s s' : σ} (hs : I s s' c) : Pairs A (iterate step s) (iterate step' s') c c' P := by
  have hfuel := c.length_words_le
  have hfuel' := c'.length_words_le
  have hlength := A.length hc
  unfold Cursor.ahead at hlength
  show Pairs A (repeatWithin step (c.remaining + 1) s) (repeatWithin step' (c'.remaining + 1) s') c c' P
  exact pairs_repeatWithin hc h (by rw [Cursor.ahead]; omega) (by rw [Cursor.ahead]; omega) hs

end Loops

section Lists

variable {R : α → α → Prop} {item item' : Parser α} {close : TokenKind}

/-- Items found so far, and further ones may start at the place. -/
def Found (R : α → α → Prop) (items items' : List α) (d : Cursor) : Prop :=
  List.Forall₂ R items items' ∧ ¬ d.AtBody

theorem pairs_commaStep (hc : A.near c c') {n : Nat} (hle : c.ahead ≤ n) (hclose : close ≠ .openCurly)
    {items items' : List α} (h : Found R items items' c) (hitem : Pairs A item item' c c' (Takes R c)) :
    Pairs A (commaStep close item items) (commaStep close item' items') c c'
      (Round (Found R) (fun all all' d => List.Forall₂ R all all' ∧ d.ahead ≤ n) c) := by
  refine pairs_kind hc ?_
  split
  next => exact pairs_pure hc (.done ⟨List.rel_reverse h.1, hle⟩)
  next =>
    refine hitem.bind ?_
    rintro a a' d d' hd ⟨ha, hlt⟩
    refine pairs_kind hd ?_
    split
    next hcomma =>
      refine pairs_discard (pairs_advance hd (by rw [hcomma]; decide) fun hpast => ?_)
      refine pairs_pure hpast.near (.more ⟨.cons ha h.1, ?_⟩ (hpast.lt.trans hlt))
      exact Cursor.not_atBody_next hcomma (by decide) (by decide)
    next =>
      split
      · exact pairs_fail (pairs_unexpected hd)
      next hkind =>
        refine pairs_pure hd (.more ⟨.cons ha h.1, ?_⟩ hlt)
        exact Cursor.not_atBody (not_not.1 hkind) hclose

theorem pairs_commaSeparated (hc : A.near c c') (hclose : close ≠ .eof) (hcurly : close ≠ .openCurly)
    (hbody : ¬ c.AtBody)
    (hitem : ∀ d d', A.near d d' → d.ahead ≤ c.ahead → ¬ d.AtBody →
      Pairs A item item' d d' (Takes R d)) :
    Pairs A (commaSeparated close item) (commaSeparated close item') c c' fun items items' d =>
      Takes (List.Forall₂ R) c items items' d ∧ d.behind = close := by
  have hloop := pairs_iterate (I := Found R) _ _ hc (fun items items' d d' hd hle h =>
    pairs_commaStep hd hle hcurly h (hitem d d' hd hle h.2)) ⟨.nil, hbody⟩
  refine hloop.bind ?_
  rintro items items' d d' hd ⟨hitems, hle⟩
  refine pairs_discard (pairs_expect hd hclose fun hk hpast => pairs_pure hpast.near ⟨⟨hitems, ?_⟩, ?_⟩)
  · exact hpast.lt.trans_le hle
  · rw [Cursor.behind_next (hk ▸ hclose), hk]

end Lists

section Types

variable {power : Power}

theorem pairs_typeStep (hc : A.near c c') {c₀ : Cursor} (hlt : c.ahead < c₀.ahead)
    {left left' : TypeExpr} (hleft : A.type left left') :
    Pairs A (typeStep power left) (typeStep power left') c c'
      (Round (fun t t' _ => A.type t t') (Takes A.type c₀) c) := by
  refine pairs_get ?_
  rw [← Pairing.typeSuffix? hc]
  split
  next k hk =>
    split
    · obtain ⟨hopen, hclose⟩ := Cursor.kind_of_typeSuffix? hk
      refine pairs_discard (pairs_advance hc (by rw [hopen]; exact k.opening_ne) fun hpast => ?_)
      refine pairs_discard (pairs_advance hpast.near (by rw [hclose]; exact k.closing_ne) fun hpast' => ?_)
      refine pairs_nodeFrom hpast'.near (.more ?_ (hpast'.lt.trans hpast.lt))
      exact A.container (A.restart (A.typeNode hleft) hpast'.near _ _) hleft
    · exact pairs_pure hc (.done ⟨hleft, hlt⟩)
  next => exact pairs_pure hc (.done ⟨hleft, hlt⟩)

theorem pairs_typeExpr (hc : A.near c c') :
    Pairs A (typeExpr power) (typeExpr power) c c' (Takes A.type c) := by
  refine pairs_kind hc ?_
  split
  · exact pairs_fail (pairs_unexpectedBecause hc _)
  next h =>
    have hname := not_not.1 h
    have hstart : Pairs A typeName typeName c c' (Takes A.type c) := by
      refine pairs_name hc (A.blame_unexpected hc) fun hk hvalue hpast => ?_
      rw [hvalue]
      refine pairs_nodeAt hpast.near ⟨A.name ?_, hpast.lt⟩
      exact A.start hc hpast.near (by rw [hk]; decide) (Cursor.not_atBody hk (by decide)) _ _
    refine hstart.bind ?_
    rintro t t' d d' hd ⟨ht, hlt⟩
    refine pairs_iterate (I := fun t t' _ => A.type t t') _ _ hd ?_ ht
    intro left left' e e' he hle hleft
    exact pairs_typeStep he (hle.trans_lt hlt) hleft

end Types

end Parser

end ScriptAnalysis
