import ScriptAnalysis.Proofs.Grammar.StmtParallel
import ScriptAnalysis.Proofs.Grammar.Suffixes
import ScriptAnalysis.Proofs.Grammar.Yields

/-!
Statements read a second time. What a parser reads from words it reads from the same words anywhere
else, up to the numbers and places of nodes, and with more depth than there are words
(`Parser.yields_block`).
-/
namespace ScriptAnalysis

section Bare

/-- A name with a written type without its nodes. -/
def Binder.bare (b : Binder) : Binder := ⟨.blank, b.name, b.type.bare⟩

def FunctionHead.bare (h : FunctionHead) : FunctionHead :=
  { h with parameters := h.parameters.map Binder.bare, result := h.result.bare }

def TemplateHead.bare (h : TemplateHead) : TemplateHead :=
  { h with
    typeParameters := h.typeParameters.map Binder.bare
    parameters := h.parameters.map Binder.bare
    result := h.result.bare }

/-- A class name behind `from` without its place. -/
def Superclass.bare (s : Superclass) : Superclass := ⟨s.name, .null⟩

def ClassHead.bare (h : ClassHead) : ClassHead :=
  { h with superclasses := h.superclasses.map Superclass.bare }

namespace Stmt

mutual

def bare : Stmt → Stmt
  | .block _ body => .block .blank (bareAll body)
  | .variable b value => .variable b.bare value.bare
  | .field b => .field b.bare
  | .function _ head _ body => .function .blank head.bare .blank (bareAll body)
  | .struct _ name fields => .struct .blank name (fields.map Binder.bare)
  | .cls _ head _ body => .cls .blank head.bare .blank (bareAll body)
  | .template _ head _ body => .template .blank head.bare .blank (bareAll body)
  | .ifThen _ condition thenBody => .ifThen .blank condition.bare thenBody.bare
  | .ifElse _ condition thenBody elseBody =>
    .ifElse .blank condition.bare thenBody.bare elseBody.bare
  | .loop _ condition body => .loop .blank condition.bare body.bare
  | .ret _ value => .ret .blank (value.map Expr.bare)
  | .action _ e => .action .blank e.bare

def bareAll : List Stmt → List Stmt
  | [] => []
  | s :: rest => s.bare :: bareAll rest

end

theorem bareAll_eq_map (body : List Stmt) : bareAll body = body.map bare := by
  induction body with
  | nil => rfl
  | cons s body ih => rw [bareAll, ih, List.map_cons]

end Stmt

def Block.bare (b : Block) : List Stmt := Stmt.bareAll b.body

theorem Expr.isAction_bare (e : Expr) : e.bare.isAction = e.isAction := by
  cases e <;> rw [Expr.bare] <;> rfl

theorem map_eq_of_forall₂ {α γ : Type} {f : α → γ} {as as' : List α}
    (h : List.Forall₂ (fun a a' => f a = f a') as as') : as.map f = as'.map f := by
  induction h with
  | nil => rfl
  | cons ha _ ih => exact congrArg₂ List.cons ha ih

theorem Binder.Related.bare {N : Node → Node → Prop} {b b' : Binder}
    (h : b.Related N (fun t t' => t.bare = t'.bare) b') : b.bare = b'.bare := by
  rw [Binder.bare, Binder.bare, h.name, h.type]

/-- Trees that are the same but for their nodes. -/
def TreeRelation.bare : TreeRelation where
  place _ _ := True
  opener _ _ := True
  type t t' := t.bare = t'.bare
  expr e e' := e.bare = e'.bare
  stmt x x' := x.bare = x'.bare
  typeNode _ := trivial
  exprNode _ := trivial
  isNamed := Expr.isNamed_of_bare
  isAction {e e'} h := by rw [← e.isAction_bare, h, e'.isAction_bare]
  name _ := rfl
  container _ h := by rw [TypeExpr.bare, TypeExpr.bare, h]
  int _ := rfl
  float _ := rfl
  string _ := rfl
  symbol _ := rfl
  paren _ h := by rw [Expr.bare, Expr.bare, h]
  literal _ h := by
    rw [Expr.bare, Expr.bare, Expr.bareAll_eq_map, Expr.bareAll_eq_map, map_eq_of_forall₂ h]
  not _ h := by rw [Expr.bare, Expr.bare, h]
  binary _ hl hr := by rw [Expr.bare, Expr.bare, hl, hr]
  assign _ hl hr := by rw [Expr.bare, Expr.bare, hl, hr]
  call _ he hes := by
    rw [Expr.bare, Expr.bare, he, Expr.bareAll_eq_map, Expr.bareAll_eq_map, map_eq_of_forall₂ hes]
  templateCall _ he hts hes := by
    rw [Expr.bare, Expr.bare, he, map_eq_of_forall₂ hts, Expr.bareAll_eq_map, Expr.bareAll_eq_map,
      map_eq_of_forall₂ hes]
  index _ hl hr := by rw [Expr.bare, Expr.bare, hl, hr]
  member _ h := by rw [Expr.bare, Expr.bare, h]
  construct _ _ := rfl
  block _ hxs := by
    rw [Stmt.bare, Stmt.bare, Stmt.bareAll_eq_map, Stmt.bareAll_eq_map, map_eq_of_forall₂ hxs]
  binding hb he := by rw [Stmt.bare, Stmt.bare, hb.bare, he]
  field hb := by rw [Stmt.bare, Stmt.bare, hb.bare]
  function _ _ hps hr _ hxs := by
    rw [Stmt.bare, Stmt.bare, FunctionHead.bare, FunctionHead.bare,
      map_eq_of_forall₂ (hps.imp fun _ _ => Binder.Related.bare), hr, Stmt.bareAll_eq_map,
      Stmt.bareAll_eq_map, map_eq_of_forall₂ hxs]
  struct _ hbs := by
    rw [Stmt.bare, Stmt.bare, map_eq_of_forall₂ (hbs.imp fun _ _ => Binder.Related.bare)]
  cls _ _ hss _ hxs := by
    have hbare := map_eq_of_forall₂ (f := Superclass.bare) (hss.imp fun s s' hs => by
      rw [Superclass.bare, Superclass.bare, hs.name])
    rw [Stmt.bare, Stmt.bare, ClassHead.bare, ClassHead.bare, hbare, Stmt.bareAll_eq_map,
      Stmt.bareAll_eq_map, map_eq_of_forall₂ hxs]
  template _ _ hts hps hr _ hxs := by
    rw [Stmt.bare, Stmt.bare, TemplateHead.bare, TemplateHead.bare,
      map_eq_of_forall₂ (hts.imp fun _ _ => Binder.Related.bare),
      map_eq_of_forall₂ (hps.imp fun _ _ => Binder.Related.bare), hr, Stmt.bareAll_eq_map,
      Stmt.bareAll_eq_map, map_eq_of_forall₂ hxs]
  ifThen _ he hx := by rw [Stmt.bare, Stmt.bare, he, hx]
  ifElse _ he hx hy := by rw [Stmt.bare, Stmt.bare, he, hx, hy]
  loop _ he hx := by rw [Stmt.bare, Stmt.bare, he, hx]
  ret _ h := by
    cases h with
    | none => rfl
    | some he => rw [Stmt.bare, Stmt.bare, Option.map_some, Option.map_some, he]
  action _ he := by rw [Stmt.bare, Stmt.bare, he]

end Bare

structure Cursor.SameWords (s s' : TokenStream) (c c' : Cursor) : Prop where
  stream : c.stream = s
  stream' : c'.stream = s'
  words : c.words = c'.words
  setSuffix : c.setSuffix = c'.setSuffix

namespace Cursor.SameWords

variable {s s' : TokenStream} {c c' : Cursor} (h : SameWords s s' c c')
include h

theorem kind : c.kind = c'.kind := by rw [kind_eq, kind_eq, h.words]

theorem split (hk : c.kind ≠ .eof) : c.current.word = c'.current.word ∧ c.next.words = c'.next.words := by
  have hk' : c'.kind ≠ .eof := h.kind ▸ hk
  exact List.cons.inj ((words_of_kind hk).symm.trans (h.words.trans (words_of_kind hk')))

theorem next (hk : c.kind ≠ .eof) : SameWords s s' c.next c'.next := by
  have hwords := (h.split hk).2
  rw [next_eq hk, next_eq (h.kind ▸ hk)] at hwords ⊢
  exact ⟨h.stream, h.stream', hwords, h.setSuffix⟩

theorem value (hk : c.kind.spelling? = none ∧ c.kind ≠ .eof) : c.current.value = c'.current.value := by
  have hword := (h.split hk.2).1
  rw [Token.word_eq hk.1] at hword
  exact (Token.eq_of_word hword.symm hk.1).2.symm

theorem lookahead (hk : c.kind = .less) :
    typeArgumentsAhead c.kindsAhead = typeArgumentsAhead c'.kindsAhead := by
  rw [typeArgumentsAhead_kindsAhead (words_mark hk rfl),
    typeArgumentsAhead_kindsAhead (words_mark (h.kind ▸ hk) rfl), (h.split (by rw [hk]; decide)).2]

end Cursor.SameWords

/-- Cursors that see the same words, and trees that are the same but for their nodes. -/
def Pairing.words (s s' : TokenStream) : Pairing where
  toTreeRelation := .bare
  near := Cursor.SameWords s s'
  blame _ _ := True
  stream h h' := h.stream.trans h'.stream.symm
  kind h := h.kind
  value h := h.value
  setSuffix h := h.setSuffix
  length h := congrArg List.length h.words
  lookahead h := h.lookahead
  next h := h.next
  fresh h := ⟨h.stream, h.stream', h.words, h.setSuffix⟩
  allow h _ := ⟨h.stream, h.stream', h.words, rfl⟩
  back h h' := by
    refine ⟨h'.stream, h'.stream', ?_, h'.setSuffix⟩
    have hwords := h.words
    rw [Cursor.words, Cursor.words, h.stream, h.stream'] at hwords
    rw [Cursor.words, Cursor.words]
    rwa [h'.stream, h'.stream']
  start _ _ _ _ _ _ := trivial
  restart _ _ _ _ := trivial
  omitted _ _ := trivial
  opens _ _ _ := trivial
  blame_refl _ := trivial
  blame_unexpected _ := trivial
  blame_because _ _ := trivial
  blame_action _ _ := trivial

/-- A block that has been read is read from its words anywhere. -/
theorem Parser.yields_block {b : Block} {d e : Cursor} (h : block d = .ok b e) (hset : d.setSuffix = true)
    {depth : Nat} (hdepth : d.words.length ≤ depth) :
    Yields (blockOf (stmtWithin depth)) d.words e.words (·.bare = b.bare) := by
  intro c hc hcset
  have hlength := d.length_words_le
  have hnear : Cursor.SameWords d.stream c.stream d c := ⟨rfl, rfl, hc.symm, hset.trans hcset.symm⟩
  have hstmt : Within (.words d.stream c.stream) d.ahead (stmtWithin (d.remaining + 1)) (stmtWithin depth) := by
    intro f f' hf hlt
    unfold Cursor.ahead at hlt
    exact pairs_stmtWithin hf (show f.words.length < _ by omega) (show f.words.length < _ by omega)
  have hpairs := pairs_blockOf hstmt hnear le_rfl
  unfold Pairs at hpairs
  have hrun : blockOf (stmtWithin (d.remaining + 1)) d = .ok b e := h
  rw [hrun] at hpairs
  generalize hagain : blockOf (stmtWithin depth) c = r at hpairs
  cases hpairs with
  | @ok _ b' _ c' hend hb =>
    have hend : Cursor.SameWords d.stream c.stream e c' := hend
    have hbody : List.Forall₂ (fun x x' : Stmt => x.bare = x'.bare) b.body b'.body := hb.1.1.body
    have hset' := (((runs_block d).of_ok h).before.setSuffix).trans hset
    refine ⟨b', c', rfl, hend.words.symm, hend.setSuffix.symm.trans hset', ?_⟩
    show Stmt.bareAll b'.body = Stmt.bareAll b.body
    rw [Stmt.bareAll_eq_map, Stmt.bareAll_eq_map, map_eq_of_forall₂ hbody]

end ScriptAnalysis
