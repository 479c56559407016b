import ScriptAnalysis.Proofs.Grammar.StmtSound
import ScriptAnalysis.Proofs.Tree.Parent

/-!
Numbers and spans that reading hands out. Node numbers are taken in rising order, and a construct gets its
number after all that is inside it; it covers its own tokens, and its parts cover tokens of it one behind the
other (`Cursor.Lays`). So every program that is read is numbered: `Program.numbered_of_parse`.
-/
namespace ScriptAnalysis

open Site (parts ofExpr ofStmt)

inductive TokenStream.Spread (s : TokenStream) : Nat → List Site → Nat → Prop
  | nil {i j : Nat} (h : i ≤ j) : Spread s i [] j
  | cons {i a b j : Nat} {t : Site} {l : List Site} (h : i ≤ a) (hab : a ≤ b)
    (hspan : t.part.node.span = ⟨(s.tokenAt a).span.start, (s.tokenAt b).span.stop⟩)
    (hrest : Spread s (b + 1) l j) : Spread s i (t :: l) j
  | omitted {i k j : Nat} {t : Site} {l : List Site} (h : i ≤ k)
    (hspan : t.part.node.span = .empty (s.tokenAt k).span.stop)
    (hrest : Spread s (k + 1) l j) : Spread s i (t :: l) j

inductive Site.Spanned (s : TokenStream) (t : Site) : Prop
  | covers {i j : Nat} (h : i ≤ j) (hj : j < s.tokens.size)
    (hspan : t.part.node.span = ⟨(s.tokenAt i).span.start, (s.tokenAt j).span.stop⟩)
    (hparts : s.Spread i t.parts (j + 1)) : Spanned s t
  | omitted {k : Nat} (hk : (s.tokenAt k).kind = .closeParen)
    (hspan : t.part.node.span = .empty (s.tokenAt k).span.stop) (hparts : t.parts = []) : Spanned s t

namespace TokenStream.Spread

variable {s : TokenStream} {i j k : Nat} {l m : List Site}

theorem le (h : s.Spread i l j) : i ≤ j := by
  induction h with
  | nil h => exact h
  | cons h hab _ _ ih | omitted h _ _ ih => omega

theorem append (h : s.Spread i l j) (h' : s.Spread j m k) : s.Spread i (l ++ m) k := by
  induction h with
  | @nil i j h =>
    cases h' with
    | nil h' => exact .nil (h.trans h')
    | cons ha hab hspan hrest => exact .cons (h.trans ha) hab hspan hrest
    | omitted hk hspan hrest => exact .omitted (h.trans hk) hspan hrest
  | cons h hab hspan _ ih => exact .cons h hab hspan (ih h')
  | omitted h hspan _ ih => exact .omitted h hspan (ih h')

end TokenStream.Spread

namespace Cursor

variable {b c d e : Cursor} {roots roots' l l' : List Site} {t : Site}

/-- What is between two cursors covers tokens. -/
theorem Before.span (h : c.Before d) : ∃ j, c.index ≤ j ∧ j < c.stream.tokens.size ∧ d.index = j + 1 ∧
    (⟨c.position, d.lastEnd⟩ : Span) =
      ⟨(c.stream.tokenAt c.index).span.start, (c.stream.tokenAt j).span.stop⟩ := by
  obtain ⟨j, hj⟩ : ∃ j, d.index = j + 1 := ⟨d.index - 1, by have := h.lt; omega⟩
  have hlt : j < c.stream.tokens.size := by
    have := h.le_size
    omega
  refine ⟨j, by have := h.lt; omega, hlt, hj, ?_⟩
  rw [lastEnd_eq hj (h.stream ▸ hlt), h.stream]
  rfl

/-- Sites that were read between two cursors. Their numbers rise, and each of them covers tokens; the
roots among them do so one behind the other. -/
structure Lays (c d : Cursor) (roots l : List Site) : Prop where
  moves : c.Moves d
  ascending : Ascending c.nextId d.nextId l
  spread : c.stream.Spread c.index roots d.index
  spanned : ∀ t ∈ l, t.Spanned c.stream

theorem lays_nil (h : c.Moves d) : Lays c d [] [] := ⟨h, h.nextId, .nil h.index, by simp⟩

theorem Lays.append (h : Lays c d roots l) (h' : Lays d e roots' l') :
    Lays c e (roots ++ roots') (l ++ l') where
  moves := h.moves.trans h'.moves
  ascending := h.ascending.append h'.ascending
  spread := by
    have hspread := h'.spread
    rw [h.moves.stream] at hspread
    exact h.spread.append hspread
  spanned := by
    intro t ht
    rcases List.mem_append.1 ht with ht | ht
    · exact h.spanned t ht
    · exact h.moves.stream ▸ h'.spanned t ht

theorem Lays.from (h : Lays c d roots l) (hc : b.Moves c) : Lays b d roots l :=
  (lays_nil hc).append h

theorem Lays.to (h : Lays c d roots l) (hd : d.Moves e) : Lays c e roots l := by
  simpa using h.append (lays_nil hd)

/-- What the roots are the parts of comes behind them and covers what they cover. -/
theorem Lays.close (h : Lays c d roots l) (ht : roots = t.parts) (hbefore : c.Before d)
    (hnode : t.part.node = c.cover d) : Lays c d.fresh [t] (l ++ [t]) := by
  obtain ⟨j, hle, hj, hd, hspan⟩ := hbefore.span
  have hcovers : t.part.node.span = _ := (congrArg Node.span hnode).trans hspan
  refine ⟨h.moves.fresh, h.ascending.close ?_, ?_, ?_⟩
  · rw [Site.index, Site.id, hnode]
    rfl
  · have hend : d.fresh.index = j + 1 := hd
    rw [hend]
    exact .cons (Nat.le_refl _) hle hcovers (.nil (Nat.le_refl _))
  · intro s hs
    rcases List.mem_append.1 hs with hs | hs
    · exact h.spanned s hs
    · obtain rfl := List.mem_singleton.1 hs
      refine .covers hle hj hcovers ?_
      rw [← ht, ← hd]
      exact h.spread

end Cursor

open Cursor (Lays lays_nil before_next)

section Types

variable {c d : Cursor} {t : TypeExpr}

theorem TypeExpr.At.lays (h : t.At c d) (st : Setting) : Lays c d [⟨st, .written t⟩] (t.sites st) := by
  induction h with
  | name h =>
    have hnext := before_next h (by decide)
    exact (lays_nil hnext.toMoves).close rfl hnext rfl
  | container ht hsuffix ih =>
    have hsuffix := Cursor.before_suffix hsuffix
    exact (ih.to hsuffix.toMoves).close rfl (ht.before.trans hsuffix) rfl

theorem TypeExpr.ListAt.lays {types : List TypeExpr} (h : TypeExpr.ListAt c types d) (st : Setting) :
    Lays c d (types.map (⟨st, .written ·⟩)) (TypeExpr.sitesAll st types) := by
  induction h with
  | nil => exact lays_nil (.refl _)
  | last ht => simpa [TypeExpr.sitesAll] using ht.lays st
  | more ht hcomma _ ih => exact (ht.lays st).append (ih.from (before_next hcomma (by decide)).toMoves)

theorem Binder.At.lays {b : Binder} (h : b.At c d) (st : Setting) (sort : BinderSort) :
    Lays c d [⟨st, .binder sort b⟩] (b.sites st sort) := by
  cases h with
  | mk hname hcolon htype =>
    have hhead := (before_next hname (by decide)).trans (before_next hcolon (by decide))
    exact ((htype.lays st).from hhead.toMoves).close rfl (hhead.trans htype.before) rfl

theorem Binder.FieldAt.lays {b : Binder} (h : b.FieldAt c d) (st : Setting) (sort : BinderSort) :
    Lays c d [⟨st, .binder sort b⟩] (b.sites st sort) := by
  cases h with
  | mk hvar hname hcolon htype =>
    have hhead := ((before_next hvar (by decide)).trans (before_next hname (by decide))).trans
      (before_next hcolon (by decide))
    exact ((htype.lays st).from hhead.toMoves).close rfl (hhead.trans htype.before) rfl

/-- Names with written types lie in front of the token that closes the list. -/
theorem Binder.lays_items {close : TokenKind} {bs : List Binder} (h : ItemsAt Binder.At c close bs d)
    (st : Setting) (sort : BinderSort) : ∃ e : Cursor, e.kind = close ∧ d = e.next ∧
      Lays c e (bs.map (⟨st, .binder sort ·⟩)) (Binder.sitesAll st sort bs) := by
  induction h with
  | @nil c close h => exact ⟨c, h, rfl, lays_nil (.refl _)⟩
  | @last c d close b ha h => exact ⟨d, h, rfl, by simpa [Binder.sitesAll] using ha.lays st sort⟩
  | more ha hcomma _ ih =>
    obtain ⟨e, hkind, rfl, hlays⟩ := ih
    exact ⟨e, hkind, rfl, (ha.lays st sort).append (hlays.from (before_next hcomma (by decide)).toMoves)⟩

theorem Binder.lays_fields {bs : List Binder} (h : ManyAt Binder.FieldAt c bs d) (st : Setting)
    (sort : BinderSort) :
    Lays c d (bs.map (⟨st, .binder sort ·⟩)) (Binder.sitesAll st sort bs) := by
  induction h with
  | nil => exact lays_nil (.refl _)
  | cons ha _ ih => exact (ha.lays st sort).append ih

theorem TypeExpr.ResultAt.lays (hclose : c.kind = .closeParen) (h : t.ResultAt c.next d) (st : Setting) :
    Lays c d [⟨st, .written t⟩] (t.sites st) := by
  have hnext := before_next hclose (by decide)
  generalize hc : c.next = b at h
  cases h with
  | omitted h =>
    subst hc
    have hlt := Cursor.lt_size (c := c) (by rw [hclose]; decide)
    have hspan : (Span.empty c.next.lastEnd) = .empty (c.stream.tokenAt c.index).span.stop :=
      congrArg Span.empty (Cursor.lastEnd_next (by rw [hclose]; decide))
    have hindex : c.next.fresh.index = c.index + 1 := by
      rw [Cursor.next_eq (by rw [hclose]; decide)]
      rfl
    refine ⟨hnext.toMoves.fresh, ?_, ?_, ?_⟩
    · exact Ascending.close (show Ascending c.nextId c.next.nextId [] from hnext.nextId) rfl
    · rw [hindex]
      exact .omitted (Nat.le_refl _) hspan (.nil (Nat.le_refl _))
    · intro s hs
      obtain rfl := List.mem_singleton.1 hs
      exact .omitted (k := c.index) hclose hspan rfl
  | written h hb htype =>
    have hmoves := (hnext.toMoves.trans (hc ▸ (before_next h (by decide)).toMoves)).trans hb.toMoves
    have hlays : Lays c _ [⟨st, .written t⟩] (t.sites st) := (htype.lays st).from hmoves
    exact ⟨⟨hlays.moves.stream, hlays.moves.file, hlays.moves.index, hlays.moves.le, hlays.moves.nextId⟩,
      hlays.ascending, hlays.spread, hlays.spanned⟩

end Types

namespace Expr

structure Laid (st : Setting) (c : Cursor) (e : Expr) (d : Cursor) : Prop where
  exists_within : ∃ b : Cursor, d = b.fresh ∧ c.Before b ∧ e.node = c.cover b ∧
    Lays c b (ofExpr st e) (e.within st)

variable {st : Setting} {c d : Cursor} {e : Expr}

theorem Laid.lays (h : Laid st c e d) (role : Role) :
    Lays c d [⟨st, .expr role e⟩] (e.sites st role) := by
  obtain ⟨b, rfl, hbefore, hnode, hlays⟩ := h.exists_within
  exact hlays.close rfl hbefore hnode

theorem laid_atom (h : c.Before d) (hnode : e.node = c.cover d) (hparts : ofExpr st e = [])
    (hwithin : e.within st = []) : Laid st c e d.fresh :=
  ⟨d, rfl, h, hnode, by rw [hparts, hwithin]; exact lays_nil h.toMoves⟩

mutual

theorem At.laid (st : Setting) {c d : Cursor} {e : Expr} (h : e.At c d) : Laid st c e d := by
  cases h with
  | int h | float h | string h | symbol h => exact laid_atom (before_next h (by decide)) rfl rfl rfl
  | negativeInt hdash h | negativeFloat hdash h =>
    exact laid_atom ((before_next hdash (by decide)).trans (before_next h (by decide))) rfl rfl rfl
  | paren hopen hinner hclose =>
    have hopen := before_next hopen (by decide)
    have hclose := before_next hclose (by decide)
    refine ⟨_, rfl, (hopen.trans hinner.before).trans hclose, rfl, ?_⟩
    exact (((hinner.laid st).lays .free).from hopen.toMoves).to hclose.toMoves
  | @literal _ _ k _ hopen helements =>
    have hopen := before_next hopen k.opening_ne
    refine ⟨_, rfl, hopen.trans (before_items k.closing_ne helements), rfl, ?_⟩
    exact (lays_items st k.closing_ne helements).from hopen.toMoves
  | @construct _ k h hname =>
    have hk : k.constructorKind ≠ .eof := by cases k <;> decide
    have h := before_next h hk
    have hname := before_next hname (by decide)
    refine ⟨_, rfl, (h.trans hname).fresh, rfl, ?_⟩
    exact ((lays_nil hname.toMoves).close (t := ⟨st, .reference _⟩) rfl hname rfl).from h.toMoves
  | not h hoperand =>
    have h := before_next h (by decide)
    exact ⟨_, rfl, h.trans hoperand.before, rfl, ((hoperand.laid st).lays .free).from h.toMoves⟩
  | @binary _ _ _ op _ _ hleft h hright =>
    have hop : op.kind ≠ .eof := by cases op <;> decide
    have h := before_next h hop
    refine ⟨_, rfl, (hleft.before.trans h).trans hright.before, rfl, ?_⟩
    exact ((hleft.laid st).lays .free).append (((hright.laid st).lays .free).from h.toMoves)
  | assign htarget h hvalue =>
    have h := before_next h (by decide)
    refine ⟨_, rfl, (htarget.before.trans h).trans hvalue.before, rfl, ?_⟩
    exact ((htarget.laid st).lays .free).append (((hvalue.laid st).lays .free).from h.toMoves)
  | call hcallee h _ harguments =>
    have h := before_next h (by decide)
    have hbefore := (hcallee.before.trans h).trans (before_items (by decide) harguments)
    exact ⟨_, rfl, hbefore, rfl,
      ((hcallee.laid st).lays .free).append ((lays_arguments st _ 0 (by decide) harguments).from h.toMoves)⟩
  | templateCall hcallee h _ htypes hopen harguments =>
    have h := before_next h (by decide)
    have hopen := (before_next htypes.kind (by decide)).trans (before_next hopen (by decide))
    have hfront := ((hcallee.before.trans h).trans_reaches htypes.reaches).trans hopen
    refine ⟨_, rfl, hfront.trans (before_items (by decide) harguments), rfl, ?_⟩
    exact (((hcallee.laid st).lays .free).append ((htypes.lays st).from h.toMoves)).append
      ((lays_arguments st _ 0 (by decide) harguments).from hopen.toMoves)
  | index hbase h _ hposition hclose =>
    have h := before_next h (by decide)
    have hclose := before_next hclose (by decide)
    refine ⟨_, rfl, ((hbase.before.trans h).trans hposition.before).trans hclose, rfl, ?_⟩
    exact ((hbase.laid st).lays .free).append
      ((((hposition.laid st).lays .free).from h.toMoves).to hclose.toMoves)
  | @member _ _ k _ hstem h _ hname =>
    have hk : k.accessKind ≠ .eof := by cases k <;> decide
    have hname := (before_next h hk).trans (before_next hname (by decide))
    exact ⟨_, rfl, hstem.before.trans hname, rfl, ((hstem.laid st).lays .free).to hname.toMoves⟩

theorem lays_items (st : Setting) {c d : Cursor} {close : TokenKind} {items : List Expr}
    (hclose : close ≠ .eof) (h : ItemsAt Expr.At c close items d) :
    Lays c d (items.map (⟨st, .expr .free ·⟩)) (sitesAll st items) := by
  cases h with
  | nil h => exact lays_nil (before_next h hclose).toMoves
  | last ha h =>
    exact (((ha.laid st).lays .free).append (lays_nil (before_next h hclose).toMoves))
  | more ha hcomma hitems =>
    exact ((ha.laid st).lays .free).append
      ((lays_items st hclose hitems).from (before_next hcomma (by decide)).toMoves)

theorem lays_arguments (st : Setting) (callee : Expr) (i : Nat) {c d : Cursor} {close : TokenKind}
    {items : List Expr} (hclose : close ≠ .eof) (h : ItemsAt Expr.At c close items d) :
    Lays c d ((items.zipIdx i).map fun (e, i) => ⟨st, .expr (.argument callee i) e⟩)
      (sitesArguments st callee i items) := by
  cases h with
  | nil h => exact lays_nil (before_next h hclose).toMoves
  | last ha h =>
    exact (((ha.laid st).lays (.argument callee i)).append (lays_nil (before_next h hclose).toMoves))
  | more ha hcomma hitems =>
    exact ((ha.laid st).lays (.argument callee i)).append
      ((lays_arguments st callee (i + 1) hclose hitems).from (before_next hcomma (by decide)).toMoves)

end

end Expr

namespace Stmt

/-- The body of a function, class or template, from its brace on. -/
theorem lays_body {st : Setting} {c d : Cursor} {body : List Stmt} (hopen : c.kind = .openCurly)
    (hbody : ManyAt Stmt.At c.next body d) (hclose : d.kind = .closeCurly)
    (h : Lays c.next d (body.map (⟨st, .stmt ·⟩)) (sitesAll st body)) :
    Lays c d.next.fresh [⟨st, .body (c.cover d.next) body⟩]
      (sitesAll st body ++ [⟨st, .body (c.cover d.next) body⟩]) := by
  have hopen := before_next hopen (by decide)
  have hclose := before_next hclose (by decide)
  exact ((h.from hopen.toMoves).to hclose.toMoves).close rfl
    ((hopen.trans_reaches (reaches_all hbody)).trans hclose) rfl

/-- The parameters, result type and body of a function or template, from the word `fun` on. -/
theorem lays_signature {st : Setting} {c d e g : Cursor} {parameters : List Binder} {result : TypeExpr}
    {body : List Stmt} (hfn : c.kind = .fn) (hname : c.next.kind = .identifier)
    (hopen : c.next.next.kind = .openParen)
    (hparameters : ItemsAt Binder.At c.next.next.next .closeParen parameters d)
    (hresult : result.ResultAt d e) (hbegin : e.kind = .openCurly)
    (hbody : ManyAt Stmt.At e.next body g) (hend : g.kind = .closeCurly)
    (h : Lays e.next g (body.map (⟨st, .stmt ·⟩)) (sitesAll st body)) :
    Lays c g.next.fresh
      (parameters.map (⟨st, .binder .parameter ·⟩) ++
        [⟨st, .written result⟩, ⟨st, .body (e.cover g.next) body⟩])
      (Binder.sitesAll st .parameter parameters ++ result.sites st ++ sitesAll st body ++
        [⟨st, .body (e.cover g.next) body⟩]) := by
  have hhead := ((before_next hfn (by decide)).trans (before_next hname (by decide))).trans
    (before_next hopen (by decide))
  obtain ⟨d, hclose, rfl, hlays⟩ := Binder.lays_items hparameters st .parameter
  have hall := ((hlays.from hhead.toMoves).append (TypeExpr.ResultAt.lays hclose hresult st)).append
    (lays_body hbegin hbody hend h)
  simpa only [List.append_assoc, List.singleton_append] using hall

mutual

theorem At.lays {c d : Cursor} {x : Stmt} (h : x.At c d) :
    ∀ st : Setting, Lays c d [⟨st, .stmt x⟩] (x.sites st) := by
  intro st
  cases h with
  | block hopen hbody hclose =>
    have hopen := before_next hopen (by decide)
    have hclose := before_next hclose (by decide)
    exact (((lays_all hbody _).from hopen.toMoves).to hclose.toMoves).close rfl
      ((hopen.trans_reaches (reaches_all hbody)).trans hclose) rfl
  | «variable» hvar hname hcolon htype h hvalue =>
    have hhead := ((before_next hvar (by decide)).trans (before_next hname (by decide))).trans
      (before_next hcolon (by decide))
    have h := before_next h (by decide)
    refine Lays.close ?_ rfl (((hhead.trans htype.before).trans h).trans hvalue.before) rfl
    exact ((htype.lays st).from hhead.toMoves).append (((hvalue.laid st).lays _).from h.toMoves)
  | field h =>
    cases h with
    | mk hvar hname hcolon htype =>
      have hhead := ((before_next hvar (by decide)).trans (before_next hname (by decide))).trans
        (before_next hcolon (by decide))
      exact ((htype.lays st).from hhead.toMoves).close rfl (hhead.trans htype.before) rfl
  | function hvisibility hfn hname hopen hparameters hresult hbegin hbody hend =>
    have hfront := hvisibility.reaches.trans_before
      (Cursor.before_signature hfn hname hopen hparameters hresult)
    have hbefore := ((hfront.trans (before_next hbegin (by decide))).trans_reaches
      (reaches_all hbody)).trans (before_next hend (by decide))
    exact ((lays_signature hfn hname hopen hparameters hresult hbegin hbody hend
      (lays_all hbody _)).from hvisibility.reaches.toMoves).close rfl hbefore.fresh rfl
  | struct h hname hopen hfields hclose =>
    have hhead := ((before_next h (by decide)).trans (before_next hname (by decide))).trans
      (before_next hopen (by decide))
    have hclose := before_next hclose (by decide)
    exact (((Binder.lays_fields hfields st .field).from hhead.toMoves).to hclose.toMoves).close rfl
      ((hhead.trans_reaches (hfields.reaches fun _ _ _ h => h.before)).trans hclose) rfl
  | cls hvisibility hcls hname hsuperclasses hbegin hbody hend =>
    have hhead := ((hvisibility.reaches.trans_before (before_next hcls (by decide))).trans
      (before_next hname (by decide))).trans_reaches hsuperclasses.reaches
    have hbefore := ((hhead.trans (before_next hbegin (by decide))).trans_reaches
      (reaches_all hbody)).trans (before_next hend (by decide))
    exact ((lays_body hbegin hbody hend (lays_all hbody _)).from hhead.toMoves).close rfl
      hbefore.fresh rfl
  | @template _ _ _ _ g _ _ result _ h hless htypes hfn hname hopen hparameters hresult hbegin hbody
      hend =>
    have hhead := (before_next h (by decide)).trans (before_next hless (by decide))
    have hfront := (hhead.trans (htypes.before (by decide) fun _ _ _ h => h.before)).trans
      (Cursor.before_signature hfn hname hopen hparameters hresult)
    have hbefore := ((hfront.trans (before_next hbegin (by decide))).trans_reaches
      (reaches_all hbody)).trans (before_next hend (by decide))
    let inner : Setting := ⟨(c.cover g.next.fresh).id, some result⟩
    obtain ⟨d, hgreater, rfl, hlays⟩ := Binder.lays_items htypes inner .typeParameter
    have hall := (hlays.from hhead.toMoves).append ((lays_signature hfn hname hopen hparameters hresult
      hbegin hbody hend (lays_all hbody inner)).from (before_next hgreater (by decide)).toMoves)
    rw [← List.append_assoc, ← List.append_assoc, ← List.append_assoc, ← List.append_assoc] at hall
    exact hall.close rfl hbefore.fresh rfl
  | ifThen h hcondition hthen =>
    have h := before_next h (by decide)
    refine Lays.close ?_ rfl ((h.trans hcondition.before).trans hthen.before) rfl
    exact (((hcondition.laid st).lays _).from h.toMoves).append (hthen.lays st)
  | ifElse h hcondition hthen hword helse =>
    have h := before_next h (by decide)
    have hword := before_next hword (by decide)
    refine Lays.close ?_ rfl
      ((((h.trans hcondition.before).trans hthen.before).trans hword).trans helse.before) rfl
    exact ((((hcondition.laid st).lays _).from h.toMoves).append (hthen.lays st)).append
      ((helse.lays st).from hword.toMoves)
  | loop h hcondition hbody =>
    have h := before_next h (by decide)
    refine Lays.close ?_ rfl ((h.trans hcondition.before).trans hbody.before) rfl
    exact (((hcondition.laid st).lays _).from h.toMoves).append (hbody.lays st)
  | ret h =>
    have h := before_next h (by decide)
    exact (lays_nil h.toMoves).close rfl h rfl
  | retValue h hvalue =>
    have h := before_next h (by decide)
    exact (((hvalue.laid st).lays .free).from h.toMoves).close rfl (h.trans hvalue.before) rfl
  | action hexpr => exact ((hexpr.laid st).lays .free).close rfl hexpr.before rfl

theorem lays_all {c d : Cursor} {body : List Stmt} (h : ManyAt Stmt.At c body d) :
    ∀ st : Setting, Lays c d (body.map (⟨st, .stmt ·⟩)) (sitesAll st body) := by
  intro st
  cases h with
  | nil => exact lays_nil (.refl _)
  | cons ha hitems => exact (ha.lays st).append (lays_all hitems st)

end

end Stmt

namespace Program

variable {tokens : List Token} {file : String} {p : Program} {c : Cursor}

/-- The sites of a program that is read, between the first number and the next. -/
theorem lays_of_parse (h : Program.parse tokens file = .ok p c) :
    Lays (Cursor.start tokens file).fresh c (p.body.map (⟨p.setting, .stmt ·⟩)) p.sites :=
  Stmt.lays_all (located_of_parse h).1 p.setting

theorem numbered_of_parse (h : Program.parse tokens file = .ok p c) : p.Numbered := by
  obtain ⟨_, _, hnode⟩ := located_of_parse h
  exact ⟨by rw [hnode], c.nextId, (lays_of_parse h).ascending⟩

/-- Numbers are keys: the program has the first one, and the numbers of all else that stands in it rise in
post-order up to the next one that would be handed out. -/
theorem numbers_rise (h : Program.parse tokens file = .ok p c) :
    p.node.id = ⟨0⟩ ∧ (p.sites.map Site.index).Pairwise (· < ·) ∧
      ∀ t ∈ p.sites, 0 < t.index ∧ t.index < c.nextId := by
  have hascending : Ascending 1 c.nextId p.sites := (lays_of_parse h).ascending
  refine ⟨(numbered_of_parse h).1, hascending.pairwise, fun t ht => ?_⟩
  exact ⟨hascending.lower ht, hascending.upper ht⟩

/-- A function whose result type is first read with a set suffix, and then again without: two numbers are
handed out in vain. -/
theorem numbers_rise_again : ∃ tokens p c,
    Token.tokenize "fun f(): Int \x7b\x7d" "main" = .ok tokens ∧ parse tokens "main" = .ok p c ∧
      p.sites.map Site.index = [3, 4, 5] ∧ p.node.id = ⟨0⟩ ∧ (p.sites.map Site.index).Pairwise (· < ·) ∧
      ∀ t ∈ p.sites, 0 < t.index ∧ t.index < c.nextId := by
  obtain ⟨tokens, p, c, htokens, hparse, htest⟩ := exists_of_reads "main" "fun f(): Int \x7b\x7d"
    (fun p => p.sites.map Site.index = [3, 4, 5]) (by decide +kernel)
  exact ⟨tokens, p, c, htokens, hparse, of_decide_eq_true htest, numbers_rise hparse⟩

end Program

end ScriptAnalysis
