import ScriptAnalysis.Proofs.Grammar.ExprSound
import ScriptAnalysis.Token.Reader

/-!
Programs that are read are derived from the grammar: `Program.reads_of_parse`. No word is lost, read
twice or moved, also where a result type is read again without a set suffix.
-/
namespace ScriptAnalysis

open Word (mark firstKind)

section Lists

variable {α : Type} {R : Cursor → α → Cursor → Prop} {c d : Cursor} {items : List α}

theorem ItemsAt.before {close : TokenKind} (hclose : close ≠ .eof)
    (hR : ∀ c a d, R c a d → c.Before d) (h : ItemsAt R c close items d) : c.Before d := by
  induction h with
  | nil h => exact Cursor.before_next h hclose
  | last ha h => exact (hR _ _ _ ha).trans (Cursor.before_next h hclose)
  | more ha hcomma _ ih =>
    exact ((hR _ _ _ ha).trans (Cursor.before_next hcomma (by decide))).trans (ih hclose)

theorem ItemsAt.reads {close : TokenKind} {S : List Word → α → List Word → Prop}
    (hclose : close.spelling?.isSome) (hR : ∀ c a d, R c a d → S c.words a d.words)
    (h : ItemsAt R c close items d) : Items S c.words close items d.words := by
  induction h with
  | nil h =>
    rw [Cursor.words_mark h hclose]
    exact .nil
  | last ha h =>
    have hreads := hR _ _ _ ha
    rw [Cursor.words_mark h hclose] at hreads
    exact .last hreads
  | more ha hcomma _ ih =>
    have hreads := hR _ _ _ ha
    rw [Cursor.words_mark hcomma rfl] at hreads
    exact .more hreads (ih hclose)

theorem ManyAt.reaches (hR : ∀ c a d, R c a d → c.Before d) (h : ManyAt R c items d) : c.Reaches d := by
  induction h with
  | nil => exact .refl _
  | cons ha _ ih => exact (hR _ _ _ ha).toReaches.trans ih

end Lists

section Heads

variable {c d : Cursor} {b : Binder} {t : TypeExpr}

theorem Binder.At.before (h : b.At c d) : c.Before d := by
  cases h with
  | mk hname hcolon htype =>
    exact (((Cursor.before_next hname (by decide)).trans (Cursor.before_next hcolon (by decide))).trans
      htype.before).fresh

theorem Binder.At.reads (h : b.At c d) : Binder.Reads c.words b d.words := by
  cases h with
  | mk hname hcolon htype =>
    rw [Cursor.words_text hname rfl (by decide), Cursor.words_mark hcolon rfl, htype.words]
    rfl

theorem Binder.FieldAt.before (h : b.FieldAt c d) : c.Before d := by
  cases h with
  | mk hvar hname hcolon htype =>
    exact ((((Cursor.before_next hvar (by decide)).trans (Cursor.before_next hname (by decide))).trans
      (Cursor.before_next hcolon (by decide))).trans htype.before).fresh

theorem Binder.FieldAt.words (h : b.FieldAt c d) : c.words = mark .var :: (b.words ++ d.words) := by
  cases h with
  | mk hvar hname hcolon htype =>
    rw [Cursor.words_mark hvar rfl, Cursor.words_text hname rfl (by decide),
      Cursor.words_mark hcolon rfl, htype.words]
    rfl

theorem Binder.fields_words {fields : List Binder} (h : ManyAt Binder.FieldAt c fields d) :
    c.words = fields.flatMap (fun field => mark .var :: field.words) ++ d.words := by
  induction h with
  | nil => rfl
  | cons ha _ ih => simp [ha.words, ih]

theorem TypeExpr.ResultAt.reaches (h : t.ResultAt c d) : c.Reaches d := by
  cases h with
  | omitted => exact (Cursor.Reaches.refl c).fresh
  | written h hb htype =>
    have hmoves := ((Cursor.before_next h (by decide)).toMoves.trans hb.toMoves).trans htype.before.toMoves
    exact ⟨⟨hmoves.stream, hmoves.file, hmoves.index, hmoves.le, hmoves.nextId⟩, rfl⟩

theorem TypeExpr.ResultAt.reads (h : t.ResultAt c d) : t.ReadsResult c.words d.words := by
  cases h with
  | omitted => exact .omitted
  | written h hb htype =>
    have hwords := htype.words
    rw [Cursor.words, hb.stream, hb.back] at hwords
    rw [Cursor.words_mark h rfl, Cursor.words, hwords]
    exact .written

/-- The head of a function, from the word `fun` on. -/
theorem Cursor.before_signature {c d e : Cursor} {parameters : List Binder} {result : TypeExpr}
    (hfn : c.kind = .fn) (hname : c.next.kind = .identifier) (hopen : c.next.next.kind = .openParen)
    (hparameters : ItemsAt Binder.At c.next.next.next .closeParen parameters d)
    (hresult : result.ResultAt d e) : c.Before e :=
  ((((Cursor.before_next hfn (by decide)).trans (Cursor.before_next hname (by decide))).trans
    (Cursor.before_next hopen (by decide))).trans
    (hparameters.before (by decide) fun _ _ _ h => h.before)).trans_reaches hresult.reaches

theorem Visibility.At.reaches {v : Option Visibility} (h : Visibility.At v c d) : c.Reaches d := by
  match v, h with
  | none, h => exact h ▸ .refl c
  | some .pub, h => exact h.2 ▸ (Cursor.before_next h.1 (by decide)).toReaches
  | some .pvt, h => exact h.2 ▸ (Cursor.before_next h.1 (by decide)).toReaches

theorem Visibility.At.words {v : Option Visibility} (h : Visibility.At v c d) :
    c.words = Visibility.words v ++ d.words := by
  match v, h with
  | none, h => exact h ▸ rfl
  | some .pub, h => exact h.2 ▸ Cursor.words_mark h.1 rfl
  | some .pvt, h => exact h.2 ▸ Cursor.words_mark h.1 rfl

theorem Superclass.NamesAt.before {names : List Superclass} (h : NamesAt c names d) : c.Before d := by
  induction h with
  | last h => exact Cursor.before_next h (by decide)
  | more h hcomma _ ih =>
    exact ((Cursor.before_next h (by decide)).trans (Cursor.before_next hcomma (by decide))).trans ih

theorem Superclass.NamesAt.words {names : List Superclass} (h : NamesAt c names d) : names ≠ [] ∧
    c.words = Word.commaJoined (names.map fun s => [⟨.identifier, s.name⟩]) ++ d.words := by
  induction h with
  | last h => exact ⟨by simp, Cursor.words_text h rfl (by decide)⟩
  | more h hcomma _ ih =>
    obtain ⟨hne, hwords⟩ := ih
    obtain ⟨first, others, rfl⟩ := List.exists_cons_of_ne_nil hne
    rw [Cursor.words_text h rfl (by decide), Cursor.words_mark hcomma rfl, hwords]
    exact ⟨by simp, rfl⟩

theorem Superclass.AllAt.reaches {names : List Superclass} (h : AllAt c names d) : c.Reaches d := by
  cases h with
  | none => exact .refl c
  | some h hnames => exact ((Cursor.before_next h (by decide)).trans hnames.before).toReaches

theorem Superclass.AllAt.reads {names : List Superclass} (h : AllAt c names d) :
    Superclass.ReadsAll c.words names d.words := by
  cases h with
  | none => exact .none
  | some h hnames =>
    obtain ⟨hne, hwords⟩ := hnames.words
    obtain ⟨first, others, rfl⟩ := List.exists_cons_of_ne_nil hne
    rw [Cursor.words_mark h rfl, hwords]
    exact .some

end Heads

namespace Stmt

variable {c d e : Cursor} {body : List Stmt}

mutual

theorem At.before {c d : Cursor} {x : Stmt} (h : x.At c d) : c.Before d := by
  cases h with
  | block hopen hbody hclose =>
    exact (((Cursor.before_next hopen (by decide)).trans_reaches (reaches_all hbody)).trans
      (Cursor.before_next hclose (by decide))).fresh
  | «variable» hvar hname hcolon htype h hvalue =>
    have hhead := ((Cursor.before_next hvar (by decide)).trans (Cursor.before_next hname (by decide))).trans
      (Cursor.before_next hcolon (by decide))
    exact (((hhead.trans htype.before).trans (Cursor.before_next h (by decide))).trans
      hvalue.before).fresh
  | field h => exact h.before
  | function hvisibility hfn hname hopen hparameters hresult hbegin hbody hend =>
    have hfront := hvisibility.reaches.trans_before
      (Cursor.before_signature hfn hname hopen hparameters hresult)
    exact (((hfront.trans (Cursor.before_next hbegin (by decide))).trans_reaches
      (reaches_all hbody)).trans (Cursor.before_next hend (by decide))).fresh.fresh
  | struct h hname hopen hfields hclose =>
    have hhead := ((Cursor.before_next h (by decide)).trans (Cursor.before_next hname (by decide))).trans
      (Cursor.before_next hopen (by decide))
    exact ((hhead.trans_reaches (hfields.reaches fun _ _ _ h => h.before)).trans
      (Cursor.before_next hclose (by decide))).fresh
  | cls hvisibility hcls hname hsuperclasses hbegin hbody hend =>
    have hhead := ((hvisibility.reaches.trans_before (Cursor.before_next hcls (by decide))).trans
      (Cursor.before_next hname (by decide))).trans_reaches hsuperclasses.reaches
    exact (((hhead.trans (Cursor.before_next hbegin (by decide))).trans_reaches
      (reaches_all hbody)).trans (Cursor.before_next hend (by decide))).fresh.fresh
  | template h hless htypes hfn hname hopen hparameters hresult hbegin hbody hend =>
    have htypes := ((Cursor.before_next h (by decide)).trans (Cursor.before_next hless (by decide))).trans
      (htypes.before (by decide) fun _ _ _ h => h.before)
    have hfront := htypes.trans (Cursor.before_signature hfn hname hopen hparameters hresult)
    exact (((hfront.trans (Cursor.before_next hbegin (by decide))).trans_reaches
      (reaches_all hbody)).trans (Cursor.before_next hend (by decide))).fresh.fresh
  | ifThen h hcondition hthen =>
    exact (((Cursor.before_next h (by decide)).trans hcondition.before).trans hthen.before).fresh
  | ifElse h hcondition hthen hword helse =>
    exact (((((Cursor.before_next h (by decide)).trans hcondition.before).trans hthen.before).trans
      (Cursor.before_next hword (by decide))).trans helse.before).fresh
  | loop h hcondition hbody =>
    exact (((Cursor.before_next h (by decide)).trans hcondition.before).trans hbody.before).fresh
  | ret h => exact (Cursor.before_next h (by decide)).fresh
  | retValue h hvalue => exact ((Cursor.before_next h (by decide)).trans hvalue.before).fresh
  | action hexpr => exact hexpr.before.fresh

theorem reaches_all {c d : Cursor} {body : List Stmt} (h : ManyAt Stmt.At c body d) : c.Reaches d := by
  cases h with
  | nil => exact .refl c
  | cons ha hitems => exact ha.before.toReaches.trans (reaches_all hitems)

end

mutual

/-- The words of the tokens are derived from the grammar. -/
theorem At.reads {c d : Cursor} {x : Stmt} (h : x.At c d) : x.Reads c.words d.words := by
  cases h with
  | block hopen hbody hclose =>
    rw [Cursor.words_mark hopen rfl]
    exact .block (reads_all hbody (Cursor.words_mark hclose rfl))
  | @«variable» _ _ _ type _ hvar hname hcolon htype h hvalue =>
    rw [Cursor.words_mark hvar rfl, Cursor.words_text hname rfl (by decide),
      Cursor.words_mark hcolon rfl, htype.words, Cursor.words_mark h rfl]
    exact @Stmt.Reads.variable ⟨_, _, type⟩ _ _ _ hvalue.reads
  | field h =>
    rw [h.words]
    exact .field
  | @function _ _ _ _ _ visibility parameters result _ hvisibility hfn hname hopen hparameters hresult
      hbegin hbody hend =>
    have hreads := hresult.reads
    rw [Cursor.words_mark hbegin rfl] at hreads
    rw [hvisibility.words, Cursor.words_mark hfn rfl, Cursor.words_text hname rfl (by decide),
      Cursor.words_mark hopen rfl]
    exact @Stmt.Reads.function _ _ ⟨visibility, _, parameters, result⟩ _ _ _ _ _
      (hparameters.reads rfl fun _ _ _ h => h.reads) hreads (reads_all hbody (Cursor.words_mark hend rfl))
  | struct h hname hopen hfields hclose =>
    rw [Cursor.words_mark h rfl, Cursor.words_text hname rfl (by decide), Cursor.words_mark hopen rfl,
      Binder.fields_words hfields, Cursor.words_mark hclose rfl]
    exact .struct
  | @cls _ _ _ _ visibility superclasses _ hvisibility hcls hname hsuperclasses hbegin hbody hend =>
    have hreads := hsuperclasses.reads
    rw [Cursor.words_mark hbegin rfl] at hreads
    rw [hvisibility.words, Cursor.words_mark hcls rfl, Cursor.words_text hname rfl (by decide)]
    exact @Stmt.Reads.cls _ _ ⟨visibility, _, superclasses⟩ _ _ _ _ hreads (reads_all hbody (Cursor.words_mark hend rfl))
  | @template _ _ _ _ _ typeParameters parameters result _ h hless htypes hfn hname hopen hparameters
      hresult hbegin hbody hend =>
    have hreads := hresult.reads
    have hitems := htypes.reads (S := Binder.Reads) rfl fun _ _ _ h => h.reads
    rw [Cursor.words_mark hbegin rfl] at hreads
    rw [Cursor.words_mark hfn rfl, Cursor.words_text hname rfl (by decide),
      Cursor.words_mark hopen rfl] at hitems
    rw [Cursor.words_mark h rfl, Cursor.words_mark hless rfl]
    exact @Stmt.Reads.template _ _ ⟨typeParameters, _, parameters, result⟩ _ _ _ _ _ _ hitems
      (hparameters.reads rfl fun _ _ _ h => h.reads) hreads (reads_all hbody (Cursor.words_mark hend rfl))
  | ifThen h hcondition hthen =>
    rw [Cursor.words_mark h rfl]
    exact .ifThen hcondition.reads hthen.reads
  | ifElse h hcondition hthen hword helse =>
    have hreads := hthen.reads
    rw [Cursor.words_mark hword rfl] at hreads
    rw [Cursor.words_mark h rfl]
    exact .ifElse hcondition.reads hreads helse.reads
  | loop h hcondition hbody =>
    rw [Cursor.words_mark h rfl]
    exact .loop hcondition.reads hbody.reads
  | ret h =>
    rw [Cursor.words_mark h rfl]
    exact .ret
  | retValue h hvalue =>
    rw [Cursor.words_mark h rfl]
    exact .retValue hvalue.reads
  | action hexpr haction => exact .action hexpr.reads haction

/-- The words of statements in front of the words behind them. -/
theorem reads_all {c d : Cursor} {body : List Stmt} {ws : List Word} (h : ManyAt Stmt.At c body d)
    (hd : d.words = ws) : Many Stmt.Reads c.words body ws := by
  cases h with
  | nil => exact hd ▸ .nil
  | cons ha hitems => exact .cons ha.reads (reads_all hitems hd)

end

end Stmt

inductive Block.At : Cursor → Block → Cursor → Prop
  | mk {c d : Cursor} {body : List Stmt} (hopen : c.kind = .openCurly)
    (hbody : ManyAt Stmt.At c.next body d) (hclose : d.kind = .closeCurly) :
    Block.At c ⟨c.cover d.next, body⟩ d.next.fresh

theorem Block.At.before {b : Block} {c d : Cursor} (h : b.At c d) : c.Before d := by
  cases h with
  | mk hopen hbody hclose => exact (Stmt.At.block hopen hbody hclose).before

theorem Block.At.reads {b : Block} {c d : Cursor} (h : b.At c d) : ∃ inside,
    c.words = mark .openCurly :: inside ∧ Many Stmt.Reads inside b.body (mark .closeCurly :: d.words) := by
  cases h with
  | mk hopen hbody hclose =>
    exact ⟨_, Cursor.words_mark hopen rfl, Stmt.reads_all hbody (Cursor.words_mark hclose rfl)⟩

namespace Parser

variable {w : Region} {E : Prop} {expr : Power → Parser Expr} {stmt : Parser Stmt} {c c₀ : Cursor}

section Heads

theorem runs_binder : Runs w E binder c fun b d => b.At c d := by
  refine runs_expect fun hname => runs_discard (runs_expect fun hcolon => ?_)
  exact runs_typeExpr.bind fun type d htype => runs_nodeFrom (runs_pure (.mk hname hcolon htype))

theorem runs_structField : Runs w E structField c fun b d => b.FieldAt c d := by
  refine runs_expect fun hvar => runs_expect fun hname => runs_discard (runs_expect fun hcolon => ?_)
  exact runs_typeExpr.bind fun type d htype => runs_nodeFrom (runs_pure (.mk hvar hname hcolon htype))

theorem runs_binders (close : TokenKind) :
    Runs w E (commaSeparated close binder) c fun bs d => ItemsAt Binder.At c close bs d :=
  runs_commaSeparated (fun _ _ => runs_binder.mono id fun _ _ h => ⟨h, h.before⟩) fun _ _ h => h

theorem runs_moveTo {i : Nat} {β : Type} {f : PUnit → Parser β} {Q : β → Cursor → Prop}
    (hi : i ≤ w.limit) (h : Runs w E (f ⟨⟩) { c with index := i } Q) : Runs w E (moveTo i >>= f) c Q :=
  fun hc => h ⟨hc.stream, hi⟩

theorem runs_withoutSetSuffix {α : Type} {m : Parser α} {Q : α → Cursor → Prop}
    (h : Runs w E m { c with setSuffix := false } fun a d => Q a { d with setSuffix := c.setSuffix }) :
    Runs w E (withoutSetSuffix m) c Q := by
  intro hc
  have hend := h ⟨hc.stream, hc.le⟩
  simp only [withoutSetSuffix]
  generalize m { c with setSuffix := false } = r at hend ⊢
  cases hend with
  | ok hd h => exact .ok ⟨hd.stream, hd.le⟩ h
  | rejected hd h => exact .rejected ⟨hd.stream, hd.le⟩ h
  | exhausted h => exact .exhausted h

/-- A result type that is read again is read from the same place. -/
theorem runs_resultType : Runs w E resultType c fun t d => t.ResultAt c d := by
  refine runs_kind ?_
  split
  next h => exact runs_get (runs_nodeAt (runs_pure (.omitted h)))
  next h =>
    have hcolon := not_not.1 h
    have hnext := Cursor.before_next hcolon (by decide)
    refine runs_discard (runs_advance (runs_in fun hc => runs_get ?_))
    refine runs_typeExpr.bind fun type d htype => runs_kind ?_
    have hset : d.setSuffix = c.setSuffix := htype.before.setSuffix.trans hnext.setSuffix
    split
    · refine runs_pure ?_
      have hresult := TypeExpr.ResultAt.written hcolon ⟨.refl _, rfl⟩ htype
      rwa [← hset] at hresult
    · refine runs_moveTo hc.le (runs_withoutSetSuffix (runs_typeExpr.mono id fun t e ht => ?_))
      have hagain : c.next.Again { d with index := c.next.index, setSuffix := false } :=
        ⟨⟨htype.before.stream, htype.before.file, Nat.le_refl _, Nat.le_max_left .., htype.before.nextId⟩,
          rfl⟩
      have hresult := TypeExpr.ResultAt.written hcolon hagain ht
      rwa [← hset] at hresult

/-- The class names found so far, at the cursor behind them. -/
def NamesTo (c : Cursor) (found : List Superclass) (d : Cursor) : Prop :=
  ∀ more e, Superclass.NamesAt d more e → Superclass.NamesAt c (found.reverse ++ more) e

theorem runs_superclassStep {found : List Superclass} (h : NamesTo c₀ found c) :
    Runs w E (superclassStep found) c fun r d => r.elim (fun more => NamesTo c₀ more d ∧ c.Before d)
      fun all => Superclass.NamesAt c₀ all d := by
  refine runs_expect fun hname => runs_kind ?_
  split
  next => exact runs_pure (by simpa using h _ _ (.last hname))
  next hcomma =>
    have hcomma := not_not.1 hcomma
    have hpast := (Cursor.before_next hname (by decide)).trans (Cursor.before_next hcomma (by decide))
    refine runs_discard (runs_advance (runs_pure ⟨fun more e hmore => ?_, hpast⟩))
    simpa using h _ _ (.more hname hcomma hmore)

theorem runs_superclasses : Runs w E superclasses c fun names d => Superclass.AllAt c names d := by
  refine runs_kind ?_
  split
  next => exact runs_pure .none
  next hfrom =>
    refine runs_discard (runs_advance ?_)
    refine Runs.mono (runs_iterate (fun found d hd => runs_superclassStep hd) fun _ _ h => h) id ?_
    exact fun names d hnames => .some (not_not.1 hfrom) hnames

theorem runs_struct (h : c.kind = .struct) : Runs w E struct c fun x d => x.At c d := by
  refine runs_advance (runs_expect fun hname => runs_discard (runs_expect fun hopen => ?_))
  have hloop : Runs w E (iterate structStep []) c.next.next.next fun fields d =>
      ManyAt Binder.FieldAt c.next.next.next fields d := by
    refine runs_iterate (I := fun fields d => ManyAt Binder.FieldAt c.next.next.next fields.reverse d)
      (fun fields d hd => runs_kind ?_) .nil
    split
    next => exact runs_pure hd
    next =>
      refine runs_structField.bind fun field e hfield => runs_pure ⟨?_, hfield.before⟩
      simpa using hd.snoc hfield
  refine hloop.bind fun fields d hfields => runs_discard (runs_expect fun hclose => ?_)
  exact runs_nodeFrom (runs_pure (.struct h hname hopen hfields hclose))

end Heads

def StmtsBehind (w : Region) (E : Prop) (stmt : Parser Stmt) (c : Cursor) : Prop :=
  ∀ d, c.Before d → Runs w E stmt d fun x e => x.At d e

/-- From a cursor on the parser reads expressions of the lowest power. -/
def ExprsFrom (w : Region) (E : Prop) (expr : Power → Parser Expr) (c : Cursor) : Prop :=
  ∀ d, c.Reaches d → Runs w E (expr .lowest) d fun e d' => e.At d d'

section Statements

theorem runs_blockOf (hstmt : StmtsBehind w E stmt c₀) (hc : c₀.Reaches c) :
    Runs w E (blockOf stmt) c fun b d => b.At c d := by
  refine runs_expect fun hopen => ?_
  have hnext := hc.trans_before (Cursor.before_next hopen (by decide))
  have hloop : Runs w E (iterate (blockStep stmt) []) c.next fun body d =>
      ManyAt Stmt.At c.next body d := by
    refine runs_iterate (I := fun body d => ManyAt Stmt.At c.next body.reverse d)
      (fun body d hd => runs_kind ?_) .nil
    split
    next => exact runs_pure hd
    next => exact runs_unexpectedBecause _
    next =>
      refine (hstmt d (hnext.trans_reaches (Stmt.reaches_all hd))).bind fun x e hx =>
        runs_pure ⟨?_, hx.before⟩
      simpa using hd.snoc hx
  refine hloop.bind fun body d hbody => runs_discard (runs_expect fun hclose => ?_)
  exact runs_nodeFrom (runs_pure (.mk hopen hbody hclose))

/-- What functions and templates have in common: a name, parameters, a result type and a block. -/
theorem runs_signature (hstmt : StmtsBehind w E stmt c₀) (hc : c₀.Reaches c)
    {f : Token → List Binder → TypeExpr → Block → Parser Stmt} {Q : Stmt → Cursor → Prop}
    (h : ∀ parameters d result e body g, c.kind = .fn → c.next.kind = .identifier →
      c.next.next.kind = .openParen → ItemsAt Binder.At c.next.next.next .closeParen parameters d →
      result.ResultAt d e → e.kind = .openCurly → ManyAt Stmt.At e.next body g → g.kind = .closeCurly →
      Runs w E (f c.next.current parameters result ⟨e.cover g.next, body⟩) g.next.fresh Q) :
    Runs w E (do
      discard (expect .fn)
      let name ← expect .identifier
      let parameters ← parameters
      let result ← resultType
      let body ← blockOf stmt
      f name parameters result body) c Q := by
  refine runs_discard (runs_expect fun hfn => runs_expect fun hname => ?_)
  have hparameters : Runs w E parameters c.next.next fun bs d => c.next.next.kind = .openParen ∧
      ItemsAt Binder.At c.next.next.next .closeParen bs d :=
    runs_discard (runs_expect fun hopen => (runs_binders _).mono id fun _ _ h => ⟨hopen, h⟩)
  refine hparameters.bind ?_
  rintro parameters d ⟨hopen, hparameters⟩
  refine runs_resultType.bind fun result e hresult => ?_
  have hfront := hc.trans_before (Cursor.before_signature hfn hname hopen hparameters hresult)
  refine (runs_blockOf hstmt hfront.toReaches).bind ?_
  rintro _ _ ⟨hbegin, hbody, hend⟩
  exact h _ _ _ _ _ _ hfn hname hopen hparameters hresult hbegin hbody hend

theorem runs_function (hstmt : StmtsBehind w E stmt c₀) {visibility : Option Visibility}
    (h : Visibility.At visibility c₀ c) :
    Runs w E (function stmt visibility c₀.position) c fun x d => x.At c₀ d := by
  refine runs_signature hstmt h.reaches ?_
  intro parameters d result e body g hfn hname hopen hparameters hresult hbegin hbody hend
  exact runs_nodeFrom (runs_pure (.function h hfn hname hopen hparameters hresult hbegin hbody hend))

theorem runs_cls (hstmt : StmtsBehind w E stmt c₀) {visibility : Option Visibility}
    (h : Visibility.At visibility c₀ c) :
    Runs w E (cls stmt visibility c₀.position) c fun x d => x.At c₀ d := by
  refine runs_discard (runs_expect fun hcls => runs_expect fun hname => ?_)
  refine runs_superclasses.bind fun superclasses d hsuperclasses => ?_
  have hhead := ((h.reaches.trans_before (Cursor.before_next hcls (by decide))).trans
    (Cursor.before_next hname (by decide))).trans_reaches hsuperclasses.reaches
  refine (runs_blockOf hstmt hhead.toReaches).bind ?_
  rintro _ _ ⟨hbegin, hbody, hend⟩
  exact runs_nodeFrom (runs_pure (.cls h hcls hname hsuperclasses hbegin hbody hend))

theorem runs_marked (hstmt : StmtsBehind w E stmt c) {visibility : Visibility}
    (h : Visibility.At (some visibility) c c.next) :
    Runs w E (marked stmt visibility) c fun x d => x.At c d := by
  refine runs_advance (runs_kind ?_)
  split
  next => exact runs_function hstmt h
  next => exact runs_cls hstmt h
  next => exact runs_unexpectedBecause _

theorem runs_template (hstmt : StmtsBehind w E stmt c) (h : c.kind = .template) :
    Runs w E (template stmt) c fun x d => x.At c d := by
  refine runs_advance (runs_discard (runs_expect fun hless => ?_))
  refine (runs_binders _).bind fun typeParameters d htypes => ?_
  have hfront := ((Cursor.before_next h (by decide)).trans (Cursor.before_next hless (by decide))).trans
    (htypes.before (by decide) fun _ _ _ h => h.before)
  refine runs_signature hstmt hfront.toReaches ?_
  intro parameters e result f body g hfn hname hopen hparameters hresult hbegin hbody hend
  exact runs_nodeFrom
    (runs_pure (.template h hless htypes hfn hname hopen hparameters hresult hbegin hbody hend))

theorem runs_variableOrField (hexpr : ExprsFrom w E expr c) (h : c.kind = .var) :
    Runs w E (variableOrField expr) c fun x d => x.At c d := by
  refine runs_advance (runs_expectOr rfl fun hname => runs_discard (runs_expect fun hcolon => ?_))
  refine runs_typeExpr.bind fun type d htype => runs_kind ?_
  split
  next => exact runs_nodeFrom (runs_pure (.field (.mk h hname hcolon htype)))
  next hassign =>
    have hassign := not_not.1 hassign
    have hfront := ((((Cursor.before_next h (by decide)).trans (Cursor.before_next hname (by decide))).trans
      (Cursor.before_next hcolon (by decide))).trans htype.before).trans
      (Cursor.before_next hassign (by decide))
    refine runs_discard (runs_advance ((hexpr _ hfront.toReaches).bind fun value e hvalue => ?_))
    exact runs_nodeFrom (runs_pure (.variable h hname hcolon htype hassign hvalue))

theorem runs_conditional (hexpr : ExprsFrom w E expr c) (hstmt : StmtsBehind w E stmt c)
    (h : c.kind = .ifWord) : Runs w E (conditional expr stmt) c fun x d => x.At c d := by
  have hnext := Cursor.before_next h (by decide)
  refine runs_advance ((hexpr _ hnext.toReaches).bind fun condition d hcondition => ?_)
  have hfront := hnext.trans hcondition.before
  refine (hstmt d hfront).bind fun thenBody e hthen => runs_kind ?_
  split
  next => exact runs_nodeFrom (runs_pure (.ifThen h hcondition hthen))
  next hword =>
    have hword := not_not.1 hword
    have hother := (hfront.trans hthen.before).trans (Cursor.before_next hword (by decide))
    refine runs_discard (runs_advance ((hstmt _ hother).bind fun elseBody f helse => ?_))
    exact runs_nodeFrom (runs_pure (.ifElse h hcondition hthen hword helse))

theorem runs_loop (hexpr : ExprsFrom w E expr c) (hstmt : StmtsBehind w E stmt c)
    (h : c.kind = .whileWord) : Runs w E (loop expr stmt) c fun x d => x.At c d := by
  have hnext := Cursor.before_next h (by decide)
  refine runs_advance ((hexpr _ hnext.toReaches).bind fun condition d hcondition => ?_)
  refine (hstmt d (hnext.trans hcondition.before)).bind fun body e hbody => ?_
  exact runs_nodeFrom (runs_pure (.loop h hcondition hbody))

theorem runs_ret (hexpr : ExprsFrom w E expr c) (h : c.kind = .returnWord) :
    Runs w E (ret expr) c fun x d => x.At c d := by
  refine runs_advance (runs_kind ?_)
  split
  next =>
    have hnext := Cursor.before_next h (by decide)
    refine (hexpr _ hnext.toReaches).bind fun value d hvalue => ?_
    exact runs_nodeFrom (runs_pure (.retValue h hvalue))
  next => exact runs_nodeFrom (runs_pure (.ret h))

theorem runs_action (hexpr : ExprsFrom w E expr c) :
    Runs w E (action expr) c fun x d => x.At c d := by
  refine runs_in fun hc => runs_get ((hexpr c (.refl c)).bind fun e d he => ?_)
  split
  · exact runs_fail (runs_reject hc.marks)
  next haction =>
    refine runs_nodeAt (runs_pure ?_)
    rw [he.span]
    exact .action he (by simpa using haction)

theorem runs_statement (hexpr : ExprsFrom w E expr c) (hstmt : StmtsBehind w E stmt c) :
    Runs w E (statement expr stmt) c fun x d => x.At c d := by
  refine runs_kind ?_
  split
  next =>
    refine (runs_blockOf hstmt (.refl c)).bind ?_
    rintro _ _ ⟨hopen, hbody, hclose⟩
    exact runs_pure (.block hopen hbody hclose)
  next h => exact runs_variableOrField hexpr h
  next => exact runs_get (runs_function hstmt rfl)
  next => exact runs_get (runs_cls hstmt rfl)
  next h => exact runs_marked hstmt ⟨h, rfl⟩
  next h => exact runs_marked hstmt ⟨h, rfl⟩
  next h => exact runs_struct h
  next h => exact runs_template hstmt h
  next h => exact runs_conditional hexpr hstmt h
  next h => exact runs_loop hexpr hstmt h
  next h => exact runs_ret hexpr h
  next => exact runs_action hexpr

/-- A statement that is read is derived from the grammar, and more depth than tokens is enough. -/
theorem runs_stmtWithin (depth : Nat) (c : Cursor) :
    Runs w (c.remaining < depth) (stmtWithin depth) c fun x d => x.At c d := by
  induction depth generalizing c with
  | zero => exact runs_exhausted (Nat.not_lt_zero _)
  | succ depth ih =>
    refine runs_statement (fun d hd => ?_) fun d hd => ?_
    · refine (runs_exprWithin (depth + 1) .lowest d).mono (fun hlt => ?_) fun _ _ h => h.read
      exact Nat.lt_of_le_of_lt hd.remaining_le hlt
    · refine (ih d).mono (fun hlt => ?_) fun _ _ h => h
      have := hd.remaining_lt
      omega

theorem runs_stmt (c : Cursor) : Runs w True Parser.stmt c fun x d => x.At c d :=
  runs_get ((runs_stmtWithin _ c).mono (fun _ => Nat.lt_succ_self _) fun _ _ h => h)

theorem runs_block (c : Cursor) : Runs w True Parser.block c fun b d => b.At c d := by
  refine runs_get (runs_blockOf (fun d hd => ?_) (.refl c))
  refine (runs_stmtWithin _ d).mono (fun _ => ?_) fun _ _ h => h
  exact Nat.lt_succ_of_lt hd.remaining_lt

/-- A program is read to the end of the text. Its node has the first number and covers the text up to
there. -/
theorem runs_program (c : Cursor) : Runs w True Parser.program c fun p d =>
    ManyAt Stmt.At c.fresh p.body d ∧ d.kind = .eof ∧
      p.node = ⟨⟨c.nextId⟩, ⟨.origin c.file, d.lastEnd⟩⟩ := by
  have hloop : Runs w True (iterate programStep []) c.fresh fun body d =>
      ManyAt Stmt.At c.fresh body d ∧ d.kind = .eof := by
    refine runs_iterate (I := fun body d => ManyAt Stmt.At c.fresh body.reverse d)
      (fun body d hd => runs_kind ?_) .nil
    split
    next hend => exact runs_pure ⟨hd, hend⟩
    next =>
      refine (runs_stmt d).bind fun x e hx => runs_pure ⟨?_, hx.before⟩
      simpa using hd.snoc hx
  refine fun hc => (hloop.bind ?_ : Runs w True _ c.fresh _) ⟨hc.stream, hc.le⟩
  rintro body d ⟨hbody, hend⟩
  refine runs_get (runs_pure ⟨hbody, hend, ?_⟩)
  rw [(Stmt.reaches_all hbody).file]
  rfl

end Statements

end Parser

/-- A program that is read is derived from its tokens up to one that ends the text. -/
theorem Program.located_of_parse {tokens : List Token} {file : String} {p : Program} {c : Cursor}
    (h : Program.parse tokens file = .ok p c) :
    ManyAt Stmt.At (Cursor.start tokens file).fresh p.body c ∧ c.kind = .eof ∧
      p.node = ⟨⟨0⟩, ⟨.origin file, c.lastEnd⟩⟩ :=
  (Parser.runs_program (Cursor.start tokens file)).of_ok h

/-- Tokens that are rejected are rejected at one of them, or at the end that closes them. -/
theorem Program.marks_of_rejected {tokens : List Token} {file : String} {d : Diagnostic} {c : Cursor}
    (h : Program.parse tokens file = .error (.rejected d) c) :
    (TokenStream.ofList tokens file).Marks d.span.start := by
  have hend := Parser.runs_program (Cursor.start tokens file) (Cursor.in_region _)
  rw [show Parser.program _ = _ from h] at hend
  cases hend with
  | rejected _ hmarks => exact hmarks

/-- The value of the token is the spelling of its kind, if there is only one. -/
def Token.Fits (t : Token) : Prop := ∀ spelling, t.kind.spelling? = some spelling → t.value = spelling

/-- The words of tokens whose values fit are their kinds and values. -/
theorem Token.words_of_fits {tokens : List Token} (h : ∀ t ∈ tokens, t.Fits) :
    Token.words tokens = (tokens.takeWhile (·.kind ≠ .eof)).map fun t => ⟨t.kind, t.value⟩ := by
  refine List.map_congr_left ?_
  intro t ht
  have hfits := h t ((List.takeWhile_prefix _).subset ht)
  cases hs : t.kind.spelling? with
  | none => exact Token.word_eq hs
  | some spelling => simp [Token.word, hs, hfits spelling hs]

/-- A program that is read is the tree of a derivation of its tokens up to the first that ends the
text: each word is read once and in order. Where the values of tokens fit their kinds, the words are
the kinds and values of the tokens. -/
theorem Program.reads_of_parse {tokens : List Token} {file : String} {p : Program} {c : Cursor}
    (h : Program.parse tokens file = .ok p c) :
    Many Stmt.Reads (Token.words tokens) p.body [] ∧
      ((∀ t ∈ tokens, t.Fits) → Token.words tokens =
        (tokens.takeWhile (·.kind ≠ .eof)).map fun t => ⟨t.kind, t.value⟩) := by
  constructor
  · obtain ⟨hbody, hend, _⟩ := Program.located_of_parse h
    have hreads := Stmt.reads_all hbody (Cursor.words_eq_nil hend)
    rw [← Cursor.words_start tokens file]
    exact hreads
  · exact Token.words_of_fits

def Program.reads (file text : String) (test : Program → Bool) : Bool :=
  match Token.tokenize text file with
  | .error _ => false
  | .ok tokens =>
    match parse tokens file with
    | .error _ _ => false
    | .ok p _ => test p

theorem Program.exists_of_reads (file text : String) (test : Program → Bool)
    (h : reads file text test = true) :
    ∃ tokens p c, Token.tokenize text file = .ok tokens ∧ parse tokens file = .ok p c ∧
      test p = true := by
  unfold reads at h
  split at h
  · cases h
  · next tokens htokens =>
    split at h
    · cases h
    · next p c hparse => exact ⟨tokens, p, c, htokens, hparse, h⟩

/-- A program whose first result type is read again, because no body follows `Int {}`, and whose
lists end in commas. -/
theorem Program.reads_of_parse_again :
    ∃ tokens p c, Token.tokenize "fun f(x: Int,): Int \x7b\x7d x = f(-1, [2,],)" "main" = .ok tokens ∧
      Program.parse tokens "main" = .ok p c ∧ p.body.length = 2 ∧
        Many Stmt.Reads (Token.words tokens) p.body [] := by
  obtain ⟨tokens, p, c, htokens, hparse, hlength⟩ := Program.exists_of_reads "main"
    "fun f(x: Int,): Int \x7b\x7d x = f(-1, [2,],)" (fun p => p.body.length = 2) (by decide +kernel)
  exact ⟨tokens, p, c, htokens, hparse, of_decide_eq_true hlength,
    (Program.reads_of_parse hparse).1⟩

end ScriptAnalysis
