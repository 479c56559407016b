import ScriptAnalysis.Proofs.Grammar.ExprSound

/-!
The words that an expression is written as when no comma stands behind the last item of a list and
numbers have no spare signs: `Expr.words`. The grammar derives an expression from these words as soon
as it derives it from any: `Expr.Reads.canonical`. Fewer words behind a sign `<` never make type
arguments out of what was none.
-/
namespace ScriptAnalysis

open Word (mark)

def Word.ofInt (value : Int) : List Word :=
  if value < 0 then [mark .dash, ⟨.number, toString value.natAbs⟩]
  else [⟨.number, toString value.natAbs⟩]

namespace Expr

mutual

def words : Expr → List Word
  | .int _ value => Word.ofInt value
  | .float _ value => [⟨.number, value.render⟩]
  | .string _ value => [⟨.string, value⟩]
  | .symbol ref => [⟨.identifier, ref.name⟩]
  | .paren _ inner => mark .openParen :: (inner.words ++ [mark .closeParen])
  | .literal _ c elements =>
    mark c.opening :: (Word.commaJoined (wordsAll elements) ++ [mark c.closing])
  | .not _ operand => mark .not :: operand.words
  | .binary _ op left right => left.words ++ mark op.kind :: right.words
  | .assign _ target value => target.words ++ mark .assignment :: value.words
  | .call _ callee arguments => callee.words ++
      mark .openParen :: (Word.commaJoined (wordsAll arguments) ++ [mark .closeParen])
  | .templateCall _ callee types arguments => callee.words ++ mark .less ::
      (Word.commaJoined (types.map TypeExpr.words) ++ mark .greater ::
        mark .openParen :: (Word.commaJoined (wordsAll arguments) ++ [mark .closeParen]))
  | .index _ base position =>
    base.words ++ mark .openBracket :: (position.words ++ [mark .closeBracket])
  | .member _ c stem name => stem.words ++ [mark c.accessKind, ⟨.identifier, name⟩]
  | .construct _ c ref => [mark c.constructorKind, ⟨.identifier, ref.name⟩]

def wordsAll : List Expr → List (List Word)
  | [] => []
  | e :: others => e.words :: wordsAll others

end

/-- A character that a string literal shows or writes as one of the short escapes. -/
def isPlainChar (c : Char) : Bool :=
  (' ' ≤ c && c ≤ '~') || c = '\t' || c = '\r' || c = '\n'

mutual

/-- Whether an expression has no decimal, and only plain characters in its strings. -/
def isPlain : Expr → Bool
  | .int _ _ | .symbol _ | .construct _ _ _ => true
  | .float _ _ => false
  | .string _ value => value.toList.all isPlainChar
  | .paren _ inner => inner.isPlain
  | .literal _ _ elements => areAllPlain elements
  | .not _ operand => operand.isPlain
  | .binary _ _ left right => left.isPlain && right.isPlain
  | .assign _ target value => target.isPlain && value.isPlain
  | .call _ callee arguments => callee.isPlain && areAllPlain arguments
  | .templateCall _ callee _ arguments => callee.isPlain && areAllPlain arguments
  | .index _ base position => base.isPlain && position.isPlain
  | .member _ _ stem _ => stem.isPlain

/-- Whether expressions have no decimal, and only plain characters in their strings. -/
def areAllPlain : List Expr → Bool
  | [] => true
  | e :: others => e.isPlain && areAllPlain others

end

end Expr

section Lookahead

variable {after rest : List Word} {w v : Word}

/-- The stage lies between brackets or braces, which have to be closed at once. -/
def TypeArgumentStage.IsInside (stage : TypeArgumentStage) : Prop :=
  stage = .insideBrackets ∨ stage = .insideBraces

/-- Words that go on as type arguments only if the others do, at every stage. -/
def CoversAll (after rest : List Word) : Prop :=
  ∀ stage : TypeArgumentStage, stage.accepts (after.map Word.kind) →
    stage.accepts (rest.map Word.kind)

/-- Words that go on as type arguments only if the others do, at every stage outside of brackets and
braces. -/
def Covers (after rest : List Word) : Prop :=
  ∀ stage : TypeArgumentStage, ¬ stage.IsInside → stage.accepts (after.map Word.kind) →
    stage.accepts (rest.map Word.kind)

theorem CoversAll.covers (h : CoversAll after rest) : Covers after rest := fun stage _ => h stage

theorem covers_nil (rest : List Word) : Covers [] rest := by
  intro stage _ h
  cases stage <;> cases h

theorem coversAll_cons
    (h : ∀ stage stage', TypeArgumentStage.next? stage w.kind = some stage' →
      stage'.accepts (after.map Word.kind) → stage'.accepts (rest.map Word.kind)) :
    CoversAll (w :: after) (w :: rest) := by
  intro stage haccepts
  by_cases hclose : stage = .close
  · subst hclose
    exact haccepts
  · rw [List.map_cons, TypeArgumentStage.accepts_cons hclose] at haccepts ⊢
    cases hnext : stage.next? w.kind with
    | none => simp [hnext] at haccepts
    | some stage' =>
      rw [hnext] at haccepts
      exact h stage stage' hnext haccepts

theorem CoversAll.cons (h : CoversAll after rest) (w : Word) :
    CoversAll (w :: after) (w :: rest) :=
  coversAll_cons fun _ stage' _ => h stage'

/-- The same word before both, if it opens nothing. -/
theorem Covers.cons (h : Covers after rest) (hbracket : w.kind ≠ .openBracket)
    (hbrace : w.kind ≠ .openCurly) : CoversAll (w :: after) (w :: rest) := by
  refine coversAll_cons fun stage stage' hnext => h stage' ?_
  unfold TypeArgumentStage.next? at hnext
  split at hnext <;> cases hnext <;> simp_all [TypeArgumentStage.IsInside]

/-- A word that no type arguments hold. -/
theorem coversAll_of_blocks
    (hw : ∀ stage kinds, TypeArgumentStage.accepts stage (w.kind :: kinds) = false) :
    CoversAll (w :: after) rest := by
  intro stage haccepts
  rw [List.map_cons, hw] at haccepts
  cases haccepts

theorem covers_less (after rest : List Word) : Covers (mark .less :: after) rest :=
  (coversAll_of_blocks fun stage _ => by cases stage <;> rfl).covers

theorem covers_accessKind (c : Composite) (after rest : List Word) :
    Covers (mark c.accessKind :: after) rest :=
  (coversAll_of_blocks fun stage _ => by cases c <;> cases stage <;> rfl).covers

/-- Behind an opening parenthesis nothing matters. -/
theorem coversAll_openParen (after rest : List Word) :
    CoversAll (mark .openParen :: after) (mark .openParen :: rest) := by
  intro stage haccepts
  cases stage <;> cases haccepts
  rfl

theorem Covers.closing (h : Covers after rest) {close : TokenKind}
    (hclose : close = .closeParen ∨ close = .closeBracket ∨ close = .closeCurly) :
    CoversAll (mark close :: after) (mark close :: rest) := by
  rcases hclose with rfl | rfl | rfl <;> exact h.cons (by simp) (by simp)

/-- A comma behind the last item changes nothing. -/
theorem covers_comma {close : TokenKind}
    (hclose : close = .closeParen ∨ close = .closeBracket ∨ close = .closeCurly) :
    Covers (mark close :: after) (mark .comma :: mark close :: rest) := by
  intro stage hinside haccepts
  rcases hclose with rfl | rfl | rfl <;> cases stage <;>
    first | cases haccepts | exact absurd (by simp [TypeArgumentStage.IsInside]) hinside

end Lookahead

section Canonical

theorem Container.closing_cases (c : Container) :
    c.closing = .closeParen ∨ c.closing = .closeBracket ∨ c.closing = .closeCurly := by
  cases c <;> simp [Container.closing]

/-- The items of a list and their closing word, without a comma behind the last. -/
def Word.closed (parts : List (List Word)) (close : TokenKind) (after : List Word) : List Word :=
  Word.commaJoined parts ++ mark close :: after

mutual

/-- The words of an expression go on as type arguments only if the words it is read from do. -/
theorem Expr.Reads.coversAll {input rest after : List Word} {e : Expr} (h : e.Reads input rest)
    (hrest : Covers after rest) : CoversAll (e.words ++ after) input := by
  cases h with
  | @int node text value _ hpoint hvalue =>
    rw [Expr.words, Word.ofInt]
    split <;> exact coversAll_of_blocks fun stage _ => by cases stage <;> rfl
  | @negativeInt node text value _ hpoint hvalue =>
    rw [Expr.words, Word.ofInt]
    split <;> exact coversAll_of_blocks fun stage _ => by cases stage <;> rfl
  | float => exact coversAll_of_blocks fun stage _ => by cases stage <;> rfl
  | negativeFloat => exact coversAll_of_blocks fun stage _ => by cases stage <;> rfl
  | string => exact coversAll_of_blocks fun stage _ => by cases stage <;> rfl
  | symbol => exact hrest.cons (by simp) (by simp)
  | paren => exact coversAll_openParen _ _
  | @literal node c elements input _ helements =>
    have hitems := coversAll_items helements c.closing_cases hrest
    simpa [Expr.words, Word.closed] using hitems.cons (mark c.opening)
  | @construct node c ref _ =>
    exact coversAll_of_blocks fun stage _ => by cases c <;> cases stage <;> rfl
  | not => exact coversAll_of_blocks fun stage _ => by cases stage <;> rfl
  | @binary node op left right input mid _ hleft hright =>
    have hmid := (hright.coversAll hrest).cons (mark op.kind)
    simpa [Expr.words] using hleft.coversAll hmid.covers
  | @assign node target value input mid _ htarget hvalue =>
    have hmid : CoversAll (mark .assignment :: (value.words ++ after)) (mark .assignment :: mid) :=
      coversAll_of_blocks fun stage _ => by cases stage <;> rfl
    simpa [Expr.words] using htarget.coversAll hmid.covers
  | @call node callee arguments input mid _ hcallee =>
    have hmid := coversAll_openParen
      (Word.closed (Expr.wordsAll arguments) .closeParen after) mid
    simpa [Expr.words, Word.closed] using hcallee.coversAll hmid.covers
  | @templateCall node callee types arguments input mid _ hcallee =>
    simpa [Expr.words] using hcallee.coversAll (covers_less _ _)
  | @index node base position input mid _ hbase hpower hposition =>
    have hclose := (hrest.closing (.inr (.inl rfl))).covers
    have hmid := (hposition.coversAll hclose).cons (mark .openBracket)
    simpa [Expr.words] using hbase.coversAll hmid.covers
  | @member node c stem name input _ hstem =>
    simpa [Expr.words] using hstem.coversAll (covers_accessKind c _ _)

theorem coversAll_items {input rest after : List Word} {close : TokenKind} {items : List Expr}
    (h : Items Expr.Reads input close items rest)
    (hclose : close = .closeParen ∨ close = .closeBracket ∨ close = .closeCurly)
    (hrest : Covers after rest) :
    CoversAll (Word.closed (Expr.wordsAll items) close after) input := by
  have hend := hrest.closing hclose
  cases h with
  | nil => exact hend
  | last ha => exact ha.coversAll hend.covers
  | @more _ _ mid _ a items ha hitems =>
    have hall := coversAll_items hitems hclose hrest
    cases items with
    | nil =>
      cases hitems
      exact ha.coversAll (covers_comma hclose)
    | cons b others =>
      have hmid := hall.cons (mark .comma)
      simpa [Word.closed, Expr.wordsAll, Word.commaJoined] using ha.coversAll hmid.covers

end

section Integers

theorem toList_toString (n : Nat) : (toString n).toList = Nat.toDigits 10 n := Nat.toList_repr

theorem toList_toString_ne_nil (n : Nat) : (toString n).toList ≠ [] := by
  rw [toList_toString]
  exact Nat.toDigits_ne_nil

theorem Numeral.isDigit_of_mem {n : Nat} {c : Char} (h : c ∈ (toString n).toList) :
    Numeral.isDigit c := by
  rw [toList_toString] at h
  have hdigit := Nat.isDigit_of_mem_toDigits (by decide) (by decide) h
  simpa [Char.isDigit, Numeral.isDigit, Char.le_def] using hdigit

theorem Numeral.natural?_toString (n : Nat) : Numeral.natural? (toString n).toList = some n := by
  have hall : (toString n).toList.all Numeral.isDigit :=
    List.all_eq_true.2 fun _ => Numeral.isDigit_of_mem
  have hvalue : Numeral.value (toString n).toList = n := by
    rw [toList_toString]
    exact Nat.ofDigitChars_ten_toDigits
  rw [Numeral.natural?, hall, hvalue, Bool.and_true, if_pos]
  rw [Bool.not_eq_true', List.isEmpty_eq_false_iff]
  exact toList_toString_ne_nil n

theorem Numeral.splitSign_digits {digits : List Char} (h : ∀ c ∈ digits, Numeral.isDigit c) :
    Numeral.splitSign digits = (false, digits) := by
  cases digits with
  | nil => rfl
  | cons c rest =>
    have hdigit : Numeral.isDigit c := h c List.mem_cons_self
    rw [Numeral.splitSign] <;> rintro tail heq <;> cases heq <;> cases hdigit

theorem Numeral.integer?_range {text : List Char} {value : Int}
    (h : Numeral.integer? text = some value) :
    Numeral.minInteger ≤ value ∧ value ≤ Numeral.maxInteger := by
  unfold Numeral.integer? at h
  generalize Numeral.splitSign text = split at h
  obtain ⟨negative, digits⟩ := split
  cases hdigits : Numeral.natural? digits with
  | none => simp [hdigits] at h
  | some n =>
    simp only [hdigits, Option.ite_none_right_eq_some, Option.some.injEq] at h
    obtain ⟨hrange, rfl⟩ := h
    exact hrange

/-- An integer is read from its words again. -/
theorem Expr.reads_ofInt {value : Int} (hmin : Numeral.minInteger ≤ value)
    (hmax : value ≤ Numeral.maxInteger) (node : Node) (after : List Word) :
    Expr.Reads (Word.ofInt value ++ after) (.int node value) after := by
  have hpoint : '.' ∉ (toString value.natAbs).toList := by
    intro hmem
    have hdigit := Numeral.isDigit_of_mem hmem
    cases hdigit
  rw [Word.ofInt]
  split
  next hneg =>
    refine .negativeInt hpoint ?_
    have hsigned : Numeral.signed true value.natAbs = value := by
      simp only [Numeral.signed, ↓reduceIte]
      omega
    simp only [Numeral.integer?, Numeral.splitSign, Numeral.natural?_toString, hsigned]
    exact if_pos ⟨hmin, hmax⟩
  next hneg =>
    refine .int hpoint ?_
    have hsigned : Numeral.signed false value.natAbs = value := by
      simp only [Numeral.signed, Bool.false_eq_true, ↓reduceIte]
      omega
    simp only [Numeral.integer?, Numeral.splitSign_digits fun _ => Numeral.isDigit_of_mem,
      Numeral.natural?_toString, hsigned]
    exact if_pos ⟨hmin, hmax⟩

end Integers

mutual

/-- The grammar derives an expression from its words as soon as it derives it from any. -/
theorem Expr.Reads.canonical {input rest after : List Word} {e : Expr} (h : e.Reads input rest)
    (hplain : e.isPlain) (hrest : Covers after rest) : e.Reads (e.words ++ after) after := by
  cases h with
  | int hpoint hvalue =>
    obtain ⟨hmin, hmax⟩ := Numeral.integer?_range hvalue
    exact Expr.reads_ofInt hmin hmax _ _
  | negativeInt hpoint hvalue =>
    obtain ⟨hmin, hmax⟩ := Numeral.integer?_range hvalue
    exact Expr.reads_ofInt hmin hmax _ _
  | float => cases hplain
  | negativeFloat => cases hplain
  | string => exact .string
  | symbol => exact .symbol
  | construct => exact .construct
  | paren hinner =>
    have hclose := (hrest.closing (.inl rfl)).covers
    have hwords := hinner.canonical hplain hclose
    simpa [Expr.words] using Expr.Reads.paren hwords
  | @literal node c elements input _ helements =>
    have hitems := canonical_items helements c.closing_cases hplain hrest
    simpa [Expr.words, Word.closed] using Expr.Reads.literal hitems
  | not hoperand hpower => exact .not (hoperand.canonical hplain hrest) hpower
  | @binary node op left right input mid _ hleft hright hleftPower hrightPower hless =>
    obtain ⟨hleftPlain, hrightPlain⟩ := Bool.and_eq_true_iff.1 hplain
    have hmid := hright.coversAll hrest
    have hwords := hleft.canonical hleftPlain (hmid.cons (mark op.kind)).covers
    refine List.append_assoc _ _ _ ▸
      .binary hwords (hright.canonical hrightPlain hrest) hleftPower hrightPower ?_
    intro hlower htip
    have hnone := hless hlower htip
    rw [TypeArgumentStage.typeArgumentsAhead_eq_accepts] at hnone ⊢
    by_contra haccepts
    rw [hmid .start (by simpa using haccepts)] at hnone
    cases hnone
  | @assign node target value input mid _ htarget hvalue hpower =>
    obtain ⟨htargetPlain, hvaluePlain⟩ := Bool.and_eq_true_iff.1 hplain
    have hmid := (hvalue.coversAll hrest).cons (mark .assignment)
    have hwords := htarget.canonical htargetPlain hmid.covers
    exact List.append_assoc _ _ _ ▸ .assign hwords (hvalue.canonical hvaluePlain hrest) hpower
  | @call node callee arguments input mid _ hcallee hpower harguments =>
    obtain ⟨hcalleePlain, hargumentsPlain⟩ := Bool.and_eq_true_iff.1 hplain
    have hitems := canonical_items harguments (.inl rfl) hargumentsPlain hrest
    have hwords := hcallee.canonical hcalleePlain (coversAll_openParen
      (Word.closed (Expr.wordsAll arguments) .closeParen after) mid).covers
    simpa [Expr.words, Word.closed] using Expr.Reads.call hwords hpower hitems
  | @templateCall node callee types arguments input mid _ hcallee hnamed harguments =>
    obtain ⟨hcalleePlain, hargumentsPlain⟩ := Bool.and_eq_true_iff.1 hplain
    have hitems := canonical_items harguments (.inl rfl) hargumentsPlain hrest
    have hwords := hcallee.canonical hcalleePlain (covers_less
      (Word.commaJoined (types.map TypeExpr.words) ++ mark .greater :: mark .openParen ::
        Word.closed (Expr.wordsAll arguments) .closeParen after) _)
    simpa [Expr.words, Word.closed] using Expr.Reads.templateCall hwords hnamed hitems
  | @index node base position input mid _ hbase hpower hposition =>
    obtain ⟨hbasePlain, hpositionPlain⟩ := Bool.and_eq_true_iff.1 hplain
    have hclose := (hrest.closing (.inr (.inl rfl))).covers
    have hmid := (hposition.coversAll hclose).cons (mark .openBracket)
    have hwords := hbase.canonical hbasePlain hmid.covers
    have hwords' := hposition.canonical hpositionPlain hclose
    simpa [Expr.words] using Expr.Reads.index hwords hpower hwords'
  | @member node c stem name input _ hstem hpower =>
    have hwords := hstem.canonical hplain
      (covers_accessKind c (⟨.identifier, name⟩ :: after) _)
    simpa [Expr.words] using Expr.Reads.member hwords hpower

theorem canonical_items {input rest after : List Word} {close : TokenKind} {items : List Expr}
    (h : Items Expr.Reads input close items rest)
    (hclose : close = .closeParen ∨ close = .closeBracket ∨ close = .closeCurly)
    (hplain : Expr.areAllPlain items) (hrest : Covers after rest) :
    Items Expr.Reads (Word.closed (Expr.wordsAll items) close after) close items after := by
  have hend := hrest.closing hclose
  cases h with
  | nil => exact .nil
  | last ha => exact .last (ha.canonical (by simpa [Expr.areAllPlain] using hplain) hend.covers)
  | @more _ _ mid _ a items ha hitems =>
    obtain ⟨haPlain, hitemsPlain⟩ := Bool.and_eq_true_iff.1 hplain
    have hothers := canonical_items hitems hclose hitemsPlain hrest
    have hall := coversAll_items hitems hclose hrest
    cases items with
    | nil =>
      cases hitems
      exact .last (ha.canonical haPlain (covers_comma hclose))
    | cons b others =>
      have hwords := ha.canonical haPlain (hall.cons (mark .comma)).covers
      simpa [Word.closed, Expr.wordsAll, Word.commaJoined] using Items.more hwords hothers

end

end Canonical

end ScriptAnalysis
