import Mathlib.Data.List.Forall2
import ScriptAnalysis.Proofs.Grammar.Canonical
import ScriptAnalysis.Proofs.Token.Lexeme

/-!
The text of an expression falls into lexemes whose words are the words of the expression, in front of
anything that does not extend the last of them: `Expr.isOperand_render`. Names have to be names, and
strings may hold plain characters only.
-/
namespace ScriptAnalysis

open Lexeme (Ends Written Skipped Cuts Quoted isWordStart isWordChar isSeparator)
open Word (mark)

section Spelling

variable {text text' rest : List Char} {ws ws' : List Word} {k q : TokenKind} {s t : String}

def Lexeme.word? (l : Lexeme) : Option Word :=
  match l.meaning with
  | .skipped => none
  | .token kind value => some ⟨kind, kind.spelling?.getD value⟩

/-- In front of the rest, the text falls into lexemes with the given words. -/
def Spells (text : List Char) (ws : List Word) (rest : List Char) : Prop :=
  ∃ lexemes, Cuts (text ++ rest) lexemes rest ∧ lexemes.filterMap Lexeme.word? = ws

theorem Lexeme.Cuts.trans {lexemes lexemes' : List Lexeme} {mid : List Char}
    (h : Cuts text lexemes mid) (h' : Cuts mid lexemes' rest) :
    Cuts text (lexemes ++ lexemes') rest := by
  induction h with
  | nil => exact h'
  | cons hstands _ ih => exact .cons hstands (ih h')

theorem spells_nil (rest : List Char) : Spells [] [] rest := ⟨[], .nil, rfl⟩

theorem Spells.append (h : Spells text ws (text' ++ rest)) (h' : Spells text' ws' rest) :
    Spells (text ++ text') (ws ++ ws') rest := by
  obtain ⟨lexemes, hcuts, rfl⟩ := h
  obtain ⟨lexemes', hcuts', rfl⟩ := h'
  refine ⟨lexemes ++ lexemes', ?_, List.filterMap_append⟩
  rw [List.append_assoc]
  exact hcuts.trans hcuts'

theorem Lexeme.Written.spells {value : String} (h : Written k value text rest) :
    Spells text [⟨k, k.spelling?.getD value⟩] rest := by
  have hstands : Lexeme.Stands ⟨text, .token k value⟩ rest := h
  exact ⟨_, .cons hstands .nil, rfl⟩

theorem spells_blank (hrest : Ends isSeparator rest) : Spells [' '] [] rest := by
  have hall : ∀ c ∈ [' '], isSeparator c := List.all_eq_true.1 (by decide)
  have hstands : Lexeme.Stands ⟨[' '], .skipped⟩ rest := Skipped.blank (by simp) hall hrest
  exact ⟨_, .cons hstands .nil, rfl⟩

def Lexeme.openSigns : List String := ["=", "!", "<", ">", "/"]

/-- Whether a character behind a sign may make a longer sign or a comment of it. -/
def Lexeme.isJoining (c : Char) : Bool := c = '=' || c = '/' || c = '*'

open Lexeme (openSigns isJoining)

/-- A longer sign has one character more, which joins an open sign. -/
theorem isJoining_of_longer :
    ∀ s ∈ TokenKind.signs, ∀ t ∈ TokenKind.signs, s.2.toList <+: t.2.toList →
      s.2.length < t.2.length →
        s.2 ∈ openSigns ∧ (t.2.toList.drop s.2.length).head?.any isJoining := by
  decide +kernel

theorem openSigns_of_slash :
    ∀ s ∈ TokenKind.signs, '/' ∈ s.2.toList → s.2.toList = ['/'] ∧ s.2 ∈ openSigns := by
  decide +kernel

theorem spelling?_of_mem_signs : ∀ s ∈ TokenKind.signs, s.1.spelling? = some s.2 := by
  decide +kernel

theorem written_sign (hmem : (k, s) ∈ TokenKind.signs) (hrest : s ∈ openSigns → Ends isJoining rest) :
    Written k s s.toList rest := by
  refine .sign hmem ?_ ?_
  · intro t ht hstarts
    by_contra hlong
    have hbegins : s.toList <+: t.2.toList := by
      refine List.prefix_of_prefix_length_le (List.prefix_append _ rest) hstarts ?_
      simp only [String.length_toList]
      omega
    obtain ⟨hopen, hmore⟩ := isJoining_of_longer _ hmem _ ht hbegins (not_le.1 hlong)
    obtain ⟨c, hc, hjoining⟩ := (Option.any_eq_true _ _).1 hmore
    obtain ⟨tail, htail⟩ := hstarts
    have hhead : c ∈ rest.head? := by
      obtain ⟨more, hmore⟩ := hbegins
      rw [← hmore] at htail hc
      have hdrop : more ++ tail = rest := by simpa using htail
      have hmoreHead : c ∈ more.head? := by
        rw [← String.length_toList, List.drop_left] at hc
        exact hc
      rw [← hdrop, List.head?_append, hmoreHead]
      rfl
    rw [hrest hopen c hhead] at hjoining
    cases hjoining
  · intro comment tail heq hcomment
    have hslash : ∃ d rest', s.toList ++ rest = '/' :: d :: rest' ∧ isJoining d := by
      rw [heq]
      cases hcomment
      · exact ⟨'/', _, rfl, by decide⟩
      · exact ⟨'*', _, rfl, by decide⟩
    obtain ⟨d, rest', heq', hjoining⟩ := hslash
    obtain ⟨c, hc, _⟩ := Lexeme.head_signs _ hmem
    obtain ⟨others, hothers⟩ := List.head?_eq_some_iff.1 hc
    simp only at hothers
    rw [hothers, List.cons_append, List.cons.injEq] at heq'
    obtain ⟨hs, hopen⟩ := openSigns_of_slash _ hmem (by simp [hothers, heq'.1])
    simp only at hs
    rw [hothers, List.cons.injEq] at hs
    rw [hs.2, List.nil_append] at heq'
    have hno := hrest hopen d (by simp [heq'.2])
    rw [hno] at hjoining
    cases hjoining

theorem spells_sign (hmem : (k, s) ∈ TokenKind.signs)
    (hrest : s ∈ openSigns → Ends isJoining rest) : Spells s.toList [mark k] rest := by
  have hspells := (written_sign hmem hrest).spells
  rw [spelling?_of_mem_signs _ hmem] at hspells
  rwa [mark, spelling?_of_mem_signs _ hmem]

end Spelling

section Leaves

variable {rest : List Char} {name : String}

structure Lexeme.Detached (rest : List Char) : Prop where
  word : Ends isWordChar rest
  point : ∀ tail, rest = '.' :: tail → Ends Numeral.isDigit tail

open Lexeme (Detached)

theorem detached_nil : Detached [] := ⟨by simp [Ends], by simp⟩

theorem ends_cons {p : Char → Bool} {c : Char} : Ends p (c :: rest) ↔ p c = false := by
  simp [Ends]

theorem detached_cons {c : Char} (hword : isWordChar c = false) (hpoint : c ≠ '.') :
    Detached (c :: rest) := by
  refine ⟨ends_cons.2 hword, ?_⟩
  intro tail heq
  exact absurd (List.cons.inj heq).1 hpoint

theorem Lexeme.Detached.ends_isDigit (h : Detached rest) : Ends Numeral.isDigit rest := by
  intro c hc
  have hword := h.word c hc
  rw [isWordChar, Bool.or_eq_false_iff] at hword
  exact hword.2

def Lexeme.IsWord (name : String) : Prop :=
  name.toList.head?.any isWordStart ∧ name.toList.all isWordChar

def Lexeme.IsName (name : String) : Prop := IsWord name ∧ TokenKind.ofWord name = .identifier

open Lexeme (IsName IsWord)

theorem written_word (h : IsWord name) (hrest : Ends isWordChar rest) :
    Written (.ofWord name) name name.toList rest := by
  obtain ⟨c, hc, hstart⟩ := (Option.any_eq_true _ _).1 h.1
  obtain ⟨tail, hname⟩ := List.head?_eq_some_iff.1 hc
  have hall := List.all_eq_true.1 h.2
  rw [hname, List.forall_mem_cons] at hall
  have hwritten : Written (.ofWord (.ofList (c :: tail))) (.ofList (c :: tail)) (c :: tail) rest :=
    .word hstart hall.2 hrest
  rwa [← hname, String.ofList_toList] at hwritten

theorem spells_name (h : IsName name) (hrest : Ends isWordChar rest) :
    Spells name.toList [⟨.identifier, name⟩] rest := by
  have hwritten := written_word h.1 hrest
  rw [h.2] at hwritten
  exact hwritten.spells

theorem Lexeme.IsName.ends_isDigit (h : IsName name) : Ends Numeral.isDigit (name.toList ++ rest) := by
  obtain ⟨c, hc, hstart⟩ := (Option.any_eq_true _ _).1 h.1.1
  intro d hd
  rw [List.head?_append, hc] at hd
  obtain rfl : c = d := by simpa using hd
  by_contra hdigit
  rw [Lexeme.isWordStart_of_isDigit (by simpa using hdigit)] at hstart
  cases hstart

theorem spells_natural (n : Nat) (hrest : Detached rest) :
    Spells (toString n).toList [⟨.number, toString n⟩] rest := by
  have hwritten : Written .number (.ofList (toString n).toList) (toString n).toList rest :=
    .integer (toList_toString_ne_nil n) (fun _ => Numeral.isDigit_of_mem) hrest.ends_isDigit hrest.point
  rw [String.ofList_toList] at hwritten
  exact hwritten.spells

theorem toString_int (value : Int) :
    toString value = if value < 0 then "-" ++ toString value.natAbs else toString value.natAbs := by
  rw [Int.toString_eq_repr]
  cases value with
  | ofNat n => rfl
  | negSucc n =>
    rw [if_pos (Int.negSucc_lt_zero n)]
    rfl

theorem spells_int (value : Int) (hrest : Detached rest) :
    Spells (toString value).toList (Word.ofInt value) rest := by
  rw [toString_int, Word.ofInt]
  split
  · rw [String.toList_append]
    have hdash : Spells "-".toList [mark .dash] ((toString value.natAbs).toList ++ rest) :=
      spells_sign (by decide) fun h => absurd h (by decide)
    exact hdash.append (spells_natural _ hrest)
  · exact spells_natural _ hrest

theorem isVisible_of_isPlainChar {c : Char} (h : Expr.isPlainChar c)
    (ht : c ≠ '\t') (hr : c ≠ '\r') (hn : c ≠ '\n') : Text.isVisible c := by
  have hrange : 32 ≤ c.toNat ∧ c.toNat ≤ 126 := by
    simp only [Expr.isPlainChar, ht, hr, hn, decide_false, Bool.or_false, Bool.and_eq_true,
      decide_eq_true_eq] at h
    exact h
  obtain ⟨rest, hruns⟩ : ∃ rest, Text.visibilityRuns = 0 :: 32 :: 95 :: 34 :: rest := ⟨_, rfl⟩
  simp only [Text.isVisible, hruns, Text.isHidden, Bool.not_eq_true', Bool.and_eq_false_iff, Bool.or_eq_false_iff,
    decide_eq_false_iff_not]
  omega

/-- A plain character is written as itself or as a short escape. -/
theorem quoted_escape {c : Char} (h : Expr.isPlainChar c) {body value : List Char}
    (hbody : Quoted body value) : Quoted (Text.escape c ++ body) (c :: value) := by
  unfold Text.escape
  split
  · cases h
  · exact .escaped (by decide) hbody
  · exact .escaped (by decide) hbody
  · exact .escaped (by decide) hbody
  · exact .escaped (by decide) hbody
  · exact .escaped (by decide) hbody
  next h0 ht hr hn hquote hslash =>
    rw [if_pos (isVisible_of_isPlainChar h ht hr hn)]
    exact .plain hquote hslash hbody

theorem spells_string {value : String} (h : value.toList.all Expr.isPlainChar) (rest : List Char) :
    Spells (Text.quote value).toList [⟨.string, value⟩] rest := by
  have hquoted : Quoted (value.toList.flatMap Text.escape) value.toList := by
    have hall := List.all_eq_true.1 h
    generalize value.toList = chars at hall
    induction chars with
    | nil => exact .nil
    | cons c chars ih =>
      rw [List.forall_mem_cons] at hall
      exact quoted_escape hall.1 (ih hall.2)
  have hwritten : Written .string (.ofList value.toList) _ rest := .string hquoted
  rw [String.ofList_toList] at hwritten
  rw [Text.quote, String.toList_ofList]
  exact hwritten.spells

end Leaves

section Names

variable {w : Word} {ws ws' : List Word}

def Word.NamesIn (ws : List Word) : Prop := ∀ w ∈ ws, w.kind = .identifier → Lexeme.IsName w.text

open Word (NamesIn)

@[simp] theorem namesIn_nil : NamesIn [] := by simp [NamesIn]

@[simp] theorem namesIn_cons :
    NamesIn (w :: ws) ↔ (w.kind = .identifier → Lexeme.IsName w.text) ∧ NamesIn ws := by
  simp [NamesIn]

@[simp] theorem namesIn_append : NamesIn (ws ++ ws') ↔ NamesIn ws ∧ NamesIn ws' := by
  simp [NamesIn, or_imp, forall_and]

@[simp] theorem namesIn_commaJoined {parts : List (List Word)} :
    NamesIn (Word.commaJoined parts) ↔ ∀ part ∈ parts, NamesIn part := by
  fun_induction Word.commaJoined parts with
  | case1 => simp
  | case2 part => simp
  | case3 part next others ih => simp [ih]

end Names

section Operands

variable {p : Char → Bool} {text text' body rest more : List Char} {ws ws' : List Word}
  {k q : TokenKind} {s t : String} {texts : List (List Char)} {parts : List (List Word)}

open Lexeme (Detached IsName openSigns isJoining)
open Word (NamesIn)

def Lexeme.isOperandStart (c : Char) : Bool :=
  isWordChar c || c ∈ ['-', '"', '(', '[', '\x7b', '!', '$']

def Lexeme.Opens (text : List Char) : Prop := ∃ c ∈ text.head?, isOperandStart c

open Lexeme (Opens isOperandStart)

theorem isOperandStart_of_isSeparator {c : Char} (h : isSeparator c) : isOperandStart c = false := by
  rw [isOperandStart, Lexeme.isWordChar_of_isSeparator h, Bool.false_or, decide_eq_false_iff_not]
  intro hmem
  simp only [List.mem_cons, List.not_mem_nil, or_false] at hmem
  rcases hmem with rfl | rfl | rfl | rfl | rfl | rfl | rfl <;> revert h <;> decide

theorem isOperandStart_of_isJoining {c : Char} (h : isJoining c) : isOperandStart c = false := by
  simp only [isJoining, Bool.or_eq_true, decide_eq_true_eq] at h
  rcases h with (rfl | rfl) | rfl <;> decide

theorem Lexeme.Opens.append (h : Opens text) (more : List Char) : Opens (text ++ more) := by
  obtain ⟨c, hc, hstart⟩ := h
  refine ⟨c, ?_, hstart⟩
  rw [List.head?_append, hc]
  rfl

/-- An operand starts with no character of a class that has none of its first characters. -/
theorem Lexeme.Opens.ends (h : Opens text) (hp : ∀ c, p c → isOperandStart c = false) :
    Ends p (text ++ more) := by
  obtain ⟨c, hc, hstart⟩ := h.append more
  intro d hd
  obtain rfl : c = d := Option.some.inj (hc.symm.trans hd)
  by_contra hpd
  rw [hp c (by simpa using hpd)] at hstart
  cases hstart

structure IsOperand (text : List Char) (ws : List Word) : Prop where
  opens : Opens text
  spells : ∀ rest, Detached rest → Spells text ws rest

theorem IsOperand.ends_isSeparator (h : IsOperand text ws) : Ends isSeparator (text ++ more) :=
  h.opens.ends fun _ => isOperandStart_of_isSeparator

theorem IsOperand.ends_isJoining (h : IsOperand text ws) : Ends isJoining (text ++ more) :=
  h.opens.ends fun _ => isOperandStart_of_isJoining

theorem IsOperand.extend (h : IsOperand text ws) (hdetached : ∀ rest, Detached (text' ++ rest))
    (hspells : ∀ rest, Detached rest → Spells text' ws' rest) :
    IsOperand (text ++ text') (ws ++ ws') where
  opens := h.opens.append text'
  spells rest hrest := (h.spells _ (hdetached rest)).append (hspells rest hrest)

theorem isOperand_name {name : String} (h : IsName name) :
    IsOperand name.toList [⟨.identifier, name⟩] where
  opens := by
    obtain ⟨c, hc, hstart⟩ := (Option.any_eq_true _ _).1 h.1.1
    exact ⟨c, hc, by simp [isOperandStart, isWordChar, hstart]⟩
  spells rest hrest := spells_name h hrest.word

def IsLone (k : TokenKind) (s : String) : Prop := (k, s) ∈ TokenKind.signs ∧ s ∉ openSigns

instance : Decidable (IsLone k s) := inferInstanceAs (Decidable (_ ∧ _))

theorem IsLone.spells (h : IsLone k s) (rest : List Char) : Spells s.toList [mark k] rest :=
  spells_sign h.1 fun hopen => absurd hopen h.2

theorem spells_bracketed (hs : IsLone k s) (ht : IsLone q t)
    (hbody : Spells body ws (t.toList ++ rest)) :
    Spells (s.toList ++ (body ++ t.toList)) (mark k :: (ws ++ [mark q])) rest :=
  (hs.spells _).append (hbody.append (ht.spells rest))

/-- An operator with blanks around it and its second operand. -/
theorem spells_infix (hmem : (k, s) ∈ TokenKind.signs) (h : IsOperand text ws)
    (hrest : Detached rest) :
    Spells (' ' :: (s.toList ++ ' ' :: text)) (mark k :: ws) rest := by
  have hfirst : Ends isSeparator (s.toList ++ ' ' :: (text ++ rest)) := by
    obtain ⟨c, hc, _, _, hblank, _⟩ := Lexeme.head_signs _ hmem
    intro d hd
    rw [List.head?_append, show s.toList.head? = some c from hc] at hd
    obtain rfl : c = d := by simpa using hd
    exact hblank
  have hsign : Spells s.toList [mark k] (' ' :: (text ++ rest)) :=
    spells_sign hmem fun _ => by simp [Ends, isJoining]
  have hblank : Spells [' '] [] (text ++ rest) := spells_blank h.ends_isSeparator
  have hoperand := hblank.append (h.spells rest hrest)
  have hblank' : Spells [' '] [] (s.toList ++ ' ' :: text ++ rest) :=
    spells_blank (by simpa using hfirst)
  exact hblank'.append (hsign.append hoperand)

theorem opens_joined (h : Opens text) (texts : List (List Char)) :
    Opens (List.intercalate ", ".toList (text :: texts)) := by
  cases texts with
  | nil => simpa using h
  | cons next others =>
    rw [List.intercalate_cons_cons, List.append_assoc]
    exact h.append _

theorem ends_joined (h : List.Forall₂ IsOperand texts parts)
    (hp : ∀ c, p c → isOperandStart c = false) (hmore : Ends p more) :
    Ends p (List.intercalate ", ".toList texts ++ more) := by
  cases h with
  | nil => exact hmore
  | cons hfirst _ => exact (opens_joined hfirst.opens _).ends hp

theorem spells_joined (h : List.Forall₂ IsOperand texts parts) (hrest : Detached rest) :
    Spells (List.intercalate ", ".toList texts) (Word.commaJoined parts) rest := by
  induction h with
  | nil => exact spells_nil rest
  | @cons text ws others parts hfirst hothers ih =>
    cases hothers with
    | nil => simpa [Word.commaJoined] using hfirst.spells rest hrest
    | @cons next ws' others parts hnext hothers =>
      have hcomma : IsLone .comma "," := by decide
      have hblank : Spells [' '] [] (List.intercalate ", ".toList (next :: others) ++ rest) :=
        spells_blank ((opens_joined hnext.opens _).ends fun _ => isOperandStart_of_isSeparator)
      rw [List.intercalate_cons_cons, Word.commaJoined, List.append_assoc]
      refine (hfirst.spells _ (detached_cons (by decide) (by decide))).append ?_
      exact (hcomma.spells _).append (hblank.append ih)

theorem TypeExpr.isOperand_render (t : TypeExpr) (h : NamesIn t.words) :
    IsOperand t.render.toList t.words := by
  induction t with
  | name node text =>
    have hname : IsName text := by simpa [TypeExpr.words] using h
    exact isOperand_name hname
  | container node c component ih =>
    rw [TypeExpr.words, namesIn_append] at h
    rw [TypeExpr.render, String.toList_append, TypeExpr.words]
    refine (ih h.1).extend ?_ ?_
    · intro rest
      cases c <;> exact detached_cons (by decide) (by decide)
    · intro rest _
      cases c
      · exact spells_bracketed (s := "[") (t := "]") (by decide) (by decide) (spells_nil _)
      · exact spells_bracketed (s := "\x7b") (t := "\x7d") (by decide) (by decide) (spells_nil _)

theorem TypeExpr.isOperand_renderAll (types : List TypeExpr)
    (h : ∀ part ∈ types.map TypeExpr.words, NamesIn part) :
    List.Forall₂ IsOperand ((types.map TypeExpr.render).map String.toList)
      (types.map TypeExpr.words) := by
  rw [List.forall_mem_map] at h
  rw [List.map_map, List.forall₂_map_left_iff, List.forall₂_map_right_iff, List.forall₂_same]
  exact fun t ht => t.isOperand_render (h t ht)

theorem isOperand_construct {name : String} (c : Composite) (h : IsName name) :
    IsOperand (c.constructorMark.toList ++ name.toList)
      [mark c.constructorKind, ⟨.identifier, name⟩] := by
  have hname := isOperand_name h
  cases c with
  | struct =>
    have hdollar : IsLone .dollar "$" := by decide
    exact ⟨⟨'$', rfl, by decide⟩, fun rest hrest =>
      (hdollar.spells _).append (hname.spells rest hrest)⟩
  | cls =>
    refine ⟨⟨'c', rfl, by decide⟩, fun rest hrest => ?_⟩
    have hblank : Spells [' '] [] (name.toList ++ rest) := spells_blank hname.ends_isSeparator
    have hword : Lexeme.IsWord "create" := ⟨by decide, by decide⟩
    have hends : Ends isWordChar (' ' :: (name.toList ++ rest)) := ends_cons.2 (by decide)
    have hwritten := written_word hword hends
    exact hwritten.spells.append (hblank.append (hname.spells rest hrest))

theorem isOperand_member {name : String} (c : Composite) (h : IsName name)
    (hstem : IsOperand text ws) :
    IsOperand (text ++ (c.accessMark.toList ++ name.toList))
      (ws ++ [mark c.accessKind, ⟨.identifier, name⟩]) := by
  have hname := isOperand_name h
  refine hstem.extend ?_ ?_
  · intro rest
    cases c with
    | struct =>
      refine ⟨ends_cons.2 (by decide : isWordChar '.' = false), ?_⟩
      rintro tail ⟨⟩
      exact h.ends_isDigit
    | cls => exact detached_cons (by decide) (by decide)
  · intro rest hrest
    have hsign : IsLone c.accessKind c.accessMark := by cases c <;> decide
    exact (hsign.spells _).append (hname.spells rest hrest)

theorem isOperand_int (value : Int) : IsOperand (toString value).toList (Word.ofInt value) where
  opens := by
    rw [toString_int]
    split
    · exact ⟨'-', by simp, by decide⟩
    · obtain ⟨c, tail, hc⟩ := List.exists_cons_of_ne_nil (toList_toString_ne_nil value.natAbs)
      have hdigit : Numeral.isDigit c := Numeral.isDigit_of_mem (hc ▸ List.mem_cons_self)
      exact ⟨c, by rw [hc]; rfl, by simp [isOperandStart, isWordChar, hdigit]⟩
  spells _ hrest := spells_int value hrest

theorem isOperand_bracketed (hs : IsLone k s) (ht : IsLone q t) (hopens : Opens s.toList)
    (hclose : ∀ rest, Detached (t.toList ++ rest))
    (hbody : ∀ rest, Detached rest → Spells body ws rest) :
    IsOperand (s.toList ++ (body ++ t.toList)) (mark k :: (ws ++ [mark q])) where
  opens := hopens.append _
  spells rest _ := spells_bracketed hs ht (hbody _ (hclose rest))

/-- Type arguments and arguments behind the name of a call. -/
theorem spells_templateArguments {types arguments : List (List Char)}
    {typeParts argumentParts : List (List Word)} (htypes : List.Forall₂ IsOperand types typeParts)
    (harguments : List.Forall₂ IsOperand arguments argumentParts) :
    Spells ("<".toList ++ (List.intercalate ", ".toList types ++ (">(".toList ++
        (List.intercalate ", ".toList arguments ++ ")".toList))))
      (mark .less :: (Word.commaJoined typeParts ++ mark .greater :: mark .openParen ::
        (Word.commaJoined argumentParts ++ [mark .closeParen]))) rest := by
  have hcall : Spells ("(".toList ++ (List.intercalate ", ".toList arguments ++ ")".toList))
      (mark .openParen :: (Word.commaJoined argumentParts ++ [mark .closeParen])) rest :=
    spells_bracketed (by decide) (by decide)
      (spells_joined harguments (detached_cons (by decide) (by decide)))
  have hgreater : Spells ">".toList [mark .greater]
      ("(".toList ++ (List.intercalate ", ".toList arguments ++ ")".toList) ++ rest) :=
    spells_sign (by decide) fun _ => ends_cons.2 (by decide)
  have hnames := (spells_joined htypes (detached_cons (by decide) (by decide))).append
    (hgreater.append hcall)
  have hless : Spells "<".toList [mark .less] (List.intercalate ", ".toList types ++ (">(".toList ++
      (List.intercalate ", ".toList arguments ++ ")".toList)) ++ rest) := by
    refine spells_sign (by decide) fun _ => ?_
    rw [List.append_assoc]
    exact ends_joined htypes (fun _ => isOperandStart_of_isJoining) (ends_cons.2 (by decide))
  exact hless.append hnames

mutual

theorem Expr.isOperand_render (e : Expr) (hplain : e.isPlain) (hnames : NamesIn e.words) :
    IsOperand e.render.toList e.words := by
  cases e with
  | int node value => exact isOperand_int value
  | float => cases hplain
  | string node value =>
    refine ⟨⟨'"', ?_, by decide⟩, fun rest _ => spells_string hplain rest⟩
    simp [Expr.render, Text.quote]
  | symbol ref =>
    have hname : IsName ref.name := by simpa [Expr.words] using hnames
    exact isOperand_name hname
  | paren node inner =>
    simp only [Expr.words, namesIn_cons, namesIn_append] at hnames
    have hinner := inner.isOperand_render hplain hnames.2.1
    rw [Expr.render, String.toList_append, String.toList_append, List.append_assoc]
    exact isOperand_bracketed (by decide) (by decide) ⟨'(', rfl, by decide⟩
      (fun _ => detached_cons (by decide) (by decide)) hinner.spells
  | literal node c elements =>
    simp only [Expr.words, namesIn_cons, namesIn_append, namesIn_commaJoined] at hnames
    have helements := Expr.isOperand_renderAll elements hplain hnames.2.1
    have hspells : ∀ rest, Detached rest → Spells (List.intercalate ", ".toList
        ((Expr.renderAll elements).map String.toList)) _ rest := fun _ => spells_joined helements
    cases c <;> simp only [Expr.render, String.toList_append, List.append_assoc,
      String.toList_intercalate]
    · exact isOperand_bracketed (by decide) (by decide) ⟨'[', rfl, by decide⟩
        (fun _ => detached_cons (by decide) (by decide)) hspells
    · exact isOperand_bracketed (by decide) (by decide) ⟨'\x7b', rfl, by decide⟩
        (fun _ => detached_cons (by decide) (by decide)) hspells
  | not node operand =>
    simp only [Expr.words, namesIn_cons] at hnames
    have hoperand := operand.isOperand_render hplain hnames.2
    rw [Expr.render, String.toList_append]
    refine ⟨⟨'!', rfl, by decide⟩, fun rest hrest => ?_⟩
    have hsign : Spells "!".toList [mark .not] (operand.render.toList ++ rest) :=
      spells_sign (by decide) fun _ => hoperand.ends_isJoining
    exact hsign.append (hoperand.spells rest hrest)
  | binary node op left right =>
    obtain ⟨hleftPlain, hrightPlain⟩ := Bool.and_eq_true_iff.1 hplain
    simp only [Expr.words, namesIn_cons, namesIn_append] at hnames
    have hleft := left.isOperand_render hleftPlain hnames.1
    have hright := right.isOperand_render hrightPlain hnames.2.2
    have hmem : (op.kind, op.symbol) ∈ TokenKind.signs := by cases op <;> decide
    simp only [Expr.render, String.toList_append, List.append_assoc]
    exact hleft.extend (fun _ => detached_cons (by decide) (by decide))
      fun rest hrest => spells_infix hmem hright hrest
  | assign node target value =>
    obtain ⟨htargetPlain, hvaluePlain⟩ := Bool.and_eq_true_iff.1 hplain
    simp only [Expr.words, namesIn_cons, namesIn_append] at hnames
    have htarget := target.isOperand_render htargetPlain hnames.1
    have hvalue := value.isOperand_render hvaluePlain hnames.2.2
    simp only [Expr.render, String.toList_append, List.append_assoc]
    exact htarget.extend (fun _ => detached_cons (by decide) (by decide))
      fun rest hrest => spells_infix (k := .assignment) (s := "=") (by decide) hvalue hrest
  | call node callee arguments =>
    obtain ⟨hcalleePlain, hargumentsPlain⟩ := Bool.and_eq_true_iff.1 hplain
    simp only [Expr.words, namesIn_cons, namesIn_append, namesIn_commaJoined] at hnames
    have hcallee := callee.isOperand_render hcalleePlain hnames.1
    have harguments := Expr.isOperand_renderAll arguments hargumentsPlain hnames.2.2.1
    simp only [Expr.render, String.toList_append, List.append_assoc, String.toList_intercalate]
    refine hcallee.extend (fun _ => detached_cons (by decide) (by decide)) fun rest _ => ?_
    exact spells_bracketed (by decide) (by decide)
      (spells_joined harguments (detached_cons (by decide) (by decide)))
  | templateCall node callee types arguments =>
    obtain ⟨hcalleePlain, hargumentsPlain⟩ := Bool.and_eq_true_iff.1 hplain
    simp only [Expr.words, namesIn_cons, namesIn_append, namesIn_commaJoined] at hnames
    have hcallee := callee.isOperand_render hcalleePlain hnames.1
    have htypes := TypeExpr.isOperand_renderAll types hnames.2.2.1
    have harguments := Expr.isOperand_renderAll arguments hargumentsPlain hnames.2.2.2.2.2.1
    simp only [Expr.render, String.toList_append, List.append_assoc, String.toList_intercalate]
    exact hcallee.extend (fun _ => detached_cons (by decide) (by decide))
      fun rest _ => spells_templateArguments htypes harguments
  | index node base position =>
    obtain ⟨hbasePlain, hpositionPlain⟩ := Bool.and_eq_true_iff.1 hplain
    simp only [Expr.words, namesIn_cons, namesIn_append] at hnames
    have hbase := base.isOperand_render hbasePlain hnames.1
    have hposition := position.isOperand_render hpositionPlain hnames.2.2.1
    simp only [Expr.render, String.toList_append, List.append_assoc]
    refine hbase.extend (fun _ => detached_cons (by decide) (by decide)) fun rest _ => ?_
    exact spells_bracketed (by decide) (by decide)
      (hposition.spells _ (detached_cons (by decide) (by decide)))
  | member node c stem name =>
    simp only [Expr.words, namesIn_cons, namesIn_append] at hnames
    rw [Expr.render, String.toList_append, String.toList_append, List.append_assoc]
    exact isOperand_member c (hnames.2.2.1 trivial) (stem.isOperand_render hplain hnames.1)
  | construct node c ref =>
    simp only [Expr.words, namesIn_cons] at hnames
    rw [Expr.render, String.toList_append]
    exact isOperand_construct c (hnames.2.1 trivial)

theorem Expr.isOperand_renderAll (es : List Expr) (hplain : Expr.areAllPlain es)
    (hnames : ∀ part ∈ Expr.wordsAll es, NamesIn part) :
    List.Forall₂ IsOperand ((Expr.renderAll es).map String.toList) (Expr.wordsAll es) := by
  cases es with
  | nil => exact .nil
  | cons e es =>
    rw [Expr.wordsAll, List.forall_mem_cons] at hnames
    obtain ⟨hfirst, hothers⟩ := Bool.and_eq_true_iff.1 hplain
    exact .cons (e.isOperand_render hfirst hnames.1)
      (Expr.isOperand_renderAll es hothers hnames.2)

end

end Operands

end ScriptAnalysis
