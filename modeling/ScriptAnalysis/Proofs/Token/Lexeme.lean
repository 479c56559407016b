import Mathlib.Data.List.Infix
import Mathlib.Data.List.TakeWhile
import ScriptAnalysis.Token.Lexeme

/-!
The lexical classes, stated without the reader: what a word, a numeral, a string literal, a sign and
a skipped stretch look like in front of the rest of a text. Main statement,
`Lexeme.first?_eq_some_iff`: the reader finds the lexemes of these classes and no others. A text is
cut into such lexemes one after the other (`Lexeme.split_eq_iff`).
-/
namespace ScriptAnalysis.Lexeme

variable {p : Char → Bool} {text rest more : List Char}

/-- The rest of a text starts with no character of a class. -/
def Ends (p : Char → Bool) (rest : List Char) : Prop := ∀ c ∈ rest.head?, p c = false

theorem Ends.of_append (h : Ends p (rest ++ more)) : Ends p rest := by
  cases rest with
  | nil => simp [Ends]
  | cons c rest => exact h

theorem ends_dropWhile (p : Char → Bool) (text : List Char) : Ends p (text.dropWhile p) := by
  intro c hc
  have hnot := List.head?_dropWhile_not p text
  rw [hc] at hnot
  exact hnot

theorem takeWhile_eq_nil_iff : rest.takeWhile p = [] ↔ Ends p rest := by
  cases rest with
  | nil => simp [Ends]
  | cons c rest => cases hc : p c <;> simp [Ends, hc]

theorem takeWhile_append (htext : ∀ c ∈ text, p c) (hrest : Ends p rest) :
    (text ++ rest).takeWhile p = text := by
  rw [List.takeWhile_append_of_pos htext, takeWhile_eq_nil_iff.2 hrest, List.append_nil]

theorem dropWhile_append (htext : ∀ c ∈ text, p c) (hrest : Ends p rest) :
    (text ++ rest).dropWhile p = rest := by
  have hall := List.takeWhile_append_dropWhile (p := p) (l := text ++ rest)
  rw [takeWhile_append htext hrest] at hall
  exact List.append_cancel_left hall

section Strings

/-- The characters that a backslash gives another meaning, and that meaning. -/
def escapes : List (Char × Char) :=
  [('n', '\n'), ('t', '\t'), ('r', '\r'), ('\\', '\\'), ('"', '"')]

inductive Quoted : (body value : List Char) → Prop
  | nil : Quoted [] []
  | plain {c : Char} {body value : List Char} (hquote : c ≠ '"') (hslash : c ≠ '\\')
    (hbody : Quoted body value) : Quoted (c :: body) (c :: value)
  | escaped {c d : Char} {body value : List Char} (hmem : (c, d) ∈ escapes)
    (hbody : Quoted body value) : Quoted ('\\' :: c :: body) (d :: value)
  | verbatim {c : Char} {body value : List Char} (hother : c ∉ escapes.map Prod.fst)
    (hline : c ≠ '\n') (hbody : Quoted body value) :
    Quoted ('\\' :: c :: body) ('\\' :: c :: value)

theorem unescape_cons {c : Char} (hslash : c ≠ '\\') (text : List Char) :
    unescape (c :: text) = c :: unescape text := by
  rw [unescape] <;> simp_all

theorem unescape_escaped {c d : Char} (hmem : (c, d) ∈ escapes) (text : List Char) :
    unescape ('\\' :: c :: text) = d :: unescape text := by
  simp only [escapes, List.mem_cons, Prod.mk.injEq, List.not_mem_nil, or_false] at hmem
  rcases hmem with ⟨rfl, rfl⟩ | ⟨rfl, rfl⟩ | ⟨rfl, rfl⟩ | ⟨rfl, rfl⟩ | ⟨rfl, rfl⟩ <;> rfl

theorem unescape_verbatim {c : Char} (hother : c ∉ escapes.map Prod.fst) (text : List Char) :
    unescape ('\\' :: c :: text) = '\\' :: c :: unescape text := by
  simp only [escapes, List.map_cons, List.map_nil, List.mem_cons, List.not_mem_nil, or_false,
    not_or] at hother
  rw [unescape, unescape_cons hother.2.2.2.1] <;> simp_all

theorem Quoted.unescape_eq {body value : List Char} (h : Quoted body value) :
    unescape body = value := by
  induction h with
  | nil => rfl
  | plain hquote hslash _ ih => rw [unescape_cons hslash, ih]
  | escaped hmem _ ih => rw [unescape_escaped hmem, ih]
  | verbatim hother _ _ ih => rw [unescape_verbatim hother, ih]

theorem Quoted.stringBody? {body value : List Char} (h : Quoted body value) (rest : List Char) :
    stringBody? (body ++ '"' :: rest) = some body := by
  induction h with
  | nil => rfl
  | @plain c body value hquote hslash _ ih =>
    rw [List.cons_append, Lexeme.stringBody?, if_neg hslash, ih]
    · rfl
    · simpa using hquote
    · simp_all
  | @escaped c d body value hmem _ ih =>
    have hline : c ≠ '\n' := by
      intro heq
      subst heq
      simp [escapes] at hmem
    rw [List.cons_append, List.cons_append, Lexeme.stringBody?, if_neg hline, ih]
    rfl
  | @verbatim c body value hother hline _ ih =>
    rw [List.cons_append, List.cons_append, Lexeme.stringBody?, if_neg hline, ih]
    rfl

theorem quoted_of_stringBody? {text body : List Char} (h : stringBody? text = some body) :
    Quoted body (unescape body) ∧ ∃ rest, text = body ++ '"' :: rest := by
  fun_induction Lexeme.stringBody? text generalizing body with
  | case1 => simp at h
  | case2 rest =>
    obtain rfl : [] = body := by simpa using h
    exact ⟨.nil, rest, rfl⟩
  | case3 rest => simp at h
  | case4 c rest hline ih =>
    obtain ⟨inner, hinner, rfl⟩ := Option.map_eq_some_iff.1 h
    obtain ⟨hquoted, tail, rfl⟩ := ih hinner
    refine ⟨?_, tail, rfl⟩
    by_cases hescape : c ∈ escapes.map Prod.fst
    · obtain ⟨⟨_, d⟩, hmem, rfl⟩ := List.mem_map.1 hescape
      rw [unescape_escaped hmem]
      exact .escaped hmem hquoted
    · rw [unescape_verbatim hescape]
      exact .verbatim hescape hline hquoted
  | case5 => simp at h
  | case6 c rest hquote _ hslash ih =>
    obtain ⟨inner, hinner, rfl⟩ := Option.map_eq_some_iff.1 h
    obtain ⟨hquoted, tail, rfl⟩ := ih hinner
    rw [unescape_cons hslash]
    exact ⟨.plain (by simpa using hquote) hslash hquoted, tail, rfl⟩

end Strings

section Comments

inductive Comment : (text rest : List Char) → Prop
  | line {body rest : List Char} (hbody : '\n' ∉ body) (hrest : Ends (· != '\n') rest) :
    Comment ('/' :: '/' :: body) rest
  | block {body rest : List Char} (hfirst : ¬ ['*', '/'] <:+: body ++ ['*']) :
    Comment ('/' :: '*' :: body ++ ['*', '/']) rest

theorem commentBody?_eq_some {text closed : List Char} (h : commentBody? text = some closed) :
    ∃ body rest, closed = body ++ ['*', '/'] ∧ text = closed ++ rest ∧
      ¬ ['*', '/'] <:+: body ++ ['*'] := by
  fun_induction commentBody? text generalizing closed with
  | case1 => simp at h
  | case2 rest =>
    obtain rfl : ['*', '/'] = closed := by simpa using h
    exact ⟨[], rest, rfl, rfl, by decide⟩
  | case3 c rest hopen ih =>
    obtain ⟨inner, hinner, rfl⟩ := Option.map_eq_some_iff.1 h
    obtain ⟨body, tail, rfl, rfl, hfirst⟩ := ih hinner
    refine ⟨c :: body, tail, rfl, rfl, ?_⟩
    rw [List.cons_append, List.infix_cons_iff, not_or]
    refine ⟨?_, hfirst⟩
    rintro ⟨t, ht⟩
    cases body with
    | nil => simp at ht
    | cons d body =>
      simp only [List.cons_append, List.cons.injEq, List.nil_append] at ht
      exact hopen (body ++ ['*', '/'] ++ tail) ht.1.symm (by simp [← ht.2.1])

theorem commentBody?_append {body : List Char} (hfirst : ¬ ['*', '/'] <:+: body ++ ['*'])
    (rest : List Char) : commentBody? (body ++ '*' :: '/' :: rest) = some (body ++ ['*', '/']) := by
  induction body with
  | nil => rfl
  | cons c body ih =>
    rw [List.cons_append, List.infix_cons_iff, not_or] at hfirst
    rw [List.cons_append, commentBody?, ih hfirst.2]
    · rfl
    · intro tail hc htail
      cases body with
      | nil => simp at htail
      | cons d body =>
        apply hfirst.1
        simp_all

theorem comment?_eq_some_iff {comment : List Char} :
    comment? text = some comment ↔ ∃ rest, text = comment ++ rest ∧ Comment comment rest := by
  constructor
  · intro h
    fun_cases comment? text with
    | case1 rest =>
      simp only [comment?, Option.some.injEq] at h
      subst h
      refine ⟨rest.dropWhile (· != '\n'), by simp, .line ?_ (ends_dropWhile _ _)⟩
      intro hmem
      simpa using List.mem_takeWhile_imp hmem
    | case2 rest =>
      obtain ⟨closed, hclosed, rfl⟩ := Option.map_eq_some_iff.1 h
      obtain ⟨body, tail, rfl, rfl, hfirst⟩ := commentBody?_eq_some hclosed
      exact ⟨tail, rfl, .block hfirst⟩
    | case3 => simp_all [comment?]
  · rintro ⟨rest, rfl, hcomment⟩
    cases hcomment with
    | @line body rest hbody hrest =>
      have hall : ∀ c ∈ body, (c != '\n') = true := by
        intro c hc
        simp only [bne_iff_ne]
        rintro rfl
        exact hbody hc
      simp only [List.cons_append, comment?, takeWhile_append hall hrest]
    | @block body rest hfirst =>
      simp only [List.cons_append, List.append_assoc, List.nil_append, comment?,
        commentBody?_append hfirst, Option.map_some]

theorem comment?_eq_none_iff :
    comment? text = none ↔ ∀ comment rest, text = comment ++ rest → ¬ Comment comment rest := by
  constructor
  · intro hnone comment rest heq hcomment
    rw [comment?_eq_some_iff.2 ⟨rest, heq, hcomment⟩] at hnone
    simp at hnone
  · intro hno
    cases hc : comment? text with
    | none => rfl
    | some comment =>
      obtain ⟨rest, heq, hcomment⟩ := comment?_eq_some_iff.1 hc
      exact absurd hcomment (hno comment rest heq)

theorem commentBody?_none_of_append (h : commentBody? (text ++ more) = none) :
    commentBody? text = none := by
  cases hc : commentBody? text with
  | none => rfl
  | some closed =>
    obtain ⟨body, rest, rfl, rfl, hfirst⟩ := commentBody?_eq_some hc
    have hclosed := commentBody?_append hfirst (rest ++ more)
    simp only [List.append_assoc, List.cons_append, List.nil_append] at h
    rw [hclosed] at h
    simp at h

/-- A text that starts with no comment still does not when its end is cut off. -/
theorem comment?_none_of_append (h : comment? (text ++ more) = none) : comment? text = none := by
  fun_cases comment? text with
  | case1 rest => simp [comment?] at h
  | case2 rest =>
    simp only [List.cons_append, comment?, Option.map_eq_none_iff] at h
    rw [commentBody?_none_of_append h]
    rfl
  | case3 => rfl

end Comments

section Signs

variable {kind : TokenKind} {spelling : String}

/-- In the table of signs no sign starts a later one. -/
theorem pairwise_signs :
    TokenKind.signs.Pairwise fun early late => ¬ early.2.toList <+: late.2.toList := by decide

/-- The sign found in the table is the longest that starts the text. -/
theorem find?_signs_iff :
    TokenKind.signs.find? (fun (_, s) => s.toList.isPrefixOf text) = some (kind, spelling) ↔
      (kind, spelling) ∈ TokenKind.signs ∧ spelling.toList <+: text ∧
        ∀ s ∈ TokenKind.signs, s.2.toList <+: text → s.2.length ≤ spelling.length := by
  constructor
  · intro hfind
    obtain ⟨hstart, early, late, htable, hearly⟩ := List.find?_eq_some_iff_append.1 hfind
    have hstart : spelling.toList <+: text := List.isPrefixOf_iff_prefix.1 hstart
    refine ⟨by simp [htable], hstart, ?_⟩
    intro s hs hstarts
    rw [htable, List.mem_append, List.mem_cons] at hs
    obtain hs | rfl | hs := hs
    · have hnot := hearly s hs
      simp [List.isPrefixOf_iff_prefix.2 hstarts] at hnot
    · exact le_rfl
    · by_contra hlong
      have hpair := pairwise_signs
      rw [htable, List.pairwise_append, List.pairwise_cons] at hpair
      apply hpair.2.1.1 s hs
      apply List.prefix_of_prefix_length_le hstart hstarts
      simp only [String.length_toList]
      omega
  · rintro ⟨hmem, hstart, hlongest⟩
    have hsome : (TokenKind.signs.find? fun (_, s) => s.toList.isPrefixOf text).isSome :=
      List.find?_isSome.2 ⟨_, hmem, List.isPrefixOf_iff_prefix.2 hstart⟩
    obtain ⟨⟨kind', spelling'⟩, hfind⟩ := Option.isSome_iff_exists.1 hsome
    rw [hfind]
    obtain ⟨hstart', early, late, htable, hearly⟩ := List.find?_eq_some_iff_append.1 hfind
    have hstart' : spelling'.toList <+: text := List.isPrefixOf_iff_prefix.1 hstart'
    have hshort := hlongest (kind', spelling') (by simp [htable]) hstart'
    rw [htable, List.mem_append, List.mem_cons] at hmem
    obtain hmem | heq | hmem := hmem
    · have hnot := hearly _ hmem
      simp [List.isPrefixOf_iff_prefix.2 hstart] at hnot
    · rw [heq]
    · have hpair := pairwise_signs
      rw [htable, List.pairwise_append, List.pairwise_cons] at hpair
      refine absurd ?_ (hpair.2.1.1 _ hmem)
      apply List.prefix_of_prefix_length_le hstart' hstart
      simpa only [String.length_toList] using hshort

/-- No sign starts like a lexeme of another class. -/
theorem head_signs :
    ∀ s ∈ TokenKind.signs, ∃ c ∈ s.2.toList.head?, isWordStart c = false ∧
      Numeral.isDigit c = false ∧ isSeparator c = false ∧ c ≠ '"' := by
  have hall : TokenKind.signs.all fun s => s.2.toList.head?.any fun c =>
      !isWordStart c && !Numeral.isDigit c && !isSeparator c && c != '"' := by decide
  intro s hs
  obtain ⟨c, hc, hother⟩ := (Option.any_eq_true _ _).1 (List.all_eq_true.1 hall s hs)
  simp only [Bool.and_eq_true, Bool.not_eq_true', bne_iff_ne] at hother
  exact ⟨c, hc, hother.1.1.1, hother.1.1.2, hother.1.2, hother.2⟩

end Signs

section Numerals

variable {digits fraction : List Char}

theorem numeralText_integer (hdigits : ∀ c ∈ digits, Numeral.isDigit c)
    (hrest : Ends Numeral.isDigit rest)
    (hpoint : ∀ tail, rest = '.' :: tail → Ends Numeral.isDigit tail) :
    numeralText (digits ++ rest) = digits := by
  simp only [numeralText, takeWhile_append hdigits hrest, dropWhile_append hdigits hrest]
  split
  next tail =>
    rw [takeWhile_eq_nil_iff.2 (hpoint tail rfl)]
    rfl
  next => rfl

theorem numeralText_decimal (hdigits : ∀ c ∈ digits, Numeral.isDigit c) (hne : fraction ≠ [])
    (hfraction : ∀ c ∈ fraction, Numeral.isDigit c) (hrest : Ends Numeral.isDigit rest) :
    numeralText (digits ++ '.' :: (fraction ++ rest)) = digits ++ '.' :: fraction := by
  have hpoint : Ends Numeral.isDigit ('.' :: (fraction ++ rest)) := by
    intro c hc
    obtain rfl : '.' = c := by simpa using hc
    decide
  simp only [numeralText, takeWhile_append hdigits hpoint, dropWhile_append hdigits hpoint,
    takeWhile_append hfraction hrest]
  rw [if_neg (by simpa using hne)]

end Numerals

inductive Skipped : (text rest : List Char) → Prop
  | blank {text rest : List Char} (hne : text ≠ []) (htext : ∀ c ∈ text, isSeparator c)
    (hrest : Ends isSeparator rest) : Skipped text rest
  | comment {text rest : List Char} (hcomment : Comment text rest) : Skipped text rest

/-- A token as it is written, and the rest of the text behind it. Words and numerals are as long as
the text allows, and so are signs, among which no comment counts. -/
inductive Written : (kind : TokenKind) → (value : String) → (text rest : List Char) → Prop
  | word {c : Char} {tail rest : List Char} (hstart : isWordStart c)
    (htail : ∀ x ∈ tail, isWordChar x) (hrest : Ends isWordChar rest) :
    Written (.ofWord (.ofList (c :: tail))) (.ofList (c :: tail)) (c :: tail) rest
  | integer {digits rest : List Char} (hne : digits ≠ [])
    (hdigits : ∀ c ∈ digits, Numeral.isDigit c) (hrest : Ends Numeral.isDigit rest)
    (hpoint : ∀ tail, rest = '.' :: tail → Ends Numeral.isDigit tail) :
    Written .number (.ofList digits) digits rest
  | decimal {digits fraction rest : List Char} (hne : digits ≠ [])
    (hdigits : ∀ c ∈ digits, Numeral.isDigit c) (hne' : fraction ≠ [])
    (hfraction : ∀ c ∈ fraction, Numeral.isDigit c) (hrest : Ends Numeral.isDigit rest) :
    Written .number (.ofList (digits ++ '.' :: fraction)) (digits ++ '.' :: fraction) rest
  | string {body value rest : List Char} (hbody : Quoted body value) :
    Written .string (.ofList value) ('"' :: body ++ ['"']) rest
  | sign {kind : TokenKind} {spelling : String} {rest : List Char}
    (hmem : (kind, spelling) ∈ TokenKind.signs)
    (hlongest : ∀ s ∈ TokenKind.signs, s.2.toList <+: spelling.toList ++ rest →
      s.2.length ≤ spelling.length)
    (hcomment : ∀ comment tail, spelling.toList ++ rest = comment ++ tail →
      ¬ Comment comment tail) :
    Written kind spelling spelling.toList rest

/-- The lexeme belongs to its class in front of the rest of a text. -/
def Stands (l : Lexeme) (rest : List Char) : Prop :=
  match l.meaning with
  | .skipped => Skipped l.text rest
  | .token kind value => Written kind value l.text rest

/-- The numeral at a digit is written as an integer or as a decimal. -/
theorem written_numeralText {c : Char} (hdigit : Numeral.isDigit c) (text : List Char) :
    ∃ rest, c :: text = numeralText (c :: text) ++ rest ∧
      Written .number (.ofList (numeralText (c :: text))) (numeralText (c :: text)) rest := by
  have hall := List.takeWhile_append_dropWhile (p := Numeral.isDigit) (l := c :: text)
  have hends := ends_dropWhile Numeral.isDigit (c :: text)
  have hne : (c :: text).takeWhile Numeral.isDigit ≠ [] := by simp [hdigit]
  have hdigits : ∀ x ∈ (c :: text).takeWhile Numeral.isDigit, Numeral.isDigit x :=
    fun _ => List.mem_takeWhile_imp
  simp only [numeralText]
  split
  next tail htail =>
    rw [htail] at hall hends
    by_cases hempty : (tail.takeWhile Numeral.isDigit).isEmpty
    · rw [if_pos hempty]
      refine ⟨'.' :: tail, hall.symm, .integer hne hdigits hends ?_⟩
      rintro _ ⟨⟩
      exact takeWhile_eq_nil_iff.1 (by simpa using hempty)
    · rw [if_neg hempty]
      refine ⟨tail.dropWhile Numeral.isDigit, ?_, .decimal hne hdigits (by simpa using hempty)
        (fun _ => List.mem_takeWhile_imp) (ends_dropWhile _ _)⟩
      simpa using hall.symm
  next hpoint =>
    refine ⟨_, hall.symm, .integer hne hdigits hends ?_⟩
    intro tail htail
    exact absurd htail (hpoint tail)

section Characters

variable {c : Char}

theorem isDigit_iff : Numeral.isDigit c ↔ 48 ≤ c.toNat ∧ c.toNat ≤ 57 := by
  simp only [Numeral.isDigit, Bool.and_eq_true, decide_eq_true_eq]
  rfl

theorem isWordStart_iff :
    isWordStart c ↔ (97 ≤ c.toNat ∧ c.toNat ≤ 122) ∨ (65 ≤ c.toNat ∧ c.toNat ≤ 90) ∨
      c.toNat = 95 := by
  simp only [isWordStart, Bool.or_eq_true, Bool.and_eq_true, decide_eq_true_eq, or_assoc,
    ← Char.toNat_inj]
  rfl

theorem isWordStart_of_isDigit (h : Numeral.isDigit c) : isWordStart c = false := by
  rw [isDigit_iff] at h
  rw [← Bool.not_eq_true, isWordStart_iff]
  omega

theorem isWordChar_of_isSeparator (h : isSeparator c) : isWordChar c = false := by
  rw [← Bool.not_eq_true, isWordChar, Bool.or_eq_true, isWordStart_iff, isDigit_iff]
  simp only [isSeparator, Text.isBlank, Text.inRanges, Text.blankRanges, List.any_cons, List.any_nil,
    Bool.or_eq_true, Bool.and_eq_true, decide_eq_true_eq, Bool.false_eq_true, or_false,
    ← Char.toNat_inj] at h
  have hsemicolon : (';').toNat = 59 := rfl
  omega

end Characters

/-- The lexeme that the reader finds belongs to its class. -/
theorem stands_of_first? {l : Lexeme} (h : first? text = some l) :
    ∃ rest, text = l.text ++ rest ∧ l.Stands rest := by
  cases text with
  | nil => simp [first?] at h
  | cons c tail =>
    rw [first?] at h
    by_cases hword : isWordStart c
    · obtain rfl := Option.some.inj ((if_pos hword).symm.trans h)
      exact ⟨tail.dropWhile isWordChar, by simp,
        .word hword (fun _ => List.mem_takeWhile_imp) (ends_dropWhile _ _)⟩
    rw [if_neg hword] at h
    by_cases hdigit : Numeral.isDigit c
    · obtain rfl := Option.some.inj ((if_pos hdigit).symm.trans h)
      exact written_numeralText hdigit tail
    rw [if_neg hdigit] at h
    by_cases hblank : isSeparator c
    · obtain rfl := Option.some.inj ((if_pos hblank).symm.trans h)
      refine ⟨tail.dropWhile isSeparator, by simp, .blank (by simp) ?_ (ends_dropWhile _ _)⟩
      intro x hx
      obtain rfl | hx := List.mem_cons.1 hx
      · exact hblank
      · exact List.mem_takeWhile_imp hx
    rw [if_neg hblank] at h
    by_cases hquote : c = '"'
    · rw [if_pos hquote] at h
      obtain ⟨body, hbody, rfl⟩ := Option.map_eq_some_iff.1 h
      obtain ⟨hquoted, rest, rfl⟩ := quoted_of_stringBody? hbody
      exact ⟨rest, by simp [hquote], .string hquoted⟩
    rw [if_neg hquote] at h
    cases hcomment : comment? (c :: tail) with
    | some comment =>
      rw [hcomment] at h
      obtain rfl := Option.some.inj h
      obtain ⟨rest, heq, hcomment⟩ := comment?_eq_some_iff.1 hcomment
      exact ⟨rest, heq, .comment hcomment⟩
    | none =>
      rw [hcomment] at h
      obtain ⟨⟨kind, spelling⟩, hfind, rfl⟩ := Option.map_eq_some_iff.1 h
      obtain ⟨hmem, ⟨rest, hrest⟩, hlongest⟩ := find?_signs_iff.1 hfind
      rw [← hrest] at hlongest hcomment
      exact ⟨rest, hrest.symm, .sign hmem hlongest (comment?_eq_none_iff.1 hcomment)⟩

theorem Skipped.first? (h : Skipped text rest) :
    first? (text ++ rest) = some ⟨text, .skipped⟩ := by
  cases h with
  | blank hne htext hrest =>
    obtain ⟨c, tail, rfl⟩ := List.exists_cons_of_ne_nil hne
    have hblank := htext c (by simp)
    have hother := isWordChar_of_isSeparator hblank
    rw [isWordChar, Bool.or_eq_false_iff] at hother
    have htail : (tail ++ rest).takeWhile isSeparator = tail :=
      takeWhile_append (fun x hx => htext x (List.mem_cons_of_mem _ hx)) hrest
    simp [Lexeme.first?, hother.1, hother.2, hblank, htail]
  | comment hcomment =>
    have hread := comment?_eq_some_iff.2 ⟨rest, rfl, hcomment⟩
    obtain ⟨tail, rfl⟩ : ∃ tail, text = '/' :: tail := by
      cases hcomment <;> exact ⟨_, rfl⟩
    simp only [List.cons_append] at hread ⊢
    rw [Lexeme.first?, hread]
    rfl

theorem Written.first? {kind : TokenKind} {value : String} (h : Written kind value text rest) :
    first? (text ++ rest) = some ⟨text, .token kind value⟩ := by
  cases h with
  | word hstart htail hrest => simp [Lexeme.first?, hstart, takeWhile_append htail hrest]
  | integer hne hdigits hrest hpoint =>
    obtain ⟨c, tail, rfl⟩ := List.exists_cons_of_ne_nil hne
    have hdigit := hdigits c (by simp)
    have hnumeral := numeralText_integer hdigits hrest hpoint
    simp only [List.cons_append] at hnumeral ⊢
    simp [Lexeme.first?, isWordStart_of_isDigit hdigit, hdigit, hnumeral]
  | decimal hne hdigits hne' hfraction hrest =>
    obtain ⟨c, tail, rfl⟩ := List.exists_cons_of_ne_nil hne
    have hdigit := hdigits c (by simp)
    have hnumeral := numeralText_decimal hdigits hne' hfraction hrest
    simp only [List.cons_append, List.append_assoc] at hnumeral ⊢
    simp [Lexeme.first?, isWordStart_of_isDigit hdigit, hdigit, hnumeral]
  | string hbody =>
    simp only [List.cons_append, List.append_assoc, List.nil_append]
    rw [Lexeme.first?, hbody.stringBody? rest, Option.map_some, hbody.unescape_eq]
    rfl
  | sign hmem hlongest hcomment =>
    have hfind := find?_signs_iff.2 ⟨hmem, List.prefix_append _ rest, hlongest⟩
    have hread := comment?_eq_none_iff.2 hcomment
    obtain ⟨c, hc, hword, hdigit, hblank, hquote⟩ := head_signs _ hmem
    obtain ⟨tail, htail⟩ := List.head?_eq_some_iff.1 hc
    rw [htail, List.cons_append] at hfind hread
    simp only at htail
    rw [htail, List.cons_append, Lexeme.first?, hread]
    simp only [hword, hdigit, hblank, hquote, sign?, hfind]
    simp [htail]

/-- The reader finds each lexeme of a class. -/
theorem Stands.first? {l : Lexeme} (h : l.Stands rest) : first? (l.text ++ rest) = some l := by
  obtain ⟨text, _ | ⟨kind, value⟩⟩ := l
  · exact Skipped.first? h
  · exact Written.first? h

theorem first?_eq_some_iff {l : Lexeme} :
    first? text = some l ↔ ∃ rest, text = l.text ++ rest ∧ l.Stands rest := by
  constructor
  · exact stands_of_first?
  · rintro ⟨rest, rfl, hstands⟩
    exact hstands.first?

section Cuts

variable {l : Lexeme} {lexemes : List Lexeme}

theorem Skipped.ne_nil (h : Skipped text rest) : text ≠ [] := by
  cases h with
  | blank hne => exact hne
  | comment hcomment => cases hcomment <;> simp

theorem ofWord_ne_eof (word : String) : TokenKind.ofWord word ≠ .eof := by
  have hkeywords : ∀ entry ∈ TokenKind.keywords, entry.1 ≠ .eof := by decide
  unfold TokenKind.ofWord
  cases hfind : TokenKind.keywords.find? (·.2 = word) with
  | none => simp
  | some entry => exact hkeywords entry (List.mem_of_find?_eq_some hfind)

theorem Written.kind_ne_eof {kind : TokenKind} {value : String} (h : Written kind value text rest) :
    kind ≠ .eof := by
  cases h with
  | word => exact ofWord_ne_eof _
  | integer | decimal | string => simp
  | sign hmem =>
    have hsigns : ∀ entry ∈ TokenKind.signs, entry.1 ≠ .eof := by decide
    exact hsigns _ hmem

theorem Written.ne_nil {kind : TokenKind} {value : String} (h : Written kind value text rest) :
    text ≠ [] := by
  cases h with
  | integer hne => exact hne
  | sign hmem =>
    obtain ⟨c, hc, _⟩ := head_signs _ hmem
    intro hnil
    simp [hnil] at hc
  | _ => simp

theorem Stands.ne_nil (h : l.Stands rest) : l.text ≠ [] := by
  obtain ⟨text, _ | ⟨kind, value⟩⟩ := l
  · exact Skipped.ne_nil h
  · exact Written.ne_nil h

theorem Skipped.of_append (h : Skipped text (rest ++ more)) : Skipped text rest := by
  cases h with
  | blank hne htext hrest => exact .blank hne htext hrest.of_append
  | comment hcomment =>
    cases hcomment with
    | line hbody hrest => exact .comment (.line hbody hrest.of_append)
    | block hfirst => exact .comment (.block hfirst)

theorem Written.of_append {kind : TokenKind} {value : String}
    (h : Written kind value text (rest ++ more)) : Written kind value text rest := by
  cases h with
  | word hstart htail hrest => exact .word hstart htail hrest.of_append
  | integer hne hdigits hrest hpoint =>
    refine .integer hne hdigits hrest.of_append ?_
    rintro tail rfl
    exact (hpoint (tail ++ more) rfl).of_append
  | decimal hne hdigits hne' hfraction hrest =>
    exact .decimal hne hdigits hne' hfraction hrest.of_append
  | string hbody => exact .string hbody
  | sign hmem hlongest hcomment =>
    rw [← List.append_assoc] at hlongest hcomment
    refine .sign hmem ?_ ?_
    · intro s hs hstarts
      exact hlongest s hs (hstarts.trans (List.prefix_append _ more))
    · exact comment?_eq_none_iff.1 (comment?_none_of_append (comment?_eq_none_iff.2 hcomment))

/-- A lexeme stays what it is when the end of the text is cut off behind it. -/
theorem Stands.of_append (h : l.Stands (rest ++ more)) : l.Stands rest := by
  obtain ⟨text, _ | ⟨kind, value⟩⟩ := l
  · exact Skipped.of_append h
  · exact Written.of_append h

inductive Cuts : (text : List Char) → List Lexeme → (rest : List Char) → Prop
  | nil {rest : List Char} : Cuts rest [] rest
  | cons {l : Lexeme} {lexemes : List Lexeme} {text rest : List Char} (hstands : l.Stands text)
    (hcuts : Cuts text lexemes rest) : Cuts (l.text ++ text) (l :: lexemes) rest

/-- What stands before the rest falls into the same lexemes on its own. -/
theorem Cuts.cut_off (h : Cuts text lexemes rest) :
    ∃ before, text = before ++ rest ∧ Cuts before lexemes [] := by
  induction h with
  | nil => exact ⟨[], rfl, .nil⟩
  | @cons l lexemes text rest hstands _ ih =>
    obtain ⟨before, rfl, hcuts⟩ := ih
    exact ⟨l.text ++ before, by simp, .cons hstands.of_append hcuts⟩

theorem splitFrom_eq (inside : Nat) (text : List Char) :
    splitFrom inside text = split (text.drop inside) := by
  induction text generalizing inside with
  | nil => simp [split, splitFrom]
  | cons c text ih =>
    cases inside with
    | zero => rfl
    | succ inside => rw [splitFrom, ih, List.drop_succ_cons]

theorem Stands.split (h : l.Stands rest) :
    split (l.text ++ rest) = (l :: (split rest).1, (split rest).2) := by
  have hfirst := h.first?
  obtain ⟨c, tail, htext⟩ := List.exists_cons_of_ne_nil h.ne_nil
  rw [htext, List.cons_append] at hfirst ⊢
  rw [Lexeme.split, splitFrom, hfirst]
  simp [splitFrom_eq, htext]

theorem split_of_first?_none (h : first? text = none) : split text = ([], text) := by
  cases text with
  | nil => rfl
  | cons c text => rw [split, splitFrom, h]

theorem cuts_split (text : List Char) :
    Cuts text (split text).1 (split text).2 ∧ first? (split text).2 = none := by
  -- the induction is on the length: a lexeme takes at least one character
  induction hn : text.length using Nat.strong_induction_on generalizing text with
  | _ n ih =>
    cases hfirst : first? text with
    | none =>
      rw [split_of_first?_none hfirst]
      exact ⟨.nil, hfirst⟩
    | some l =>
      obtain ⟨rest, rfl, hstands⟩ := stands_of_first? hfirst
      have hpos := List.length_pos_iff.2 hstands.ne_nil
      obtain ⟨hcuts, hnone⟩ := ih rest.length (by simp at hn; omega) rest rfl
      rw [hstands.split]
      exact ⟨.cons hstands hcuts, hnone⟩

/-- Splitting cuts a text into lexemes up to the first place where none starts. -/
theorem split_eq_iff : split text = (lexemes, rest) ↔ Cuts text lexemes rest ∧ first? rest = none := by
  constructor
  · intro h
    have hcuts := cuts_split text
    rw [h] at hcuts
    exact hcuts
  · rintro ⟨hcuts, hnone⟩
    induction hcuts with
    | nil => exact split_of_first?_none hnone
    | cons hstands _ ih => rw [hstands.split, ih hnone]

end Cuts

end ScriptAnalysis.Lexeme
