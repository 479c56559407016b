import Mathlib.Algebra.Order.Ring.Nat
import Mathlib.Data.List.TakeWhile
import Mathlib.Data.Nat.SuccPred
import ScriptAnalysis.Text.Line

/-!
The line of a byte offset. A text falls into segments that end with their line feed, and its lines are these
(`segments_lines`). The line of an offset inside the text holds it, and its number counts the line feeds
before (`exists_holds`); the line of the end is the last one (`exists_ends`).
-/
namespace ScriptAnalysis.Text

variable {offset : Nat} {text body rest : List Char} {parts : List (List Char)}

/-- The text falls into these segments: each ends with its only line feed, except that what stands behind
the last line feed is a segment too. -/
inductive Segments : List Char → List (List Char) → Prop
  | nil : Segments [] []
  | unclosed {body : List Char} : body ≠ [] → '\n' ∉ body → Segments body [body]
  | closed {body rest : List Char} {parts : List (List Char)} : '\n' ∉ body → Segments rest parts →
      Segments (body ++ '\n' :: rest) ((body ++ ['\n']) :: parts)

theorem segments_lines (text : List Char) : Segments text (lines text) := by
  induction text with
  | nil => exact .nil
  | cons c rest ih =>
    rw [lines]
    split
    · next hc => exact hc ▸ .closed List.not_mem_nil ih
    · next hc =>
      have hcons {body : List Char} (hbody : '\n' ∉ body) : '\n' ∉ c :: body :=
        List.not_mem_cons_of_ne_of_not_mem (Ne.symm hc) hbody
      generalize lines rest = parts at ih
      cases ih with
      | nil => exact .unclosed (List.cons_ne_nil c []) (hcons List.not_mem_nil)
      | unclosed _ hbody => exact .unclosed (List.cons_ne_nil c _) (hcons hbody)
      | closed hbody hrest => exact .closed (hcons hbody) hrest

def AtMostClosed (part : List Char) : Prop := ∃ body, '\n' ∉ body ∧ (part = body ∨ part = body ++ ['\n'])

theorem Segments.atMostClosed (h : Segments text parts) : ∀ part ∈ parts, AtMostClosed part := by
  induction h with
  | nil => simp
  | unclosed _ hbody => simpa using ⟨_, hbody, .inl rfl⟩
  | closed hbody _ ih =>
    intro part hpart
    rcases List.mem_cons.1 hpart with rfl | hpart
    · exact ⟨_, hbody, .inr rfl⟩
    · exact ih part hpart

theorem atMostClosed_getD {part? : Option (List Char)} (h : ∀ part ∈ part?, part ∈ lines text) :
    AtMostClosed (part?.getD []) := by
  cases part? with
  | none => exact ⟨[], List.not_mem_nil, .inl rfl⟩
  | some part => exact (segments_lines text).atMostClosed part (h part rfl)

/-- The lines up to a line feed do not depend on what stands behind it. -/
theorem lines_append (s t : List Char) :
    lines (s ++ '\n' :: t) = lines (s ++ ['\n']) ++ lines t := by
  induction s with
  | nil => simp [lines]
  | cons c s ih =>
    simp only [List.cons_append, lines, ih]
    split
    · rfl
    · cases hlines : lines (s ++ ['\n']) with
      | nil => simpa [hlines] using flatten_lines (s ++ ['\n'])
      | cons => rfl

theorem lines_closed (h : '\n' ∉ body) : lines (body ++ ['\n']) = [body ++ ['\n']] := by
  induction body with
  | nil => rfl
  | cons c body ih =>
    obtain ⟨hc, hbody⟩ : '\n' ≠ c ∧ '\n' ∉ body := by simpa using h
    simp [lines, Ne.symm hc, ih hbody]

def encoded (text : List Char) : List UInt8 := text.flatMap String.utf8EncodeChar

theorem encoded_append (s t : List Char) : encoded (s ++ t) = encoded s ++ encoded t := by
  simp [encoded]

theorem length_encoded (text : List Char) : (encoded text).length = bytes text := by
  induction text with
  | nil => rfl
  | cons c text ih =>
    rw [encoded] at ih ⊢
    simp [ih]

theorem bytes_closed (body : List Char) : bytes (body ++ ['\n']) = bytes body + 1 := by
  rw [bytes_append]
  rfl

/-- The byte of a line feed occurs in the encoding of no other character. -/
theorem eq_newline_of_mem {c : Char} (h : 10 ∈ String.utf8EncodeChar c) : c = '\n' := by
  have hbyte {k : Nat} (hk : 10 = UInt8.ofNat k) : 10 = k % 256 := congrArg UInt8.toNat hk
  refine Char.ext (UInt32.toNat_inj.1 (?_ : c.val.toNat = 10))
  simp only [String.utf8EncodeChar] at h
  split_ifs at h <;> simp only [List.mem_cons, List.not_mem_nil, or_false] at h
  · have := hbyte h
    omega
  -- all bytes of a longer encoding are 128 or more
  · rcases h with h | h <;> have := hbyte h <;> omega
  · rcases h with h | h | h <;> have := hbyte h <;> omega
  · rcases h with h | h | h | h <;> have := hbyte h <;> omega

theorem newline_notMem_encoded (h : '\n' ∉ body) : 10 ∉ encoded body := by
  intro hmem
  obtain ⟨c, hc, hbyte⟩ := List.mem_flatMap.1 hmem
  exact h (eq_newline_of_mem hbyte ▸ hc)

/-- Before a place in a segment stand as many line feeds as segments. -/
theorem Segments.count_take (h : Segments text parts) {i k : Nat} {part : List Char}
    (hpart : parts[i]? = some part) (hk : k < bytes part) :
    ((encoded text).take (bytes (parts.take i).flatten + k)).count 10 = i := by
  induction h generalizing i with
  | nil => simp at hpart
  | unclosed _ hbody =>
    obtain rfl : i = 0 := by
      have := (List.getElem?_eq_some_iff.1 hpart).1
      simpa using this
    rw [List.count_eq_zero]
    exact fun hmem => newline_notMem_encoded hbody (List.mem_of_mem_take hmem)
  | @closed body rest parts hbody _ ih =>
    cases i with
    | zero =>
      obtain rfl : body ++ ['\n'] = part := by simpa using hpart
      -- the line feed of the segment is not before `k`
      have hbyte : k ≤ (encoded body).length := by
        rw [bytes_closed] at hk
        rw [length_encoded]
        omega
      rw [encoded_append, List.take_zero, List.flatten_nil, bytes_nil, Nat.zero_add,
        List.take_append_of_le_length hbyte, List.count_eq_zero]
      exact fun hmem => newline_notMem_encoded hbody (List.mem_of_mem_take hmem)
    | succ i =>
      have hclosed : (encoded (body ++ ['\n'])).count 10 = 1 := by
        rw [encoded_append, List.count_append, List.count_eq_zero.2 (newline_notMem_encoded hbody)]
        rfl
      have hsplit : body ++ '\n' :: rest = (body ++ ['\n']) ++ rest := by simp
      rw [hsplit, encoded_append, List.take_succ_cons, List.flatten_cons, bytes_append,
        ← length_encoded (body ++ ['\n']), Nat.add_assoc, List.take_length_add_append,
        List.count_append, hclosed, ih (by simpa using hpart), Nat.add_comm]

/-- A line is found for each offset among the lines: the one in which the offset lies. -/
theorem Line.exists_find? (number start : Nat) (lines : List (List Char)) (hstart : start ≤ offset)
    (hstop : offset < start + bytes lines.flatten) :
    ∃ line, Line.find? offset number start lines = some line ∧
      ∃ i, line.number = number + i ∧ lines[i]? = some line.text ∧ line.offset < bytes line.text ∧
        offset = start + bytes (lines.take i).flatten + line.offset := by
  induction lines generalizing number start with
  | nil =>
    simp only [List.flatten_nil, bytes_nil] at hstop
    omega
  | cons first rest ih =>
    rw [Line.find?]
    split
    · exact ⟨_, rfl, 0, rfl, rfl, by simp only; omega, by simp; omega⟩
    · next hnot =>
      simp only [List.flatten_cons, bytes_append] at hstop
      obtain ⟨line, hline, i, hnumber, hi, hinside, hoffset⟩ := ih (number + 1) (start + bytes first)
        (by omega) (by omega)
      refine ⟨line, hline, i + 1, by omega, by simpa using hi, hinside, ?_⟩
      simp only [List.take_succ_cons, List.flatten_cons, bytes_append]
      omega

theorem Line.find?_eq_none {number start : Nat} {lines : List (List Char)}
    (h : start + bytes lines.flatten ≤ offset) : Line.find? offset number start lines = none := by
  induction lines generalizing number start with
  | nil => rfl
  | cons first rest ih =>
    simp only [List.flatten_cons, bytes_append] at h
    rw [Line.find?, if_neg (by omega)]
    exact ih (by omega)

/-- The line holds an offset of the text: it is the segment in which the offset lies, and its number is
one more than the number of line feeds before the offset. -/
structure Line.Holds (line : Line) (text : List Char) (offset : Nat) : Prop where
  number : line.number = 1 + ((encoded text).take offset).count 10
  segment : (lines text)[line.number - 1]? = some line.text
  inside : line.offset < bytes line.text
  placed : offset = bytes ((lines text).take (line.number - 1)).flatten + line.offset

/-- The line ends the text: it is the last segment, or the empty text if there is none, and its offset
stands behind it but before its line feed. -/
structure Line.Ends (line : Line) (text : List Char) : Prop where
  number : line.number = max 1 (lines text).length
  segment : line.text = (lines text).getLast?.getD []
  placed : line.offset + (if line.text.getLast? = some '\n' then 1 else 0) = bytes line.text

theorem exists_holds (h : offset < bytes text) :
    ∃ line, lineAt? text offset = some line ∧ line.Holds text offset := by
  obtain ⟨line, hline, i, hnumber, hi, hinside, hoffset⟩ := Line.exists_find? 1 0 (lines text)
    (Nat.zero_le offset) (by rw [flatten_lines]; omega)
  rw [Nat.zero_add] at hoffset
  have hcount := (segments_lines text).count_take hi hinside
  have hi' : line.number - 1 = i := by omega
  refine ⟨line, by rw [lineAt?, hline], ?_, by rw [hi', hi], hinside, by rw [hi']; exact hoffset⟩
  rw [hoffset, hcount, hnumber]

theorem exists_ends (text : List Char) :
    ∃ line, lineAt? text (bytes text) = some line ∧ line.Ends text := by
  have hnone : Line.find? (bytes text) 1 0 (lines text) = none :=
    Line.find?_eq_none (by rw [flatten_lines]; omega)
  refine ⟨_, by rw [lineAt?, hnone, if_pos rfl], rfl, rfl, ?_⟩
  obtain ⟨body, hbody, hlast⟩ : AtMostClosed ((lines text).getLast?.getD []) :=
    atMostClosed_getD fun _ => List.mem_of_getLast?
  have hkept : body.takeWhile (· != '\n') = body :=
    List.takeWhile_eq_self_iff.2 fun c hc => by simpa using ne_of_mem_of_not_mem hc hbody
  rcases hlast with hlast | hlast
  · have hopen : body.getLast? ≠ some '\n' := fun h => hbody (List.mem_of_getLast? h)
    simp [hlast, hkept, hopen]
  · have hkept' : (body ++ ['\n']).takeWhile (· != '\n') = body := by
      simp [List.takeWhile_append, hkept]
    simp only [hlast, hkept', bytes_closed, List.getLast?_concat, if_true]

/-- There are no more lines than bytes, since no line is empty. -/
theorem length_lines_le (text : List Char) : (lines text).length ≤ bytes text := by
  have h := segments_lines text
  generalize lines text = parts at h
  induction h with
  | nil => exact Nat.le_refl 0
  | @unclosed body hne =>
    obtain ⟨c, rest, rfl⟩ := List.exists_cons_of_ne_nil hne
    have hpos := c.utf8Size_pos
    simp only [List.length_singleton, bytes_cons]
    omega
  | @closed body rest parts _ _ ih =>
    have hfeed : '\n'.utf8Size = 1 := rfl
    simp only [List.length_cons, bytes_append, bytes_cons, hfeed]
    omega

/-- The line of a number; the empty text has an empty first line. -/
def lineNumbered (text : List Char) (number : Nat) : List Char := (lines text)[number - 1]?.getD []

/-- Each offset up to the end of a text lies in one of its lines. -/
theorem exists_lineAt? (h : offset ≤ bytes text) :
    ∃ line, lineAt? text offset = some line ∧ 1 ≤ line.number ∧ line.number ≤ max 1 (lines text).length ∧
      line.text = lineNumbered text line.number := by
  rcases Nat.lt_or_eq_of_le h with hlt | rfl
  · obtain ⟨line, hline, hholds⟩ := exists_holds hlt
    have hnumber := hholds.number
    have hlt := (List.getElem?_eq_some_iff.1 hholds.segment).1
    exact ⟨line, hline, by omega, by omega, by rw [lineNumbered, hholds.segment, Option.getD_some]⟩
  · obtain ⟨line, hline, hends⟩ := exists_ends text
    have hlast : max 1 (lines text).length - 1 = (lines text).length - 1 := by omega
    refine ⟨line, hline, by rw [hends.number]; exact Nat.le_max_left _ _, hends.number.le, ?_⟩
    rw [hends.segment, lineNumbered, hends.number, hlast, List.getLast?_eq_getElem?]

theorem isSome_lineAt?_iff : (lineAt? text offset).isSome ↔ offset ≤ bytes text := by
  refine ⟨fun h => ?_, fun h => ?_⟩
  · by_contra hbehind
    have hnone : Line.find? offset 1 0 (lines text) = none :=
      Line.find?_eq_none (by rw [flatten_lines]; omega)
    rw [lineAt?, hnone, if_neg (by omega)] at h
    cases h
  · obtain ⟨line, hline, _⟩ := exists_lineAt? h
    rw [hline, Option.isSome_some]

theorem atMostClosed_of_lineAt? {line : Line} (h : lineAt? text offset = some line) :
    AtMostClosed line.text := by
  obtain ⟨line', hline', _, _, htext⟩ := exists_lineAt? (isSome_lineAt?_iff.1 (by rw [h]; rfl))
  obtain rfl := Option.some.inj (h.symm.trans hline')
  exact htext ▸ atMostClosed_getD fun _ => List.mem_of_getElem?

end ScriptAnalysis.Text
