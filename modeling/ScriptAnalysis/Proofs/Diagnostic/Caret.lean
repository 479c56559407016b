import Mathlib.Data.List.DropRight
import ScriptAnalysis.Diagnostic.Report
import ScriptAnalysis.Proofs.Grammar.Canonical
import ScriptAnalysis.Proofs.Text.Lines

/-!
The caret of a report. The line is printed without its indentation and behind a gutter that holds its
number; the dashes before the caret make up for both, so the caret stands in the column of the character
that the report is about (`Diagnostic.report_marks_place`).
-/
namespace ScriptAnalysis

namespace Text

variable {before after : List Char} {c : Char}

/-- A character that fails `p`, or stands behind one that does, is not cut off with the front. -/
theorem dropWhile_append_cons {p : Char → Bool} (h : ¬ ∀ x ∈ before ++ [c], p x) :
    (before ++ c :: after).dropWhile p = before.dropWhile p ++ c :: after := by
  rw [List.dropWhile_append]
  split
  · next hnil =>
    have hnil : before.dropWhile p = [] := by simpa using hnil
    have hc : ¬ p c := fun hc => h fun x hx => by
      rcases List.mem_append.1 hx with hx | hx
      · exact List.dropWhile_eq_nil_iff.1 hnil x hx
      · exact List.mem_singleton.1 hx ▸ hc
    rw [hnil, List.dropWhile_cons_of_neg hc, List.nil_append]
  · rfl

/-- A character that is not white space, or stands before one that is not, is not cut off with the end. -/
theorem trimRight_append_cons (h : ¬ ∀ x ∈ c :: after, isBlank x) :
    ∃ kept, kept <+: after ∧ ∀ s, trimRight (s ++ c :: after) = s ++ c :: kept := by
  have hne : trimRight (c :: after) ≠ [] := fun hnil => h (List.rdropWhile_eq_nil_iff.1 hnil)
  obtain hnil | ⟨kept, hkept, hafter⟩ := List.prefix_cons_iff.1 (List.rdropWhile_prefix isBlank (c :: after))
  · exact absurd hnil hne
  refine ⟨kept, hafter, fun s => ?_⟩
  have hrest : (c :: after).reverse.dropWhile isBlank = (c :: kept).reverse :=
    List.reverse_eq_iff.1 hkept
  rw [trimRight, List.reverse_append, List.dropWhile_append, hrest, if_neg (by simp),
    List.reverse_append, List.reverse_reverse, List.reverse_reverse]

theorem AtMostClosed.of_suffix {part tail : List Char} (h : AtMostClosed part) (ht : tail <:+ part) :
    AtMostClosed tail := by
  obtain ⟨body, hbody, rfl | rfl⟩ := h
  · exact ⟨tail, fun hmem => hbody (ht.subset hmem), .inl rfl⟩
  · rcases List.suffix_concat_iff.1 ht with rfl | ⟨rest, rfl, hrest⟩
    · exact ⟨[], List.not_mem_nil, .inl rfl⟩
    · exact ⟨rest, fun hmem => hbody (hrest.subset hmem), .inr rfl⟩

theorem newline_notMem_trimRight {part : List Char} (h : AtMostClosed part) : '\n' ∉ trimRight part := by
  obtain ⟨body, hbody, hpart⟩ := h
  have htrim : trimRight part = trimRight body := by
    rcases hpart with rfl | rfl
    · rfl
    · exact List.rdropWhile_concat_pos _ _ _ (by decide)
  have hsubset : trimRight body ⊆ body := (List.rdropWhile_prefix isBlank body).subset
  exact fun hmem => hbody (hsubset (htrim ▸ hmem))

theorem lines_unclosed {body : List Char} (hne : body ≠ []) (h : '\n' ∉ body) : lines body = [body] := by
  induction body with
  | nil => exact absurd rfl hne
  | cons c rest ih =>
    obtain ⟨hc, hrest⟩ : '\n' ≠ c ∧ '\n' ∉ rest := by simpa using h
    cases rest with
    | nil => simp [lines, Ne.symm hc]
    | cons d rest => rw [lines, if_neg (Ne.symm hc), ih (List.cons_ne_nil d rest) hrest]

/-- Lines that are written one after the other, each with its line feed, are the lines of what is written. -/
theorem lines_written (front : List Char) {parts : List (List Char)} (h : ∀ part ∈ parts, '\n' ∉ part) :
    lines (front ++ '\n' :: parts.flatMap (· ++ ['\n'])) = lines (front ++ ['\n']) ++ parts.map (· ++ ['\n']) := by
  have hparts : lines (parts.flatMap (· ++ ['\n'])) = parts.map (· ++ ['\n']) := by
    induction parts with
    | nil => rfl
    | cons part parts ih =>
      simp only [List.forall_mem_cons] at h
      rw [List.flatMap_cons, List.append_assoc, List.singleton_append, lines_append, lines_closed h.1, ih h.2]
      rfl
  rw [lines_append, hparts]

theorem bytes_of_ascii (h : ∀ x ∈ before, x.toNat < 128) : bytes before = before.length := by
  induction before with
  | nil => rfl
  | cons x before ih =>
    have hx : x.utf8Size = 1 := Char.utf8Size_eq_one_iff.2
      (UInt32.le_iff_toNat_le.2 (Nat.le_of_lt_succ (h x List.mem_cons_self)))
    rw [bytes_cons, hx, ih fun y hy => h y (List.mem_cons_of_mem x hy), List.length_cons, Nat.add_comm]

end Text

namespace Diagnostic

/-- What stands before the text of a line: its number and a bar. -/
def gutter (number : Nat) : List Char := (toString number).toList ++ [' ', '|', ' ']

def margin (number : Nat) : List Char :=
  List.replicate ((toString number).length + 1) ' ' ++ ['|']

theorem newline_notMem_gutter (number : Nat) : '\n' ∉ gutter number := by
  have hdigits : '\n' ∉ (toString number).toList := fun hmem =>
    absurd (Numeral.isDigit_of_mem hmem) (by decide)
  rw [gutter, List.mem_append, not_or]
  exact ⟨hdigits, by decide⟩

theorem newline_notMem_margin (number : Nat) : '\n' ∉ margin number := by simp [margin]

/-- The fields of the excerpt of a line are not too wide. -/
def Fits (line : Text.Line) : Prop :=
  (toString line.number).length + 2 ≤ maxWidth ∧ column line + 1 ≤ maxWidth

/-- The lines of an excerpt: the text of the line behind its number, and below it dashes and a caret. -/
def shownLines (line : Text.Line) : List (List Char) :=
  [margin line.number, gutter line.number ++ Text.trimRight (line.text.dropWhile isIndent),
    margin line.number ++ ' ' :: List.replicate (column line) '-' ++ ['^']]

theorem alignRight_of_le {width : Nat} (h : width ≤ maxWidth) (fill : Char) (text : String) :
    alignRight fill width text = .ok (String.ofList (List.replicate (width - text.length) fill) ++ text) :=
  if_pos h

theorem alignRight_of_gt {width : Nat} (h : ¬width ≤ maxWidth) (fill : Char) (text : String) :
    alignRight fill width text = .error .wideField :=
  if_neg h

theorem excerpt_of_fits {line : Text.Line} (h : Fits line) :
    excerpt line = .ok (String.ofList ((shownLines line).flatMap (· ++ ['\n']))) := by
  have hone : "|".length = 1 ∧ "^".length = 1 := ⟨rfl, rfl⟩
  simp only [excerpt, alignRight_of_le h.1, alignRight_of_le h.2, hone, Nat.add_sub_cancel, bind, Except.bind, pure,
    Except.pure]
  refine congrArg Except.ok (String.toList_inj.1 ?_)
  simp [shownLines, gutter, margin, String.toList_append]

theorem excerpt_of_not_fits {line : Text.Line} (h : ¬Fits line) : excerpt line = .error .wideField := by
  by_cases hbar : (toString line.number).length + 2 ≤ maxWidth
  · have hcaret : ¬column line + 1 ≤ maxWidth := fun hcaret => h ⟨hbar, hcaret⟩
    simp only [excerpt, alignRight_of_le hbar, alignRight_of_gt hcaret, bind, Except.bind]
  · simp only [excerpt, alignRight_of_gt hbar, bind, Except.bind]

theorem newline_notMem_shown {line : Text.Line} (h : Text.AtMostClosed line.text) :
    ∀ part ∈ shownLines line, '\n' ∉ part := by
  have htext := Text.newline_notMem_trimRight (h.of_suffix (List.dropWhile_suffix isIndent))
  have hgutter := newline_notMem_gutter line.number
  have hmargin := newline_notMem_margin line.number
  simp [shownLines, htext, hgutter, hmargin]

/-- A report shows a line: under the heading and the file stand the lines of the excerpt. -/
def Shows (d : Diagnostic) (report : String) (line : Text.Line) : Prop :=
  Text.lines report.toList =
    Text.lines (heading d.cause ++ "-> " ++ d.span.start.file ++ "\n").toList ++ (shownLines line).map (· ++ ['\n'])

section Render

variable {d : Diagnostic} {source : String} {line : Text.Line}
  (hline : Text.lineAt? source.toList d.span.start.offset = some line)
include hline

theorem render_of_fits (h : Fits line) : ∃ report, d.render source = .ok report ∧ d.Shows report line := by
  refine ⟨_, by simp only [render, hline, excerpt_of_fits h, bind, Except.bind, pure, Except.pure]; rfl, ?_⟩
  have hfront : ∀ front : String, (front ++ "\n").toList = front.toList ++ ['\n'] := fun front => by simp
  rw [Shows, String.toList_append, hfront, String.toList_ofList, List.append_assoc, List.singleton_append]
  exact Text.lines_written _ (newline_notMem_shown (Text.atMostClosed_of_lineAt? hline))

theorem render_eq_error_iff : d.render source = .error .wideField ↔ ¬Fits line := by
  constructor
  · intro herror h
    obtain ⟨report, hreport, _⟩ := render_of_fits hline h
    rw [hreport] at herror
    cases herror
  · intro h
    simp only [render, hline, excerpt_of_not_fits h, bind, Except.bind]

end Render

/-- The last two lines of a report print the character behind the gutter and what stands before it, and
a caret, the only one of its line, in the same column. -/
def CaretUnder (report : List Char) (number : Nat) (before : List Char) (c : Char)
    (after : List Char) : Prop :=
  ∃ front fill, Text.lines report =
      front ++ [gutter number ++ before ++ c :: after ++ ['\n'], fill ++ ['^'] ++ ['\n']] ∧
    '^' ∉ fill ∧ fill.length = (gutter number ++ before).length

/-- There is a dash for each character between gutter and place, so the caret is under the place. -/
theorem Shows.caretUnder {d : Diagnostic} {report : String} {line : Text.Line} (h : d.Shows report line)
    {before after : List Char} {c : Char} (htext : line.text = before ++ c :: after)
    (hoffset : line.offset = before.length)
    (hindent : ¬ ∀ x ∈ before ++ [c], isIndent x) (hblank : ¬ ∀ x ∈ c :: after, Text.isBlank x) :
    ∃ kept, kept <+: after ∧ CaretUnder report.toList line.number (before.dropWhile isIndent) c kept := by
  obtain ⟨kept, hkept, htrim⟩ := Text.trimRight_append_cons hblank
  have hdrop : line.text.dropWhile isIndent = before.dropWhile isIndent ++ c :: after := by
    rw [htext, Text.dropWhile_append_cons hindent]
  have hdashes : column line = (before.dropWhile isIndent).length := by
    have hlength : (line.text.takeWhile isIndent ++ line.text.dropWhile isIndent).length =
        line.text.length := by rw [List.takeWhile_append_dropWhile]
    rw [hdrop, htext] at hlength
    simp only [List.length_append] at hlength
    rw [column, htext, hoffset]
    omega
  refine ⟨kept, hkept, Text.lines (heading d.cause ++ "-> " ++ d.span.start.file ++ "\n").toList ++
    [margin line.number ++ ['\n']], margin line.number ++ ' ' :: List.replicate (column line) '-', h.trans ?_, ?_, ?_⟩
  · simp [shownLines, hdrop, htrim]
  · simp [margin]
  · simp only [margin, gutter, hdashes, List.length_append, List.length_cons, List.length_replicate,
      String.length_toList]
    omega

/-- A place up to the end of a source, and no other, has a line: inside of the source the segment that
holds the place, at its end the last segment. There is a report unless its fields are too wide. If the line
is ASCII up to the character at the place, and this stands neither in the indentation nor in the white space
at the end, the report has the caret under it. -/
theorem report_marks_place (d : Diagnostic) (source : String) :
    Text.Segments source.toList (Text.lines source.toList) ∧
    (∀ offset, (Text.lineAt? source.toList offset).isSome ↔ offset ≤ Text.bytes source.toList) ∧
    (∀ offset < Text.bytes source.toList,
      ∃ line, Text.lineAt? source.toList offset = some line ∧ line.Holds source.toList offset) ∧
    (∃ line, Text.lineAt? source.toList (Text.bytes source.toList) = some line ∧
      line.Ends source.toList) ∧
    ∀ line, Text.lineAt? source.toList d.span.start.offset = some line →
      (d.render source = .error .wideField ↔ ¬Fits line) ∧
      (Fits line → ∃ report, d.render source = .ok report ∧ d.Shows report line ∧
        ∀ before c after, line.text = before ++ c :: after → Text.bytes before = line.offset →
          (∀ x ∈ before, x.toNat < 128) →
          (¬ ∀ x ∈ before ++ [c], isIndent x) → (¬ ∀ x ∈ c :: after, Text.isBlank x) →
          ∃ kept, kept <+: after ∧
            CaretUnder report.toList line.number (before.dropWhile isIndent) c kept) := by
  refine ⟨Text.segments_lines _, fun _ => Text.isSome_lineAt?_iff, fun _ => Text.exists_holds,
    Text.exists_ends _, fun line hline => ⟨render_eq_error_iff hline, fun hfits => ?_⟩⟩
  obtain ⟨report, hreport, hshows⟩ := render_of_fits hline hfits
  refine ⟨report, hreport, hshows, fun before c after htext hoffset hascii hindent hblank => ?_⟩
  rw [Text.bytes_of_ascii hascii] at hoffset
  exact hshows.caretUnder htext hoffset.symm hindent hblank

/-- An indented line behind one with a character of several bytes, and the place of such a character. -/
def accentSource : String := "\"é\"\n\t x + é \n"

theorem report_marks_place_accent :
    11 < Text.bytes accentSource.toList ∧
    (∃ line, Text.lineAt? accentSource.toList 11 = some line ∧ line.Holds accentSource.toList 11) ∧
    Text.lineAt? accentSource.toList 11 =
      some ⟨2, ['\t', ' ', 'x', ' ', '+', ' ', 'é', ' ', '\n'], 6⟩ ∧
    ∃ report kept, (atPosition (.unexpected "é") ⟨11, "main"⟩).render accentSource = .ok report ∧
      kept <+: [' ', '\n'] ∧ CaretUnder report.toList 2 ['x', ' ', '+', ' '] 'é' kept := by
  obtain ⟨_, _, hholds, _, hreports⟩ :=
    report_marks_place (atPosition (.unexpected "é") ⟨11, "main"⟩) accentSource
  have hline : Text.lineAt? accentSource.toList 11 =
    some ⟨2, ['\t', ' ', 'x', ' ', '+', ' ', 'é', ' ', '\n'], 6⟩ := by decide
  obtain ⟨report, hreport, _, hcaret⟩ := (hreports _ hline).2 ⟨by decide, by decide⟩
  obtain ⟨kept, hkept, hunder⟩ := hcaret ['\t', ' ', 'x', ' ', '+', ' '] 'é' [' ', '\n'] rfl rfl (by simp)
    (fun h => absurd (h 'x' (by simp)) (by decide)) (fun h => absurd (h 'é' (by simp)) (by decide))
  exact ⟨by decide, hholds 11 (by decide), hline, report, kept, hreport, hkept, hunder⟩

/-- A single line with a place behind a word of the given length. -/
def wideSource (n : Nat) : String := String.ofList (List.replicate n 'q' ++ ['#'])

theorem isAscii_replicate (n : Nat) : ∀ x ∈ List.replicate n 'q', x.toNat < 128 := by
  intro x hx
  rw [List.eq_of_mem_replicate hx]
  decide

theorem lineAt?_wideSource (n : Nat) :
    Text.lineAt? (wideSource n).toList n = some ⟨1, List.replicate n 'q' ++ ['#'], n⟩ := by
  have hbytes : Text.bytes (List.replicate n 'q') = n := by
    rw [Text.bytes_of_ascii (isAscii_replicate n), List.length_replicate]
  have hlines : Text.lines (wideSource n).toList = [List.replicate n 'q' ++ ['#']] := by
    rw [wideSource, String.toList_ofList]
    exact Text.lines_unclosed (by simp) (by simp)
  have hlt : n < 0 + (n + Text.bytes ['#']) := by
    rw [Nat.zero_add]
    exact Nat.lt_add_of_pos_right (by decide)
  rw [Text.lineAt?, hlines, Text.Line.find?, Text.bytes_append, hbytes, if_pos ⟨Nat.zero_le n, hlt⟩, Nat.sub_zero]

theorem render_wideSource {n : Nat} (h : maxWidth ≤ n) (cause : Cause) (file : String) :
    (atPosition cause ⟨n, file⟩).render (wideSource n) = .error .wideField := by
  refine (render_eq_error_iff (lineAt?_wideSource n)).2 fun hfits => ?_
  have hcolumn : column ⟨1, List.replicate n 'q' ++ ['#'], n⟩ = n := by
    cases n <;> simp [column, List.replicate_succ, isIndent]
  have hfit := hfits.2
  rw [hcolumn] at hfit
  omega

/-- The place is ASCII like all that stands before it, and neither indented nor followed by white space, but
the report would need a field of more than 65535 characters for its caret. -/
theorem wide_line_breaks :
    (∃ line before c after, Text.lineAt? (wideSource maxWidth).toList maxWidth = some line ∧
      line.text = before ++ c :: after ∧ Text.bytes before = line.offset ∧ (∀ x ∈ before, x.toNat < 128) ∧
      (¬ ∀ x ∈ before ++ [c], isIndent x) ∧ ¬ ∀ x ∈ c :: after, Text.isBlank x) ∧
    (atPosition (.unexpected "#") ⟨maxWidth, "main"⟩).render (wideSource maxWidth) = .error .wideField := by
  refine ⟨⟨_, _, '#', [], lineAt?_wideSource maxWidth, rfl, ?_, isAscii_replicate maxWidth,
    fun h => absurd (h '#' (by simp)) (by decide), fun h => absurd (h '#' (by simp)) (by decide)⟩,
    render_wideSource (Nat.le_refl _) _ _⟩
  rw [Text.bytes_of_ascii (isAscii_replicate maxWidth), List.length_replicate]

end Diagnostic

end ScriptAnalysis
