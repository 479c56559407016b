/-! Lengths of a text in UTF-8 bytes, its lines, and the line that holds a byte offset. -/
namespace ScriptAnalysis.Text

def bytes : List Char → Nat
  | [] => 0
  | c :: rest => c.utf8Size + bytes rest

/-- The text from a byte index on, if the index is at a character or at the end. -/
def dropBytes? : Nat → List Char → Option (List Char)
  | 0, text => some text
  | _ + 1, [] => none
  | n + 1, c :: rest => if c.utf8Size ≤ n + 1 then dropBytes? (n + 1 - c.utf8Size) rest else none

@[simp] theorem bytes_nil : bytes [] = 0 := rfl

@[simp] theorem bytes_cons (c : Char) (rest : List Char) :
    bytes (c :: rest) = c.utf8Size + bytes rest := rfl

@[simp] theorem bytes_append (s t : List Char) : bytes (s ++ t) = bytes s + bytes t := by
  induction s with
  | nil => simp
  | cons c s ih => simp [ih, Nat.add_assoc]

/-- The lines of a text; each keeps its line feed, and no line is empty. -/
def lines : List Char → List (List Char)
  | [] => []
  | c :: rest =>
    if c = '\n' then [c] :: lines rest
    else
      match lines rest with
      | [] => [[c]]
      | line :: others => (c :: line) :: others

structure Line where
  number : Nat
  text : List Char
  offset : Nat
  deriving DecidableEq, Repr

/-- Finds the line that holds `offset`, where the first line starts at `start`. -/
def Line.find? (offset : Nat) : (number start : Nat) → List (List Char) → Option Line
  | _, _, [] => none
  | number, start, line :: others =>
    let stop := start + bytes line
    if start ≤ offset ∧ offset < stop then some ⟨number, line, offset - start⟩
    else Line.find? offset (number + 1) stop others

/-- The line at a byte offset. The end of the text belongs to its last line, before the line feed. -/
def lineAt? (text : List Char) (offset : Nat) : Option Line :=
  match Line.find? offset 1 0 (lines text) with
  | some line => some line
  | none =>
    if offset = bytes text then
      let last := (lines text).getLast?.getD []
      some ⟨max 1 (lines text).length, last, bytes (last.takeWhile (· != '\n'))⟩
    else none

theorem flatten_lines (text : List Char) : (lines text).flatten = text := by
  induction text with
  | nil => rfl
  | cons c rest ih =>
    rw [lines]
    split
    · simp [ih]
    · split
      · next h => simp [h] at ih; simp [← ih]
      · next h => simp [h] at ih; simp [← ih]

end ScriptAnalysis.Text
