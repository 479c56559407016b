import ScriptAnalysis.Diagnostic.Basic
import ScriptAnalysis.Text.Line

/-!
The report of a diagnostic: title and tip, the file, and the line of source with a caret under the
place. Fields that a text is aligned in are at most 65535 characters wide.
-/
namespace ScriptAnalysis.Diagnostic

def maxWidth : Nat := 65535

def alignRight (fill : Char) (width : Nat) (text : String) : Except Fault String :=
  if width ≤ maxWidth then .ok (String.ofList (List.replicate (width - text.length) fill) ++ text)
  else .error .wideField

def heading (cause : Cause) : String :=
  match cause.tip? with
  | none => "Error: " ++ cause.title ++ "\n"
  | some tip => "Error: " ++ cause.title ++ " (" ++ tip ++ ")\n"

def isIndent (c : Char) : Bool := c = ' ' || c = '\t'

/-- The number of dashes before the caret: as many as stand before the place, less the indentation. -/
def column (line : Text.Line) : Nat := line.offset - (line.text.takeWhile isIndent).length

/-- The source line without its indentation, and a caret under the place. -/
def excerpt (line : Text.Line) : Except Fault String := do
  let number := toString line.number
  let bar ← alignRight ' ' (number.length + 2) "|"
  let text := String.ofList (Text.trimRight (line.text.dropWhile isIndent))
  let caret ← alignRight '-' (column line + 1) "^"
  return bar ++ "\n" ++ number ++ " | " ++ text ++ "\n" ++ bar ++ " " ++ caret ++ "\n"

/-- The report of a diagnostic against the text that it is about. -/
def render (d : Diagnostic) (source : String) : Except Fault String := do
  let start := d.span.start
  let place ← match Text.lineAt? source.toList start.offset with
    | none => pure ""
    | some line => excerpt line
  return heading d.cause ++ "-> " ++ start.file ++ "\n" ++ place

end ScriptAnalysis.Diagnostic
