import ScriptAnalysis.CommandLine

/-! The program: it reads the file that the command line names, and writes what is found. -/
open ScriptAnalysis

def ScriptAnalysis.CommandLine.readFile? (path : String) : IO (Option ByteArray) := do
  try
    return some (← IO.FS.readBinFile path)
  catch _ =>
    return none

/-- Runs the program; arguments that cannot be read give code 2. -/
def main (words : List String) : IO UInt32 := do
  match CommandLine.Arguments.read? words with
  | none =>
    IO.eprintln CommandLine.usage
    return 2
  | some a =>
    let bytes ← CommandLine.readFile? a.file
    match CommandLine.runBytes (CommandLine.fileName a.file) bytes a.dumpTypes with
    | .ok o =>
      IO.print o.output
      return o.code.toUInt32
    | .error _ =>
      IO.eprintln "the analysis broke down"
      return 101
