import ScriptAnalysis.Diagnostic.Report
import ScriptAnalysis.Grammar.Stmt
import ScriptAnalysis.Token.Reader
import ScriptAnalysis.Typing.Analysis

/-! The command line: its arguments, and what a run writes about a source file. -/
namespace ScriptAnalysis.CommandLine

structure Arguments where
  file : String
  logLevel : Option String := none
  dumpTypes : Bool := false
  deriving DecidableEq, Repr

structure Pending where
  file : Option String := none
  logLevel : Option String := none
  dumpTypes : Bool := false
  deriving DecidableEq, Repr

namespace Pending

def addFile (p : Pending) (file : String) : Option Pending :=
  if p.file.isSome then none else some { p with file := some file }

/-- Takes the log level, which is given at most once. -/
def addLogLevel (p : Pending) (level : String) : Option Pending :=
  if p.logLevel.isSome then none else some { p with logLevel := some level }

def addDumpTypes (p : Pending) : Option Pending :=
  if p.dumpTypes then none else some { p with dumpTypes := true }

def finish (p : Pending) : Option Arguments :=
  p.file.map fun file => { file, logLevel := p.logLevel, dumpTypes := p.dumpTypes }

end Pending

/-- Whether a word is an option and not a value; a single dash is a value. -/
def isOption (word : String) : Bool := word.startsWith "-" && word ≠ "-"

def readWords : Pending → List String → Option Arguments
  | p, [] => p.finish
  | p, "--" :: files => (files.foldlM Pending.addFile p).bind Pending.finish
  | p, "--dump-types" :: rest => p.addDumpTypes.bind (readWords · rest)
  | p, "--log-level" :: level :: rest =>
    if isOption level then none else (p.addLogLevel level).bind (readWords · rest)
  | p, word :: rest =>
    match word.toList.splitAt "--log-level=".length with
    | (mark, level) =>
      if mark = "--log-level=".toList then
        (p.addLogLevel (String.ofList level)).bind (readWords · rest)
      else if isOption word then none
      else (p.addFile word).bind (readWords · rest)

def Arguments.read? (words : List String) : Option Arguments := readWords {} words

def usage : String := "usage: [--log-level LEVEL] [--dump-types] FILE"

/-- The last name in a path, or the whole path if it ends in none. -/
def fileName (path : String) : String :=
  match ((path.splitOn "/").filter fun part => part ≠ "" ∧ part ≠ ".").getLast? with
  | none | some ".." => path
  | some name => name

structure Outcome where
  output : String
  code : Nat
  deriving DecidableEq, Repr

/-- The reports of findings, each followed by an empty line. The first that cannot be made ends the run. -/
def refusal (source : String) : List Diagnostic → Outcome
  | [] => ⟨"", 1⟩
  | d :: rest =>
    match d.render source with
    | .error _ => ⟨"", 101⟩
    | .ok report =>
      let later := refusal source rest
      ⟨report ++ "\n" ++ later.output, later.code⟩

def typeLine (a : Analysis) (id : DeclId) : Except Fault String := do
  let name := (← a.tables.declarations.get id).name
  match a.declarationType? id with
  | some t => return name ++ ": " ++ (← t.render) ++ "\n"
  | none => return name ++ ": <unknown>\n"

def typeLines (p : Program) (a : Analysis) : Except Fault String := do
  let ids := p.body.filterMap (a.declaredBy? ·.id)
  return String.join (← ids.mapM (typeLine a))

inductive Breakdown where
  | fault (f : Fault)
  | exhausted
  deriving DecidableEq, Repr

/-- The outcome for a source text: reports of what is wrong with it, or the types of its declarations
if they are asked for, and `ok`. -/
def run (file source : String) (dumpTypes : Bool) : Except Breakdown Outcome :=
  match Token.tokenize source file with
  | .error d => .ok (refusal source [d])
  | .ok tokens =>
    match Program.parse tokens file with
    | .error (.rejected d) _ => .ok (refusal source [d])
    | .error .exhausted _ => .error .exhausted
    | .ok p _ =>
      match p.analyse with
      | .error f => .error (.fault f)
      | .ok a =>
        if !a.diagnostics.isEmpty then .ok (refusal source a.diagnostics)
        else if dumpTypes then
          match typeLines p a with
          | .error f => .error (.fault f)
          | .ok text => .ok ⟨text ++ "ok\n", 0⟩
        else .ok ⟨"ok\n", 0⟩

/-- The outcome for the bytes of a file; a file that cannot be read as text gives none. -/
def runBytes (file : String) (bytes : Option ByteArray) (dumpTypes : Bool) :
    Except Breakdown Outcome :=
  match bytes.bind String.fromUTF8? with
  | some source => run file source dumpTypes
  | none => .ok ⟨"", 1⟩

end ScriptAnalysis.CommandLine
