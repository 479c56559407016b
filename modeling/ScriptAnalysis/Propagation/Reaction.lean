import ScriptAnalysis.Attribute.Basic
import ScriptAnalysis.Diagnostic.Basic

/-!
Rules and reactions. A rule waits for its inputs and then reacts: it reads attributes, fills or fails
slots, reports findings, and chains further rules. Reactions are trees, so a chain of rules is finite
whatever the values read.
-/
namespace ScriptAnalysis

inductive Reaction where
  | done
  | read (a : Attribute) (next : Option Value → Reaction)
  | set (a : Attribute) (v : Value) (next : Reaction)
  | fail (a : Attribute) (next : Reaction)
  | report (d : Diagnostic) (next : Reaction)
  /-- Hands over to a rule whose inputs became known only now. -/
  | chain (label : String) (inputs outputs : List Attribute) (body next : Reaction)
  | fault (f : Fault)

structure Rule where
  label : String := ""
  inputs : List Attribute
  outputs : List Attribute
  node : Node
  body : Reaction

structure Effect where
  attributes : Attributes
  diagnostics : List Diagnostic := []
  chained : List Rule := []

namespace Reaction

/-- Runs a reaction on a table; chained rules belong to the given node. -/
def run (node : Node) : Reaction → Attributes → Except Fault Effect
  | .done, t => .ok { attributes := t }
  | .read a next, t => (next (t.get? a)).run node t
  | .set a v next, t => next.run node (t.set a v)
  | .fail a next, t => next.run node (t.fail a)
  | .report d next, t => do
    let e ← next.run node t
    return { e with diagnostics := d :: e.diagnostics }
  | .chain label inputs outputs body next, t => do
    let e ← next.run node t
    return { e with chained := { label, inputs, outputs, node, body } :: e.chained }
  | .fault f, _ => .error f

def readValue (a : Attribute) (next : Value → Reaction) : Reaction :=
  .read a fun
    | some v => next v
    | none => .fault .unsetInput

def readType (a : Attribute) (next : Ty → Reaction) : Reaction :=
  readValue a fun
    | .type t => next t
    | _ => .fault .wrongKind

def readFlag (a : Attribute) (next : Bool → Reaction) : Reaction :=
  readValue a fun
    | .flag b => next b
    | _ => .fault .wrongKind

def readDecl (a : Attribute) (next : DeclId → Reaction) : Reaction :=
  readValue a fun
    | .decl d => next d
    | _ => .fault .wrongKind

def readScope (a : Attribute) (next : ScopeId → Reaction) : Reaction :=
  readValue a fun
    | .scope s => next s
    | _ => .fault .wrongKind

def readTypes : List Attribute → (List Ty → Reaction) → Reaction
  | [], next => next []
  | a :: as, next => readType a fun t => readTypes as fun ts => next (t :: ts)

/-- Reads truth values up to the first that is false. -/
def readAllFlags : List Attribute → (Bool → Reaction) → Reaction
  | [], next => next true
  | a :: as, next => readFlag a fun b => if b then readAllFlags as next else next false

def attempt {α : Type} (result : Except Fault α) (next : α → Reaction) : Reaction :=
  match result with
  | .ok a => next a
  | .error f => .fault f

/-- Continues with the attribute at a position of the inputs of a rule. -/
def withInput (inputs : List Attribute) (i : Nat) (next : Attribute → Reaction) : Reaction :=
  match inputs[i]? with
  | some a => next a
  | none => .fault .noSuchInput

def withInputs (inputs : List Attribute) (positions : List Nat) (next : List Attribute → Reaction) : Reaction :=
  match positions.mapM (inputs[·]?) with
  | some as => next as
  | none => .fault .noSuchInput

/-- Continues with the attribute at a position of the outputs of a rule. -/
def withOutput (outputs : List Attribute) (i : Nat) (next : Attribute → Reaction) : Reaction :=
  match outputs[i]? with
  | some a => next a
  | none => .fault .noSuchOutput

def typeAt (inputs : List Attribute) (i : Nat) (next : Ty → Reaction) : Reaction :=
  withInput inputs i (readType · next)

def flagAt (inputs : List Attribute) (i : Nat) (next : Bool → Reaction) : Reaction :=
  withInput inputs i (readFlag · next)

def declAt (inputs : List Attribute) (i : Nat) (next : DeclId → Reaction) : Reaction :=
  withInput inputs i (readDecl · next)

def scopeAt (inputs : List Attribute) (i : Nat) (next : ScopeId → Reaction) : Reaction :=
  withInput inputs i (readScope · next)

def typesAt (inputs : List Attribute) (positions : List Nat) (next : List Ty → Reaction) : Reaction :=
  withInputs inputs positions (readTypes · next)

def allFlagsAt (inputs : List Attribute) (positions : List Nat) (next : Bool → Reaction) : Reaction :=
  withInputs inputs positions (readAllFlags · next)

def setAt (outputs : List Attribute) (i : Nat) (v : Value) (next : Reaction) : Reaction :=
  withOutput outputs i (.set · v next)

def failAll (as : List Attribute) (next : Reaction) : Reaction := as.foldr .fail next

def refuse (d : Diagnostic) (failed : List Attribute) : Reaction := .report d (failAll failed .done)

def copyType (inputs outputs : List Attribute) : Reaction :=
  typeAt inputs 0 fun t => setAt outputs 0 (.type t) .done

theorem copyType_eq (a b : Attribute) : copyType [a] [b] = readType a fun t => .set b (.type t) .done := rfl

def handOver (inputs outputs : List Attribute) (body : List Attribute → List Attribute → Reaction) : Reaction :=
  .chain "" inputs outputs (body inputs outputs) .done

end Reaction

end ScriptAnalysis
