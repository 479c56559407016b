import ScriptAnalysis.Propagation.Resolve
import ScriptAnalysis.Typing.Walk

/-! The analysis of a program: the walk over it, and the resolution of what the walk leaves. -/
namespace ScriptAnalysis

structure Analysis where
  tables : Tables
  attributes : Attributes
  diagnostics : List Diagnostic

namespace Draft

def after (walk : Walk Unit) : Except Fault Draft :=
  match walk {} with
  | .ok _ d => .ok d
  | .error f _ => .error f

/-- The draft of a program of which nothing has been walked. -/
def initial : Except Fault Draft := after Builtin.declareAll

def rules (d : Draft) : List Rule := d.obligations.toList.map (·.rule d.tables)

/-- The analysis that a draft leads to. Findings at one offset stay in the order they were made. -/
def resolve (d : Draft) : Except Fault Analysis := do
  let r ← Rule.resolve d.attributes d.rules
  return {
    tables := d.tables
    attributes := r.attributes
    diagnostics := (d.diagnostics ++ r.diagnostics).mergeSort
      fun a b => a.span.start.offset ≤ b.span.start.offset }

end Draft

def Program.analyse (p : Program) : Except Fault Analysis := do
  let d ← Draft.after do
    Builtin.declareAll
    Walk.program p
  d.resolve

namespace Analysis

def declarationType? (a : Analysis) (id : DeclId) : Option Ty := a.attributes.type? (.typeOfDecl id)

def declaredBy? (a : Analysis) (node : NodeId) : Option DeclId := a.tables.declarations.forNode? node

def typeOf? (a : Analysis) (node : NodeId) : Option Ty :=
  (a.attributes.type? (.typeOf node)).or ((a.declaredBy? node).bind a.declarationType?)

def declaredType? (a : Analysis) (node : NodeId) : Option Ty :=
  (a.declaredBy? node).bind fun id => a.attributes.type? (.declaredBy id)

end Analysis

end ScriptAnalysis
