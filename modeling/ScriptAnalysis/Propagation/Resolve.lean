import ScriptAnalysis.Propagation.Agenda

/-!
Resolution of rules. Sweeps over the agenda settle every rule whose inputs are known; when a sweep
settles none, the rules that are left are stuck, and what they wait for is reported.
-/
namespace ScriptAnalysis

inductive Readiness where
  | blocked
  | ready
  | waiting
  deriving DecidableEq, Repr

inductive Event where
  | fired (r : Rule)
  | dropped (r : Rule)

def Event.firedLabel? : Event → Option String
  | .fired r => some r.label
  | .dropped _ => none

structure Sweep where
  attributes : Attributes
  diagnostics : List Diagnostic := []
  events : List Event := []
  waiting : List Rule := []

namespace Rule

def readiness (r : Rule) (t : Attributes) : Readiness :=
  if r.inputs.any t.isFailed then .blocked
  else if r.inputs.all t.isSet then .ready
  else .waiting

/-- One look at each rule, in order. A rule with a failed input fails its outputs; a rule whose
inputs are set fires, and what it chains waits in its place. -/
def sweep : Attributes → List Rule → Except Fault Sweep
  | t, [] => .ok { attributes := t }
  | t, r :: rest =>
    match r.readiness t with
    | .waiting => do
      let s ← sweep t rest
      return { s with waiting := r :: s.waiting }
    | .blocked => do
      let s ← sweep (t.failAll r.outputs) rest
      return { s with events := .dropped r :: s.events }
    | .ready => do
      let e ← r.body.run r.node t
      let s ← sweep e.attributes rest
      return { s with
        diagnostics := e.diagnostics ++ s.diagnostics
        events := .fired r :: s.events
        waiting := e.chained ++ s.waiting }

/-- A sweep keeps rules or replaces them by what they chain; if it settles one, it replaces one. -/
theorem replaces_of_sweep {t : Attributes} {rules : List Rule} {s : Sweep}
    (h : sweep t rules = .ok s) :
    Agenda.Replaces s.waiting rules ∧ (s.events ≠ [] → Agenda.Shrinks s.waiting rules) := by
  induction rules generalizing t s with
  | nil => cases h; exact ⟨.nil, fun h => absurd rfl h⟩
  | cons r rest ih =>
    rw [sweep] at h
    split at h
    · cases hs : sweep t rest with
      | error f => simp [hs, bind, Except.bind] at h
      | ok s' =>
        simp only [hs, bind, Except.bind, pure, Except.pure, Except.ok.injEq] at h
        subst h
        exact ⟨.keep (ih hs).1, fun he => .keep ((ih hs).2 he)⟩
    · cases hs : sweep (t.failAll r.outputs) rest with
      | error f => simp [hs, bind, Except.bind] at h
      | ok s' =>
        simp only [hs, bind, Except.bind, pure, Except.pure, Except.ok.injEq] at h
        subst h
        exact ⟨@Agenda.Replaces.expand r [] _ _ (by simp) (ih hs).1,
          fun _ => @Agenda.Shrinks.expand r [] _ _ (by simp) (ih hs).1⟩
    · cases he : r.body.run r.node t with
      | error f => simp [he, bind, Except.bind] at h
      | ok e =>
        cases hs : sweep e.attributes rest with
        | error f => simp [he, hs, bind, Except.bind] at h
        | ok s' =>
          simp only [he, hs, bind, Except.bind, pure, Except.pure, Except.ok.injEq] at h
          subst h
          have hc := Reaction.chains_of_run he
          exact ⟨.expand hc (ih hs).1, fun _ => .expand hc (ih hs).1⟩

/-- Sweeps until no rule waits or a sweep settles none. -/
def settle (t : Attributes) (agenda : List Rule) : Except Fault Sweep :=
  match h : sweep t agenda with
  | .error f => .error f
  | .ok s =>
    if hs : s.events = [] ∨ s.waiting = [] then .ok s
    else
      have _shrinks : Agenda.Shrinks s.waiting agenda :=
        (replaces_of_sweep h).2 fun he => hs (.inl he)
      match settle s.attributes s.waiting with
      | .error f => .error f
      | .ok later => .ok { later with
          diagnostics := s.diagnostics ++ later.diagnostics
          events := s.events ++ later.events }
termination_by Agenda.mk agenda
decreasing_by exact _shrinks

def unknownInputs (r : Rule) (t : Attributes) : List Attribute :=
  r.inputs.filter fun a => !t.isKnown a

/-- The pairs whose attribute is neither in a list nor in an earlier pair. -/
def firstOccurrences : (seen : List Attribute) → List (Attribute × Node) → List (Attribute × Node)
  | _, [] => []
  | seen, p :: rest =>
    if p.1 ∈ seen then firstOccurrences seen rest else p :: firstOccurrences (p.1 :: seen) rest

/-- What stuck rules wait for and no stuck rule would produce, each once, with the node that waits. -/
def unproducible (t : Attributes) (stuck : List Rule) : List (Attribute × Node) :=
  let outputs := stuck.flatMap outputs
  firstOccurrences outputs
    (stuck.flatMap fun r => (r.unknownInputs t).map fun a => (a, r.node))

/-- The findings about stuck rules: each attribute that nothing produces, or else a cycle. -/
def stuckDiagnostics (t : Attributes) : List Rule → List Diagnostic
  | [] => []
  | first :: rest =>
    match unproducible t (first :: rest) with
    | [] =>
      let waitsFor := ((first.unknownInputs t).head?.map Attribute.render).getD ""
      [.atNode (.cyclicDependency waitsFor) first.node]
    | missing => missing.map fun (a, node) => .atNode (.unresolvedAttribute a.render) node

end Rule

structure Resolution where
  attributes : Attributes
  diagnostics : List Diagnostic
  events : List Event
  stuck : List Rule

/-- Settles all rules that can be settled, reports the others and fails their outputs. -/
def Rule.resolve (t : Attributes) (rules : List Rule) : Except Fault Resolution := do
  let s ← settle t rules
  return {
    attributes := s.waiting.foldl (fun t r => t.failAll r.outputs) s.attributes
    diagnostics := s.diagnostics ++ stuckDiagnostics s.attributes s.waiting
    events := s.events
    stuck := s.waiting }

structure Engine where
  attributes : Attributes := {}
  rules : List Rule := []
  diagnostics : List Diagnostic := []

namespace Engine

def addRule (e : Engine) (r : Rule) : Engine := { e with rules := e.rules ++ [r] }

def report (e : Engine) (d : Diagnostic) : Engine :=
  { e with diagnostics := e.diagnostics ++ [d] }

/-- Resolves all rules; none is left, and what became of them is told. -/
def resolve (e : Engine) : Except Fault (Engine × Resolution) := do
  let r ← Rule.resolve e.attributes e.rules
  return ({ attributes := r.attributes, diagnostics := e.diagnostics ++ r.diagnostics }, r)

end Engine

end ScriptAnalysis
