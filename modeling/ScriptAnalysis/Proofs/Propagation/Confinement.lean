import ScriptAnalysis.Proofs.Propagation.Trace

/-!
What reactions may read and report. A confined reaction takes values from its inputs only, and all that it
may report is as stated, whatever the values are (`Reaction.Confined`). So does what it chains, and hence
every rule and every finding of a resolution (`Rule.confined_of_steps`).
-/
namespace ScriptAnalysis

def Slots.fails (s : Slots) (a : Attribute) : Bool :=
  match s a with
  | some .failed => true
  | _ => false

theorem Slots.fails_iff {s : Slots} {a : Attribute} : s.fails a = true ↔ s a = some .failed := by
  unfold fails
  split <;> simp_all

namespace Reaction

/-- What a reaction and the rules that it chains report if attributes come to the given slots. -/
def told (s : Slots) : Reaction → List Diagnostic
  | .done | .fault _ => []
  | .read a next => (next (s.value? a)).told s
  | .set _ _ next | .fail _ next => next.told s
  | .report d next => d :: next.told s
  | .chain _ inputs _ body next => (if inputs.any s.fails then [] else body.told s) ++ next.told s

/-- A reaction that reads only the given inputs, unless it goes on without the value as well and reports the
same, and reports only findings as stated. What it chains is confined to its own inputs. -/
def Confined (P : Diagnostic → Prop) : (inputs : List Attribute) → Reaction → Prop
  | _, .done | _, .fault _ => True
  | inputs, .read a next =>
    (a ∈ inputs ∨ ∀ o, next o ≠ .fault .unsetInput ∧ next o ≠ .fault .wrongKind ∧
      ∀ s, (next o).told s = (next none).told s) ∧ ∀ o, (next o).Confined P inputs
  | inputs, .set _ _ next | inputs, .fail _ next => next.Confined P inputs
  | inputs, .report d next => P d ∧ next.Confined P inputs
  | inputs, .chain _ inputs' _ body next => body.Confined P inputs' ∧ next.Confined P inputs

variable {P : Diagnostic → Prop} {inputs : List Attribute}

theorem confined_attempt {α : Type} {result : Except Fault α} {next : α → Reaction}
    (h : ∀ x, result = .ok x → (next x).Confined P inputs) : (attempt result next).Confined P inputs := by
  cases result with
  | error f => trivial
  | ok x => exact h x rfl

theorem Confined.mono {Q : Diagnostic → Prop} {r : Reaction} (h : r.Confined P inputs)
    (hQ : ∀ x, P x → Q x) : r.Confined Q inputs := by
  induction r generalizing inputs with
  | done | fault => trivial
  | read a next ih => exact ⟨h.1, fun o => ih o (h.2 o)⟩
  | set a v next ih => exact ih h
  | fail a next ih => exact ih h
  | report d next ih => exact ⟨hQ d h.1, ih h.2⟩
  | chain label inputs' outputs body next ihBody ih => exact ⟨ihBody h.1, ih h.2⟩

/-- All that a confined reaction may come to tell is as stated. -/
theorem Confined.of_mem_told {r : Reaction} (h : r.Confined P inputs) {s : Slots} {x : Diagnostic}
    (hx : x ∈ r.told s) : P x := by
  induction r generalizing inputs with
  | done | fault => cases hx
  | read a next ih => exact ih _ (h.2 _) hx
  | set a v next ih => exact ih h hx
  | fail a next ih => exact ih h hx
  | report d next ih =>
    rcases List.mem_cons.1 hx with rfl | hx
    · exact h.1
    · exact ih h.2 hx
  | chain label inputs' outputs body next ihBody ih =>
    rcases List.mem_append.1 hx with hx | hx
    · split at hx
      · cases hx
      · exact ihBody h.1 hx
    · exact ih h.2 hx

/-- What a confined reaction reports is as stated, and what it chains is confined. -/
theorem Confined.run {r : Reaction} {node : Node} {t : Attributes} {e : Effect}
    (h : r.Confined P inputs) (hr : r.run node t = .ok e) :
    (∀ x ∈ e.diagnostics, P x) ∧ ∀ c ∈ e.chained, c.body.Confined P c.inputs := by
  induction r generalizing t e with
  | done =>
    cases hr
    simp
  | fault f => cases hr
  | read a next ih => exact ih _ (h.2 _) hr
  | set a v next ih => exact ih h hr
  | fail a next ih => exact ih h hr
  | report d next ih =>
    obtain ⟨e', hn, rfl⟩ := exists_of_do hr
    obtain ⟨hfound, hchained⟩ := ih h.2 hn
    exact ⟨List.forall_mem_cons.2 ⟨h.1, hfound⟩, hchained⟩
  | chain label inputs' outputs body next _ ih =>
    obtain ⟨e', hn, rfl⟩ := exists_of_do hr
    obtain ⟨hfound, hchained⟩ := ih h.2 hn
    exact ⟨hfound, List.forall_mem_cons.2 ⟨h.1, hchained⟩⟩

end Reaction

namespace Rule

open Relation (ReflTransGen)

def Confined (P : Diagnostic → Prop) (r : Rule) : Prop := r.body.Confined P r.inputs

variable {P : Diagnostic → Prop} {S S' : State}

theorem Confined.step (hr : ∀ r ∈ S.agenda, r.Confined P) (hd : ∀ x ∈ S.diagnostics, P x)
    (h : Step S S') : (∀ r ∈ S'.agenda, r.Confined P) ∧ ∀ x ∈ S'.diagnostics, P x := by
  cases h with
  | drop hb =>
    simp only [List.forall_mem_append, List.forall_mem_cons] at hr ⊢
    exact ⟨⟨hr.1, hr.2.2⟩, hd⟩
  | fire hready hrun =>
    simp only [List.forall_mem_append, List.forall_mem_cons] at hr ⊢
    obtain ⟨hfound, hchained⟩ := Reaction.Confined.run hr.2.1 hrun
    exact ⟨⟨hr.1, hchained, hr.2.2⟩, hd, hfound⟩

/-- All rules and findings of a resolution are as its first rules are. -/
theorem confined_of_steps (hr : ∀ r ∈ S.agenda, r.Confined P) (hd : ∀ x ∈ S.diagnostics, P x)
    (h : ReflTransGen Step S S') : (∀ r ∈ S'.agenda, r.Confined P) ∧ ∀ x ∈ S'.diagnostics, P x := by
  induction h with
  | refl => exact ⟨hr, hd⟩
  | tail _ hstep ih => exact Confined.step ih.1 ih.2 hstep

end Rule

end ScriptAnalysis
