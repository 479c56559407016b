import ScriptAnalysis.Proofs.Propagation.Confinement
import ScriptAnalysis.Proofs.Propagation.Conformance

/-!
What a resolution finds, whatever the order in which it settles the rules. A rule that is confined to its
inputs tells what its reaction tells on the values of the solution (`Rule.told`); there the reads that the
reaction begins with may be answered beforehand (`Reaction.answered`). Each step of a resolution that keeps
to the solution moves findings from the agenda to those that are told. So all that is found in the end is
the sum over the first rules (`Rule.Completed.perm_told`).
-/
namespace ScriptAnalysis

variable {sol : Solution} {P : Diagnostic → Prop}

namespace Rule

/-- What a rule comes to tell: nothing if one of its inputs fails. -/
def told (sol : Solution) (r : Rule) : List Diagnostic :=
  if r.inputs.any (Slots.fails sol) then [] else r.body.told sol

theorem told_of_failed {r : Rule} {i : Attribute} (hi : i ∈ r.inputs) (h : sol i = some .failed) :
    r.told sol = [] := by
  rw [told, if_pos (List.any_eq_true.2 ⟨i, hi, Slots.fails_iff.2 h⟩)]

theorem told_of_set {r : Rule} (h : ∀ i ∈ r.inputs, ∃ v, sol i = some (.set v)) :
    r.told sol = r.body.told sol := by
  rw [told, if_neg]
  rw [List.any_eq_true]
  rintro ⟨i, hi, hf⟩
  obtain ⟨v, hv⟩ := h i hi
  rw [Slots.fails_iff, hv] at hf
  cases hf

end Rule

namespace Reaction

variable {s : Slots} {a : Attribute}

def answered (s : Slots) : Reaction → Reaction
  | .read a next => (next (s.value? a)).answered s
  | r => r

theorem told_answered (s : Slots) (r : Reaction) : (r.answered s).told s = r.told s := by
  induction r with
  | read a next ih => exact ih _
  | _ => rfl

theorem run_answered (node : Node) (t : Attributes) (r : Reaction) :
    (r.answered t.slot?).run node t = r.run node t := by
  induction r with
  | read a next ih => exact ih _
  | _ => rfl

theorem answered_readType {next : Ty → Reaction} {t : Ty} (h : s.value? a = some (.type t)) :
    (readType a next).answered s = (next t).answered s := by
  simp only [readType, readValue, answered, h]

theorem answered_readScope {next : ScopeId → Reaction} {i : ScopeId}
    (h : s.value? a = some (.scope i)) : (readScope a next).answered s = (next i).answered s := by
  simp only [readScope, readValue, answered, h]

theorem answered_readTypes {as : List Attribute} {next : List Ty → Reaction} {ts : List Ty}
    (h : List.Forall₂ (fun a t => s.value? a = some (.type t)) as ts) :
    (readTypes as next).answered s = (next ts).answered s := by
  induction h generalizing next with
  | nil => rfl
  | cons ht _ ih =>
    rw [readTypes, answered_readType ht]
    exact ih

end Reaction

/-- A reaction that runs on the values of a solution tells what it comes to tell, or leaves it to the rules
that it chains. -/
theorem Reaction.Confined.perm_told {r : Reaction} {inputs : List Attribute} (h : r.Confined P inputs)
    {node : Node} {t : Attributes} {e : Effect}
    (hin : ∀ i ∈ inputs, ∃ v, t.get? i = some v ∧ sol i = some (.set v)) (hr : r.run node t = .ok e) :
    (e.diagnostics ++ e.chained.flatMap (Rule.told sol)).Perm (r.told sol) := by
  induction r generalizing t e with
  | done =>
    cases hr
    exact .nil
  | fault f => cases hr
  | read a next ih =>
    obtain ⟨ha, hnext⟩ := h
    have hrun := ih _ (hnext _) hin hr
    rcases ha with ha | hpeek
    · obtain ⟨v, hv, hsol⟩ := hin a ha
      rw [hv] at hrun
      rwa [told, Slots.value?_eq_some.2 hsol]
    · rwa [told, (hpeek _).2.2 sol, ← (hpeek (t.get? a)).2.2 sol]
  | set a v next ih =>
    refine ih h (fun i hi => ?_) hr
    obtain ⟨w, hw, hsol⟩ := hin i hi
    exact ⟨w, (t.grows_set a v).get? hw, hsol⟩
  | fail a next ih =>
    refine ih h (fun i hi => ?_) hr
    obtain ⟨w, hw, hsol⟩ := hin i hi
    exact ⟨w, (t.grows_fail a).get? hw, hsol⟩
  | report d next ih =>
    obtain ⟨e', hn, rfl⟩ := exists_of_do hr
    exact (ih h.2 hin hn).cons d
  | chain label inputs' outputs body next _ ih =>
    obtain ⟨e', hn, rfl⟩ := exists_of_do hr
    have hrest := (ih h.2 hin hn).append_left (Rule.told sol ⟨label, inputs', outputs, node, body⟩)
    rw [List.flatMap_cons]
    exact (List.perm_append_comm_assoc _ _ _).trans hrest

namespace Rule

open Relation (ReflTransGen)

variable {ι : Type} [Preorder ι] {rank : Attribute → ι} {first S S' : State}

/-- What has been told in a state, and what is still to come. -/
def State.told (sol : Solution) (S : State) : List Diagnostic :=
  S.diagnostics ++ S.agenda.flatMap (Rule.told sol)

/-- A step tells what was to come from the rule that it settles. -/
theorem Step.perm_told (h : Step S S') (hkept : Kept sol rank first S) (hr : ∀ r ∈ S.agenda, r.Confined P) :
    (S'.told sol).Perm (S.told sol) := by
  cases h with
  | @drop t ds before r after hb =>
    obtain ⟨i, hi, hf⟩ := readiness_eq_blocked.1 hb
    have hnone := told_of_failed hi (hkept.within i _ (Attributes.isFailed_iff.1 hf))
    simp [State.told, hnone]
  | @fire t ds before r after e hready hrun =>
    have hset := readiness_eq_ready.1 hready
    have hin : ∀ i ∈ r.inputs, ∃ v, t.get? i = some v ∧ sol i = some (.set v) := by
      intro i hi
      obtain ⟨v, hv⟩ := Attributes.isSet_iff.1 (hset i hi)
      exact ⟨v, Attributes.get?_eq_some.2 hv, hkept.within i _ hv⟩
    have hperm := Reaction.Confined.perm_told (hr r (by simp)) hin hrun
    rw [← told_of_set fun i hi => (hin i hi).imp fun _ h => h.2] at hperm
    simp only [State.told, List.flatMap_append, List.flatMap_cons, List.append_assoc]
    refine .append_left ds ?_
    calc e.diagnostics ++ (before.flatMap (told sol) ++
          (e.chained.flatMap (told sol) ++ after.flatMap (told sol)))
      _ |>.Perm (before.flatMap (told sol) ++ (e.diagnostics ++
          (e.chained.flatMap (told sol) ++ after.flatMap (told sol)))) := List.perm_append_comm_assoc _ _ _
      _ |>.Perm (before.flatMap (told sol) ++ (r.told sol ++ after.flatMap (told sol))) := by
        rw [← List.append_assoc e.diagnostics]
        exact (hperm.append_right _).append_left _

/-- All states of a resolution come to the same findings. -/
theorem perm_told_of_steps (hkept : Kept sol rank first first)
    (hr : ∀ r ∈ first.agenda, r.Confined fun _ => True) (h : ReflTransGen Step first S) :
    (S.told sol).Perm (first.told sol) := by
  induction h with
  | refl => exact .refl _
  | tail hS hstep ih =>
    exact (hstep.perm_told (hkept.steps hS) (confined_of_steps hr (fun _ _ => trivial) hS).1).trans ih

end Rule

end ScriptAnalysis
