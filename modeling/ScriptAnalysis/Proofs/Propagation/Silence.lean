import Mathlib.Data.List.Forall2
import ScriptAnalysis.Proofs.Propagation.Step

/-!
Reactions without findings. When nothing is reported and nothing has failed, every rule has fired
(`Rule.Fate.silent`), and each of its steps tells something about the table in the end: what it read is
there, and none of its reports was made.
-/
namespace ScriptAnalysis

/-- A reaction that has run without findings on the way to a table, as did what it chained. -/
def Reaction.Silent (final : Attributes) (node : Node) (r : Reaction) : Prop :=
  ∃ t e, r.run node t = .ok e ∧ e.attributes.Grows final ∧ e.diagnostics = [] ∧
    ∀ c ∈ e.chained, c.Fate ⟨final, [], []⟩

theorem Rule.Fate.silent {final : Attributes} {r : Rule} (h : r.Fate ⟨final, [], []⟩)
    (hf : ∀ a, final.isFailed a = false) : r.body.Silent final r.node := by
  cases h with
  | pending h => cases h
  | dropped i _ h =>
    rw [hf i] at h
    cases h
  | @fired _ t e _ run grows told chained =>
    have hnil : e.diagnostics = [] := List.eq_nil_iff_forall_not_mem.2 fun d hd => by
      cases told d hd
    exact ⟨t, e, run, grows, hnil, chained⟩

namespace Reaction.Silent

variable {final : Attributes} {node : Node} {a : Attribute} {next : Reaction}

theorem read {next : Option Value → Reaction} (h : (Reaction.read a next).Silent final node) :
    ∃ o, (∀ v, o = some v → final.get? a = some v) ∧ (next o).Silent final node := by
  obtain ⟨t, e, hrun, hgrows, hrest⟩ := h
  rw [run] at hrun
  refine ⟨t.get? a, fun v hv => ?_, t, e, hrun, hgrows, hrest⟩
  exact ((grows_run hrun).trans hgrows).get? hv

theorem set {v : Value} (h : (Reaction.set a v next).Silent final node) :
    next.Silent final node := by
  obtain ⟨t, e, hrun, hrest⟩ := h
  exact ⟨t.set a v, e, hrun, hrest⟩

theorem not_fault {f : Fault} : ¬(Reaction.fault f).Silent final node := by
  rintro ⟨t, e, hrun, _⟩
  cases hrun

theorem not_report {d : Diagnostic} : ¬(Reaction.report d next).Silent final node := by
  rintro ⟨t, e, hrun, _, hnil, _⟩
  obtain ⟨e', _, rfl⟩ := exists_of_do hrun
  cases hnil

theorem chain {label : String} {inputs outputs : List Attribute} {body : Reaction}
    (h : (Reaction.chain label inputs outputs body next).Silent final node) :
    Rule.Fate ⟨final, [], []⟩ ⟨label, inputs, outputs, node, body⟩ := by
  obtain ⟨t, e, hrun, _, _, hchained⟩ := h
  obtain ⟨e', _, rfl⟩ := exists_of_do hrun
  exact hchained _ List.mem_cons_self

theorem readValue {next : Value → Reaction} (h : (Reaction.readValue a next).Silent final node) :
    ∃ v, final.get? a = some v ∧ (next v).Silent final node := by
  obtain ⟨o, ho, h⟩ := h.read
  cases o with
  | none => exact absurd h not_fault
  | some v => exact ⟨v, ho v rfl, h⟩

theorem readType {next : Ty → Reaction} (h : (Reaction.readType a next).Silent final node) :
    ∃ t, final.type? a = some t ∧ (next t).Silent final node := by
  obtain ⟨v, hv, h⟩ := h.readValue
  cases v with
  | type t => exact ⟨t, by simp [Attributes.type?, hv], h⟩
  | flag | decl | scope => exact absurd h not_fault

theorem readFlag {next : Bool → Reaction} (h : (Reaction.readFlag a next).Silent final node) :
    ∃ b, final.flag? a = some b ∧ (next b).Silent final node := by
  obtain ⟨v, hv, h⟩ := h.readValue
  cases v with
  | flag b => exact ⟨b, by simp [Attributes.flag?, hv], h⟩
  | type | decl | scope => exact absurd h not_fault

theorem readScope {next : ScopeId → Reaction} (h : (Reaction.readScope a next).Silent final node) :
    ∃ s, final.scope? a = some s ∧ (next s).Silent final node := by
  obtain ⟨v, hv, h⟩ := h.readValue
  cases v with
  | scope s => exact ⟨s, by simp [Attributes.scope?, hv], h⟩
  | type | flag | decl => exact absurd h not_fault

theorem readTypes {as : List Attribute} {next : List Ty → Reaction}
    (h : (Reaction.readTypes as next).Silent final node) :
    ∃ ts, List.Forall₂ (fun a t => final.type? a = some t) as ts ∧
      (next ts).Silent final node := by
  induction as generalizing next with
  | nil => exact ⟨[], .nil, h⟩
  | cons a as ih =>
    obtain ⟨t, ht, h⟩ := h.readType
    obtain ⟨ts, hts, h⟩ := ih h
    exact ⟨t :: ts, .cons ht hts, h⟩

theorem attempt {α : Type} {result : Except Fault α} {next : α → Reaction}
    (h : (Reaction.attempt result next).Silent final node) :
    ∃ x, result = .ok x ∧ (next x).Silent final node := by
  cases result with
  | error f => exact absurd h not_fault
  | ok x => exact ⟨x, rfl, h⟩

/-- A check whose other branch reports something. -/
theorem of_ite {c : Prop} [Decidable c] {r : Reaction} (h : (if c then r else next).Silent final node)
    (hnext : ¬next.Silent final node) : c ∧ r.Silent final node := by
  split at h
  · next hc => exact ⟨hc, h⟩
  · exact absurd h hnext

theorem not_refuse {d : Diagnostic} {failed : List Attribute} :
    ¬(refuse d failed).Silent final node :=
  not_report

end Reaction.Silent

end ScriptAnalysis
