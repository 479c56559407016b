import ScriptAnalysis.Proofs.Propagation.Findings
import ScriptAnalysis.Proofs.Typing.Confinement
import ScriptAnalysis.Proofs.Typing.Resolved

/-!
The findings of an analysis. They are those of the walk and, for each obligation that the walk leaves, what
its rule comes to tell on the solution (`Program.Analysed.perm_told`). Findings of one kind that only one
obligation can come to are therefore those of its rule (`Program.Analysed.perm_filter`).
-/
namespace ScriptAnalysis

theorem flatMap_filter_of_nil {α β : Type} {f : α → List β} {keep : α → Bool} {l : List α}
    (h : ∀ x ∈ l, keep x = false → f x = []) : (l.filter keep).flatMap f = l.flatMap f := by
  induction l with
  | nil => rfl
  | cons x l ih =>
    rw [List.forall_mem_cons] at h
    cases hx : keep x with
    | false => rw [List.filter_cons_of_neg (by simp [hx]), List.flatMap_cons, h.1 hx, ih h.2, List.nil_append]
    | true => rw [List.filter_cons_of_pos hx, List.flatMap_cons, List.flatMap_cons, ih h.2]

/-- What the rule of an obligation comes to tell. -/
def Obligation.told (t : Tables) (sol : Solution) (o : Obligation) : List Diagnostic :=
  (o.rule t).told sol

/-- The rule of an obligation comes to the findings of its goal only. -/
theorem Obligation.tells_of_mem_told {t : Tables} {sol : Solution} {o : Obligation} {x : Diagnostic}
    (h : x ∈ o.told t sol) : o.goal.Tells t o.node x := by
  unfold told Rule.told at h
  split at h
  · cases h
  · exact (Goal.confined_tells t o.node o.goal).of_mem_told h

/-- Where the draft of a program leads, the same is told in the end. -/
theorem Program.Drafted.perm_told {p : Program} {d : Draft} {S : Rule.State} (hp : p.Numbered)
    (hd : p.Drafted d) (h : Relation.ReflTransGen Rule.Step d.state S) (hnil : S.agenda = []) :
    S.diagnostics.Perm
      (d.diagnostics ++ d.obligations.toList.flatMap (Obligation.told d.tables (d.names p).solution)) := by
  have hconfined : ∀ r ∈ d.state.agenda, r.Confined fun _ => True := by
    intro r hr
    obtain ⟨o, _, rfl⟩ := List.mem_map.1 hr
    exact (Goal.confined_tells d.tables o.node o.goal).mono fun _ _ => trivial
  have hend := Rule.perm_told_of_steps (hd.kept hp) hconfined h
  have hfirst : d.state.told (d.names p).solution = d.diagnostics ++
      d.obligations.toList.flatMap (Obligation.told d.tables (d.names p).solution) := by
    show d.diagnostics ++ (d.obligations.toList.map (·.rule d.tables)).flatMap _ = _
    rw [List.flatMap_map]
    rfl
  rw [hfirst] at hend
  simpa only [Rule.State.told, hnil, List.flatMap_nil, List.append_nil] using hend

namespace Program.Analysed

variable {p : Program} {d : Draft} {a : Analysis}

/-- The findings of an analysis are those of the walk, and what is told of each obligation. -/
theorem perm_told (hp : p.Numbered) (h : p.Analysed d a) : a.diagnostics.Perm
    (d.diagnostics ++ d.obligations.toList.flatMap (Obligation.told d.tables (d.names p).solution)) := by
  obtain ⟨ds, hds, hsteps⟩ := h.reached
  exact hds.trans (h.drafted.perm_told hp hsteps rfl)

/-- Findings that the walk does not have and that no other obligation comes to are told of the one. -/
theorem perm_filter (hp : p.Numbered) (h : p.Analysed d a) {kind : Diagnostic → Bool}
    {keep : Obligation → Bool} {o : Obligation}
    (hwalk : ∀ x, x.cause.isEarly = true → kind x = false)
    (honly : d.obligations.toList.filter keep = [o])
    (hother : ∀ o' x, keep o' = false → o'.goal.Tells d.tables o'.node x → kind x = false) :
    (a.diagnostics.filter kind).Perm ((o.told d.tables (d.names p).solution).filter kind) := by
  have hearly : d.diagnostics.filter kind = [] := by
    rw [List.filter_eq_nil_iff]
    intro x hx
    obtain ⟨s, _, hfinds, _⟩ := found_of_walk h.walked hx
    simp [hwalk x (Site.early_of_finds hfinds).1]
  have hnil : ∀ o' ∈ d.obligations.toList, keep o' = false →
      (o'.told d.tables (d.names p).solution).filter kind = [] := by
    intro o' _ ho'
    rw [List.filter_eq_nil_iff]
    intro x hx
    simp [hother o' x ho' (Obligation.tells_of_mem_told hx)]
  have hperm := (h.perm_told hp).filter kind
  rwa [List.filter_append, hearly, List.nil_append, List.filter_flatMap, ← flatMap_filter_of_nil hnil,
    honly, List.flatMap_singleton] at hperm

end Program.Analysed

end ScriptAnalysis
