import ScriptAnalysis.Propagation.Resolve

/-!
Resolution in a bounded number of sweeps. The bound makes it a recursion on a number, which can be
evaluated; whenever the bound suffices, the outcome is that of the resolution.
-/
namespace ScriptAnalysis

def Sweep.followedBy (s later : Sweep) : Sweep :=
  { later with
    diagnostics := s.diagnostics ++ later.diagnostics
    events := s.events ++ later.events }

namespace Rule

/-- Sweeps until no rule waits or a sweep settles none, if the number of sweeps suffices. -/
def settleWithin : (sweeps : Nat) → Attributes → List Rule → Option Sweep
  | 0, _, _ => none
  | n + 1, t, agenda =>
    match sweep t agenda with
    | .error _ => none
    | .ok s =>
      if s.events = [] ∨ s.waiting = [] then some s
      else (settleWithin n s.attributes s.waiting).map s.followedBy

theorem settle_of_done {t : Attributes} {agenda : List Rule} {s : Sweep}
    (h : sweep t agenda = .ok s) (hs : s.events = [] ∨ s.waiting = []) :
    settle t agenda = .ok s := by
  rw [settle]
  split
  · next h' => simp [h] at h'
  · next s' h' =>
    obtain rfl : s = s' := by simpa [h] using h'
    simp [hs]

theorem settle_of_open {t : Attributes} {agenda : List Rule} {s later : Sweep}
    (h : sweep t agenda = .ok s) (hs : ¬(s.events = [] ∨ s.waiting = []))
    (hlater : settle s.attributes s.waiting = .ok later) :
    settle t agenda = .ok (s.followedBy later) := by
  rw [settle]
  split
  · next h' => simp [h] at h'
  · next s' h' =>
    obtain rfl : s = s' := by simpa [h] using h'
    simp only [hs, ↓reduceDIte, hlater]
    rfl

theorem settle_of_settleWithin {n : Nat} {t : Attributes} {agenda : List Rule} {s : Sweep}
    (h : settleWithin n t agenda = some s) : settle t agenda = .ok s := by
  induction n generalizing t agenda s with
  | zero => simp [settleWithin] at h
  | succ n ih =>
    rw [settleWithin] at h
    split at h
    · simp at h
    · next first hfirst =>
      split at h
      · next hdone =>
        obtain rfl : first = s := by simpa using h
        exact settle_of_done hfirst hdone
      · next hopen =>
        obtain ⟨later, hlater, rfl⟩ := Option.map_eq_some_iff.1 h
        exact settle_of_open hfirst hopen (ih hlater)

end Rule

end ScriptAnalysis
