import ScriptAnalysis.Proofs.Tree.Site

/-!
Sites in the order of their numbers. In a numbered program the nodes of each construct come before the
construct's own node, and no number is given twice, so a node tells the site it belongs to.
-/
namespace ScriptAnalysis

theorem Site.index_eq_iff {s t : Site} : s.index = t.index ↔ s.id = t.id := by
  unfold Site.index
  generalize s.id = m
  generalize t.id = n
  cases m
  cases n
  simp

/-- The numbers of sites rise from one bound to another. -/
def Ascending (lo hi : Nat) : List Site → Prop
  | [] => lo ≤ hi
  | s :: rest => lo ≤ s.index ∧ Ascending (s.index + 1) hi rest

namespace Ascending

variable {lo hi : Nat} {l m : List Site}

theorem le (h : Ascending lo hi l) : lo ≤ hi := by
  induction l generalizing lo with
  | nil => exact h
  | cons s rest ih =>
    have hs := h.1
    have hr := ih h.2
    omega

theorem weaken (h : Ascending lo hi l) {lo' hi' : Nat} (hl : lo' ≤ lo) (hh : hi ≤ hi') :
    Ascending lo' hi' l := by
  induction l generalizing lo lo' with
  | nil =>
    have h' : lo ≤ hi := h
    show lo' ≤ hi'
    omega
  | cons s rest ih => exact ⟨Nat.le_trans hl h.1, ih h.2 (Nat.le_refl _)⟩

theorem append {mid : Nat} (hl : Ascending lo mid l) (hm : Ascending mid hi m) :
    Ascending lo hi (l ++ m) := by
  induction l generalizing lo with
  | nil => exact hm.weaken hl (Nat.le_refl _)
  | cons s rest ih => exact ⟨hl.1, ih hl.2⟩

theorem of_append (h : Ascending lo hi (l ++ m)) :
    ∃ mid, Ascending lo mid l ∧ Ascending mid hi m := by
  induction l generalizing lo with
  | nil => exact ⟨lo, Nat.le_refl lo, h⟩
  | cons s rest ih =>
    obtain ⟨mid, hr, hm⟩ := ih h.2
    exact ⟨mid, ⟨h.1, hr⟩, hm⟩

/-- The last site of a list is numbered behind the others. -/
theorem of_snoc {s : Site} (h : Ascending lo hi (l ++ [s])) :
    Ascending lo s.index l ∧ s.index < hi := by
  obtain ⟨mid, hl, hm, hh⟩ := h.of_append
  exact ⟨hl.weaken (Nat.le_refl _) hm, hh⟩

theorem snoc {s : Site} (hl : Ascending lo s.index l) (hs : s.index < hi) :
    Ascending lo hi (l ++ [s]) :=
  hl.append ⟨Nat.le_refl _, hs⟩

/-- A site with the next number goes behind the others. -/
theorem close {s : Site} (hl : Ascending lo hi l) (hs : s.index = hi) :
    Ascending lo (hi + 1) (l ++ [s]) :=
  snoc (hs ▸ hl) (hs ▸ Nat.lt_succ_self _)

theorem lower (h : Ascending lo hi l) {s : Site} (hs : s ∈ l) : lo ≤ s.index := by
  induction l generalizing lo with
  | nil => cases hs
  | cons t rest ih =>
    have ht := h.1
    rcases List.mem_cons.1 hs with rfl | hs
    · exact ht
    · have hr := ih h.2 hs
      omega

theorem upper (h : Ascending lo hi l) {s : Site} (hs : s ∈ l) : s.index < hi := by
  induction l generalizing lo with
  | nil => cases hs
  | cons t rest ih =>
    rcases List.mem_cons.1 hs with rfl | hs
    · exact le h.2
    · exact ih h.2 hs

theorem pairwise (h : Ascending lo hi l) : (l.map Site.index).Pairwise (· < ·) := by
  induction l generalizing lo with
  | nil => exact .nil
  | cons s rest ih =>
    refine .cons (fun i hi => ?_) (ih h.2)
    obtain ⟨t, ht, rfl⟩ := List.mem_map.1 hi
    exact h.2.lower ht

/-- A number belongs to one site only. -/
theorem find?_eq (h : Ascending lo hi l) {s : Site} (hs : s ∈ l) :
    l.find? (·.id = s.id) = some s := by
  induction l generalizing lo with
  | nil => cases hs
  | cons t rest ih =>
    rcases List.mem_cons.1 hs with rfl | hs
    · simp
    · have hlt : t.index < s.index := h.2.lower hs
      have hne : t.id ≠ s.id := fun he => absurd (Site.index_eq_iff.2 he) (Nat.ne_of_lt hlt)
      rw [List.find?_cons_of_neg (by simpa using hne)]
      exact ih h.2 hs

end Ascending

def Site.Distinct (l : List Site) : Prop := l.Pairwise fun s t => s.id ≠ t.id

theorem Site.distinct_of_ascending {lo hi : Nat} {l : List Site} (h : Ascending lo hi l) : Distinct l :=
  (List.pairwise_map.1 h.pairwise).imp fun hlt hid => Nat.ne_of_lt hlt (Site.index_eq_iff.2 hid)

namespace Program

/-- A program has number zero, and its sites have rising numbers from one on. -/
def Numbered (p : Program) : Prop := p.node.id = ⟨0⟩ ∧ ∃ hi, Ascending 1 hi p.sites

theorem Numbered.siteAt_eq {p : Program} (h : p.Numbered) {s : Site} (hs : s ∈ p.sites) :
    p.siteAt s.id = some s := by
  obtain ⟨_, hi, ha⟩ := h
  exact ha.find?_eq hs

theorem Numbered.eq_of_id {p : Program} (h : p.Numbered) {s t : Site} (hs : s ∈ p.sites)
    (ht : t ∈ p.sites) (hid : s.id = t.id) : s = t := by
  have hsite := h.siteAt_eq hs
  rw [hid, h.siteAt_eq ht] at hsite
  exact (Option.some.inj hsite).symm

theorem Numbered.id_ne {p : Program} (h : p.Numbered) {s : Site} (hs : s ∈ p.sites) :
    s.id ≠ p.node.id := by
  obtain ⟨hzero, hi, ha⟩ := h
  have hlower : 1 ≤ s.id.index := ha.lower hs
  intro hid
  rw [hid, hzero] at hlower
  exact absurd hlower (by decide)

/-- The premises of a site have smaller numbers. -/
theorem Numbered.premise {p : Program} (h : p.Numbered) {s c : Site} (hs : s ∈ p.sites)
    (hc : c ∈ s.premises) : c ∈ p.sites ∧ c.index < s.index := by
  obtain ⟨_, hi, ha⟩ := h
  obtain ⟨before, after, hsplit⟩ := List.append_of_mem hs
  have hclosed := p.laid_sites.closed
  rw [hsplit] at ha hclosed ⊢
  have hmem : c ∈ before := (Site.closed_append.1 hclosed).2.1 c hc
  obtain ⟨mid, hbefore, hafter⟩ := ha.of_append
  have hlt := hbefore.upper hmem
  have hle : mid ≤ s.index := hafter.1
  exact ⟨List.mem_append_left _ hmem, by omega⟩

theorem mem_of_siteAt {p : Program} {n : NodeId} {s : Site} (h : p.siteAt n = some s) :
    s ∈ p.sites ∧ s.id = n := by
  unfold siteAt at h
  exact ⟨List.mem_of_find?_eq_some h, by simpa using List.find?_some h⟩

end Program

end ScriptAnalysis
