import ScriptAnalysis.Attribute.Basic

/-!
Growth of attribute tables. Writes only add to a table, so what is known of an attribute stays as it
is for good.
-/
namespace ScriptAnalysis.Attributes

/-- The second table knows all that the first one knows, and says the same of it. -/
def Grows (t u : Attributes) : Prop := ∀ a s, t.slot? a = some s → u.slot? a = some s

theorem Grows.refl (t : Attributes) : t.Grows t := fun _ _ h => h

theorem Grows.trans {t u v : Attributes} (h : t.Grows u) (h' : u.Grows v) : t.Grows v :=
  fun a s hs => h' a s (h a s hs)

theorem slot?_set (t : Attributes) (a b : Attribute) (v : Value) :
    (t.set a v).slot? b = if a = b then some ((t.slot? a).getD (.set v)) else t.slot? b :=
  slot?_write t a b (.set v)

theorem slot?_fail (t : Attributes) (a b : Attribute) :
    (t.fail a).slot? b = if a = b then some ((t.slot? a).getD .failed) else t.slot? b :=
  slot?_write t a b .failed

theorem slot?_set_ne {t : Attributes} {a b : Attribute} {v : Value} (h : a ≠ b) :
    (t.set a v).slot? b = t.slot? b := by
  rw [slot?_set, if_neg h]

theorem grows_write (t : Attributes) (a : Attribute) (s : Slot) : t.Grows (t.write a s) := by
  intro b u hu
  rw [slot?_write]
  split
  · next hab => subst hab; simp [hu]
  · exact hu

theorem grows_set (t : Attributes) (a : Attribute) (v : Value) : t.Grows (t.set a v) :=
  t.grows_write a (.set v)

theorem grows_fail (t : Attributes) (a : Attribute) : t.Grows (t.fail a) := t.grows_write a .failed

theorem grows_failAll (t : Attributes) (as : List Attribute) : t.Grows (t.failAll as) := by
  induction as generalizing t with
  | nil => exact .refl t
  | cons a as ih => exact (t.grows_fail a).trans (ih (t.fail a))

/-- Every slot of a table after some have been failed was there before, or has failed now. -/
theorem slot?_failAll {t : Attributes} {as : List Attribute} {b : Attribute} {s : Slot}
    (h : (t.failAll as).slot? b = some s) : t.slot? b = some s ∨ (b ∈ as ∧ s = .failed) := by
  induction as generalizing t with
  | nil => exact .inl h
  | cons a as ih =>
    rcases ih h with hb | ⟨hb, hs⟩
    · rw [slot?_fail] at hb
      split at hb
      · next hab =>
        subst hab
        cases ht : t.slot? a with
        | none => simp [ht] at hb; exact .inr ⟨by simp, hb.symm⟩
        | some u => simp [ht] at hb; exact .inl (by rw [hb])
      · exact .inl hb
    · exact .inr ⟨List.mem_cons_of_mem a hb, hs⟩

theorem isKnown_iff {t : Attributes} {a : Attribute} :
    t.isKnown a = true ↔ ∃ s, t.slot? a = some s := by
  simp [isKnown, Option.isSome_iff_exists]

theorem get?_eq_some {t : Attributes} {a : Attribute} {v : Value} :
    t.get? a = some v ↔ t.slot? a = some (.set v) := by
  unfold get?
  split <;> simp_all

theorem get?_set_ne {t : Attributes} {a b : Attribute} {v : Value} (h : a ≠ b) :
    (t.set a v).get? b = t.get? b := by
  unfold get?
  rw [slot?_set_ne h]

theorem isSet_iff {t : Attributes} {a : Attribute} :
    t.isSet a = true ↔ ∃ v, t.slot? a = some (.set v) := by
  simp [isSet, Option.isSome_iff_exists, get?_eq_some]

theorem isFailed_iff {t : Attributes} {a : Attribute} :
    t.isFailed a = true ↔ t.slot? a = some .failed := by
  unfold isFailed
  split <;> simp_all

theorem type?_eq_some {t : Attributes} {a : Attribute} {ty : Ty} :
    t.type? a = some ty ↔ t.slot? a = some (.set (.type ty)) := by
  rw [← get?_eq_some]
  unfold type?
  split <;> simp_all

theorem decl?_eq_some {t : Attributes} {a : Attribute} {d : DeclId} :
    t.decl? a = some d ↔ t.slot? a = some (.set (.decl d)) := by
  rw [← get?_eq_some]
  unfold decl?
  split <;> simp_all

theorem scope?_eq_some {t : Attributes} {a : Attribute} {i : ScopeId} :
    t.scope? a = some i ↔ t.slot? a = some (.set (.scope i)) := by
  rw [← get?_eq_some]
  unfold scope?
  split <;> simp_all

theorem Grows.isKnown {t u : Attributes} (h : t.Grows u) {a : Attribute}
    (ha : t.isKnown a = true) : u.isKnown a = true := by
  obtain ⟨s, hs⟩ := isKnown_iff.1 ha
  exact isKnown_iff.2 ⟨s, h a s hs⟩

theorem Grows.isFailed {t u : Attributes} (h : t.Grows u) {a : Attribute}
    (ha : t.isFailed a = true) : u.isFailed a = true :=
  isFailed_iff.2 (h a _ (isFailed_iff.1 ha))

theorem Grows.get? {t u : Attributes} (h : t.Grows u) {a : Attribute} {v : Value}
    (ha : t.get? a = some v) : u.get? a = some v :=
  get?_eq_some.2 (h a _ (get?_eq_some.1 ha))

theorem isKnown_set (t : Attributes) (a b : Attribute) (v : Value) :
    (t.set a v).isKnown b = (decide (a = b) || t.isKnown b) := by
  unfold isKnown
  rw [slot?_set]
  by_cases hab : a = b <;> simp [hab]

theorem isKnown_fail (t : Attributes) (a b : Attribute) :
    (t.fail a).isKnown b = (decide (a = b) || t.isKnown b) := by
  unfold isKnown
  rw [slot?_fail]
  by_cases hab : a = b <;> simp [hab]

theorem isKnown_failAll {t : Attributes} {as : List Attribute} {a : Attribute} (h : a ∈ as) :
    (t.failAll as).isKnown a = true := by
  induction as generalizing t with
  | nil => simp at h
  | cons b as ih =>
    rcases List.mem_cons.1 h with rfl | h
    · exact ((t.fail a).grows_failAll as).isKnown (by simp [isKnown_fail])
    · exact ih h

theorem isFailed_set (t : Attributes) (a b : Attribute) (v : Value) :
    (t.set a v).isFailed b = t.isFailed b := by
  rw [Bool.eq_iff_iff, isFailed_iff, isFailed_iff, slot?_set]
  by_cases hab : a = b
  · subst hab
    cases h : t.slot? a <;> simp
  · simp [hab]

end ScriptAnalysis.Attributes
