import Mathlib.Tactic.Common
import ScriptAnalysis.Ty.Basic

/-!
The order of types by assignability. Types that differ only in names are the same; sameness is an
equivalence. On the types of ordinary values assignability is generated by three steps, taken below any
number of containers (`Ty.Widens`), and is a partial order up to sameness (`Ty.assignable_partialOrder`).
-/
namespace ScriptAnalysis.Ty

section Same

mutual

theorem same_refl : ∀ a : Ty, a.same a = true
  | .primitive _ | .composite _ _ | .placeholder _ => by simp [same]
  | .container _ a => by simp [same, same_refl a]
  | .function r ps | .template r _ ps => by simp [same, same_refl r, sameAll_refl ps]

theorem sameAll_refl : ∀ as : List Ty, sameAll as as = true
  | [] => rfl
  | a :: as => by simp [sameAll, same_refl a, sameAll_refl as]

end

mutual

theorem same_symm : ∀ {a b : Ty}, a.same b = true → b.same a = true
  | .primitive p, .primitive q, h => by simpa [same, eq_comm] using h
  | .container c a, .container d b, h => by
    simp only [same, Bool.and_eq_true, decide_eq_true_eq] at h ⊢
    exact ⟨h.1.symm, same_symm h.2⟩
  | .composite c m, .composite d n, h => by
    simp only [same, Bool.and_eq_true, decide_eq_true_eq] at h ⊢
    exact ⟨h.1.symm, h.2.symm⟩
  | .placeholder m, .placeholder n, h => by simpa [same, eq_comm] using h
  | .function r ps, .function s qs, h => by
    simp only [same, Bool.and_eq_true] at h ⊢
    exact ⟨same_symm h.1, sameAll_symm h.2⟩
  | .template r k ps, .template s l qs, h => by
    simp only [same, Bool.and_eq_true, decide_eq_true_eq] at h ⊢
    exact ⟨⟨same_symm h.1.1, h.1.2.symm⟩, sameAll_symm h.2⟩

theorem sameAll_symm : ∀ {as bs : List Ty}, sameAll as bs = true → sameAll bs as = true
  | [], [], _ => by rw [sameAll]
  | a :: as, b :: bs, h => by
    simp only [sameAll, Bool.and_eq_true] at h ⊢
    exact ⟨same_symm h.1, sameAll_symm h.2⟩

end

mutual

theorem same_trans : ∀ {a b c : Ty}, a.same b = true → b.same c = true → a.same c = true
  | .primitive p, .primitive q, .primitive r, h, h' => by
    simp only [same, decide_eq_true_eq] at h h' ⊢
    exact h.trans h'
  | .container c a, .container d b, .container e f, h, h' => by
    simp only [same, Bool.and_eq_true, decide_eq_true_eq] at h h' ⊢
    exact ⟨h.1.trans h'.1, same_trans h.2 h'.2⟩
  | .composite c m, .composite d n, .composite e o, h, h' => by
    simp only [same, Bool.and_eq_true, decide_eq_true_eq] at h h' ⊢
    exact ⟨h.1.trans h'.1, h.2.trans h'.2⟩
  | .placeholder m, .placeholder n, .placeholder o, h, h' => by
    simp only [same, decide_eq_true_eq] at h h' ⊢
    exact h.trans h'
  | .function r ps, .function s qs, .function t us, h, h' => by
    simp only [same, Bool.and_eq_true] at h h' ⊢
    exact ⟨same_trans h.1 h'.1, sameAll_trans h.2 h'.2⟩
  | .template r k ps, .template s l qs, .template t m us, h, h' => by
    simp only [same, Bool.and_eq_true, decide_eq_true_eq] at h h' ⊢
    exact ⟨⟨same_trans h.1.1 h'.1.1, h.1.2.trans h'.1.2⟩, sameAll_trans h.2 h'.2⟩

theorem sameAll_trans : ∀ {as bs cs : List Ty}, sameAll as bs = true → sameAll bs cs = true →
    sameAll as cs = true
  | [], [], [], _, _ => by rw [sameAll]
  | a :: as, b :: bs, c :: cs, h, h' => by
    simp only [sameAll, Bool.and_eq_true] at h h' ⊢
    exact ⟨same_trans h.1 h'.1, sameAll_trans h.2 h'.2⟩

end

/-- Of types that are the same both or none may be null. -/
theorem isReference_of_same {a b : Ty} (h : a.same b = true) : a.isReference = b.isReference := by
  cases a <;> cases b <;> simp_all [same, isReference]

end Same

/-- What is left of a type when all containers around it are taken off. -/
def leaf : Ty → Ty
  | .container _ a => a.leaf
  | a => a

/-- Whether a type is that of ordinary values: its leaf is neither `Void` nor a placeholder. -/
def isOrdinary (a : Ty) : Bool := !a.leaf.isVoid && !a.leaf.isPlaceholder

/-- A type of ordinary values. -/
abbrev Ordinary := { a : Ty // a.isOrdinary = true }

inductive Widens : Ty → Ty → Prop
  | same {a b} (h : a.same b = true) : Widens a b
  | number : Widens .int .float
  | null {b} (h : b.isReference = true) : Widens .null b
  | container {c a b} (h : Widens a b) : Widens (.container c a) (.container c b)

namespace Widens

variable {a b c : Ty}

/-- What is more general than a container is a container of the same sort. -/
theorem of_container {s : Container} (h : Widens (.container s a) b) :
    ∃ b', b = .container s b' ∧ Widens a b' := by
  cases h with
  | same h =>
    cases b with
    | container d b =>
      simp only [Ty.same, Bool.and_eq_true, decide_eq_true_eq] at h
      exact ⟨b, by rw [h.1], .same h.2⟩
    | _ => simp [Ty.same] at h
  | container h => exact ⟨_, rfl, h⟩

theorem isReference (h : Widens a b) (ha : a.isReference = true) : b.isReference = true := by
  cases h with
  | same h => rw [← isReference_of_same h, ha]
  | number => simp [Ty.isReference] at ha
  | null h => exact h
  | container h => rfl

theorem same_left (hab : a.same b = true) (h : Widens b c) : Widens a c := by
  induction h generalizing a with
  | same h => exact .same (same_trans hab h)
  | number =>
    cases a with
    | primitive p =>
      obtain rfl : p = .int := by simpa [Ty.same] using hab
      exact .number
    | _ => simp [Ty.same] at hab
  | null h =>
    cases a with
    | primitive p =>
      obtain rfl : p = .null := by simpa [Ty.same] using hab
      exact .null h
    | _ => simp [Ty.same] at hab
  | container h ih =>
    cases a with
    | container d a =>
      simp only [Ty.same, Bool.and_eq_true, decide_eq_true_eq] at hab
      rw [hab.1]
      exact .container (ih hab.2)
    | _ => simp [Ty.same] at hab

theorem trans (hab : Widens a b) (hbc : Widens b c) : Widens a c := by
  induction hab generalizing c with
  | same h => exact same_left h hbc
  | number =>
    -- nothing but `Float` is above `Float`
    cases hbc with
    | same h =>
      cases c with
      | primitive p =>
        obtain rfl : Primitive.float = p := by simpa [Ty.same] using h
        exact .number
      | _ => simp [Ty.same] at h
  | null h => exact .null (hbc.isReference h)
  | container _ ih =>
    obtain ⟨c', rfl, h⟩ := hbc.of_container
    exact .container (ih h)

theorem antisymm (hab : Widens a b) (hba : Widens b a) : a.same b = true := by
  induction hab with
  | same h => exact h
  | number => cases hba with | same h => simp [Ty.same] at h
  | @null b h =>
    -- below null there is only null
    cases hba with
    | same h => exact same_symm h
    | null h => rfl
  | container _ ih =>
    obtain ⟨a', ha, h⟩ := hba.of_container
    cases ha
    simp [Ty.same, ih h]

end Widens

theorem isOrdinary_container (c : Container) (a : Ty) :
    (container c a).isOrdinary = a.isOrdinary := rfl

/-- Between types of ordinary values assignability is what the steps generate. -/
theorem assignable_iff_widens {a b : Ty} (ha : a.isOrdinary = true) (hb : b.isOrdinary = true) :
    a.assignable b = true ↔ Widens a b := by
  fun_induction assignable a b with
  | case1 c a d b ih =>
    rw [isOrdinary_container] at ha hb
    simp only [Bool.and_eq_true, decide_eq_true_eq, ih ha hb]
    constructor
    · rintro ⟨rfl, h⟩
      exact .container h
    · intro h
      obtain ⟨b', hb', h⟩ := h.of_container
      cases hb'
      exact ⟨rfl, h⟩
  | case2 => cases ha
  | case3 => cases hb
  | case4 => cases ha
  | case5 => cases hb
  | case6 => exact ⟨fun _ => .number, fun _ => rfl⟩
  | case7 b =>
    refine ⟨.null, fun h => ?_⟩
    exact h.isReference rfl
  | case8 a b hcontainer _ _ _ _ hnumber hnull =>
    refine ⟨.same, fun h => ?_⟩
    cases h with
    | same h => exact h
    | number => exact absurd rfl (hnumber rfl)
    | null => exact absurd rfl hnull
    | container h => exact (hcontainer _ _ _ _ rfl rfl).elim

/-- On types of ordinary values assignability is reflexive, transitive, and antisymmetric up to
sameness. -/
theorem assignable_partialOrder :
    (∀ a : Ordinary, a.1.assignable a.1 = true) ∧
    (∀ a b c : Ordinary, a.1.assignable b.1 = true → b.1.assignable c.1 = true →
      a.1.assignable c.1 = true) ∧
    (∀ a b : Ordinary, a.1.assignable b.1 = true ∧ b.1.assignable a.1 = true ↔
      a.1.same b.1 = true) := by
  refine ⟨fun a => ?_, fun a b c hab hbc => ?_, fun a b => ⟨fun h => ?_, fun h => ⟨?_, ?_⟩⟩⟩
  · exact (assignable_iff_widens a.2 a.2).2 (.same (same_refl a.1))
  · have hab := (assignable_iff_widens a.2 b.2).1 hab
    have hbc := (assignable_iff_widens b.2 c.2).1 hbc
    exact (assignable_iff_widens a.2 c.2).2 (hab.trans hbc)
  · have hab := (assignable_iff_widens a.2 b.2).1 h.1
    have hba := (assignable_iff_widens b.2 a.2).1 h.2
    exact hab.antisymm hba
  · exact (assignable_iff_widens a.2 b.2).2 (.same h)
  · exact (assignable_iff_widens b.2 a.2).2 (.same (same_symm h))

/-- Null, arrays of sets of integers and arrays of sets of floats follow each other in this order, and
two spellings of one class are the same type. -/
theorem assignable_partialOrder_chain :
    Ty.null.assignable (.array (.container .set .float)) = true ∧
    (Ty.composite .cls ⟨⟨7⟩, "A"⟩).same (.composite .cls ⟨⟨7⟩, "B"⟩) = true := by
  obtain ⟨_, trans, antisymm⟩ := assignable_partialOrder
  constructor
  · exact trans ⟨.null, rfl⟩ ⟨.array (.container .set .int), rfl⟩
      ⟨.array (.container .set .float), rfl⟩ rfl rfl
  · exact (antisymm ⟨.composite .cls ⟨⟨7⟩, "A"⟩, rfl⟩ ⟨.composite .cls ⟨⟨7⟩, "B"⟩, rfl⟩).1
      ⟨rfl, rfl⟩

end ScriptAnalysis.Ty
