import Mathlib.Tactic.Common
import ScriptAnalysis.Ty.Basic

/-!
Types that an analysis can come across. Written types name no functions, so parameters and results are
plain; what is computed from plain types by the rules of the language stays regular, and every regular
type has a text.
-/
namespace ScriptAnalysis.Ty

variable {n : Nat}

/-- A type without functions, whose composites are among the first `n` declarations. -/
def Plain (n : Nat) : Ty → Prop
  | .primitive _ | .placeholder _ => True
  | .container _ a => a.Plain n
  | .composite _ m => m.declaration.index < n
  | .function _ _ | .template _ _ _ => False

inductive Regular (n : Nat) : Ty → Prop
  | primitive {p} : Regular n (.primitive p)
  | placeholder {m} : Regular n (.placeholder m)
  | container {c a} (h : Regular n a) : Regular n (.container c a)
  | composite {c m} (h : m.declaration.index < n) : Regular n (.composite c m)
  | function {r ps} (hr : r.Plain n) (hps : ∀ p ∈ ps, Regular n p) : Regular n (.function r ps)
  | template {r k ps} (hk : k ≤ ps.length) (hr : r.Plain n) (hps : ∀ p ∈ ps, p.Plain n) :
      Regular n (.template r k ps)

theorem Plain.regular : ∀ {t : Ty}, t.Plain n → t.Regular n
  | .primitive _, _ => .primitive
  | .placeholder _, _ => .placeholder
  | .container _ a, h => .container (Plain.regular (t := a) h)
  | .composite _ _, h => .composite h

theorem splitParameters_eq {α : Type} {k : Nat} {ps : List α} (h : k ≤ ps.length) :
    splitParameters k ps = .ok (ps.take k, ps.drop k) := by
  simp [splitParameters, h, List.splitAt_eq]

theorem exists_renderAll {ts : List Ty} (h : ∀ t ∈ ts, ∃ text, t.render = .ok text) :
    ∃ texts, renderAll ts = .ok texts ∧ texts.length = ts.length := by
  induction ts with
  | nil => exact ⟨[], by rw [renderAll], rfl⟩
  | cons t rest ih =>
    obtain ⟨text, ht⟩ := h t (by simp)
    obtain ⟨texts, hts, hlen⟩ := ih fun u hu => h u (List.mem_cons_of_mem _ hu)
    exact ⟨text :: texts, by rw [renderAll, ht, hts]; rfl, by simp [hlen]⟩

theorem Plain.exists_render : ∀ {t : Ty}, t.Plain n → ∃ text, t.render = .ok text
  | .primitive _, _ | .placeholder _, _ | .composite _ _, _ => ⟨_, by rw [render]⟩
  | .container c a, h => by
    obtain ⟨text, ht⟩ := Plain.exists_render (t := a) h
    exact ⟨text ++ c.suffix, by rw [render, ht]; rfl⟩

theorem Regular.exists_render {t : Ty} (h : t.Regular n) : ∃ text, t.render = .ok text := by
  induction h with
  | primitive | placeholder | composite => exact ⟨_, by rw [render]⟩
  | @container c a _ ih =>
    obtain ⟨text, ht⟩ := ih
    exact ⟨text ++ c.suffix, by rw [render, ht]; rfl⟩
  | function hr _ ih =>
    obtain ⟨result, hr⟩ := hr.exists_render
    obtain ⟨texts, hts, _⟩ := exists_renderAll ih
    exact ⟨_, by rw [render, hts, hr]; rfl⟩
  | @template r k ps hk hr hps =>
    obtain ⟨result, hr⟩ := hr.exists_render
    obtain ⟨texts, hts, hlen⟩ := exists_renderAll fun p hp => (hps p hp).exists_render
    have hsplit : splitParameters k texts = _ := splitParameters_eq (by omega)
    exact ⟨_, by rw [render, hts, hr]; simp only [bind, Except.bind, hsplit]; rfl⟩

theorem bind_eq_error {α β : Type} {x : Except Fault α} {next : α → Except Fault β} {f : Fault}
    (h : x >>= next = .error f) : x = .error f ∨ ∃ a, x = .ok a ∧ next a = .error f := by
  cases x with
  | error f' =>
    cases h
    exact .inl rfl
  | ok a => exact .inr ⟨a, rfl, h⟩

mutual

/-- Only a template with too few parameters has no text. -/
theorem eq_shortTemplate_of_render {f : Fault} : ∀ {t : Ty}, t.render = .error f → f = .shortTemplate
  | .primitive _, h | .composite _ _, h | .placeholder _, h => by
    rw [render] at h
    cases h
  | .container c a, h => by
    rw [render] at h
    rcases bind_eq_error h with h | ⟨_, _, h⟩
    · exact eq_shortTemplate_of_render h
    · cases h
  | .function r ps, h => by
    rw [render] at h
    rcases bind_eq_error h with h | ⟨_, _, h⟩
    · exact eq_shortTemplate_of_renderAll h
    rcases bind_eq_error h with h | ⟨_, _, h⟩
    · exact eq_shortTemplate_of_render h
    · cases h
  | .template r k ps, h => by
    rw [render] at h
    rcases bind_eq_error h with h | ⟨texts, _, h⟩
    · exact eq_shortTemplate_of_renderAll h
    rcases bind_eq_error h with h | ⟨_, _, h⟩
    · unfold splitParameters at h
      split at h <;> cases h
      rfl
    rcases bind_eq_error h with h | ⟨_, _, h⟩
    · exact eq_shortTemplate_of_render h
    · cases h

theorem eq_shortTemplate_of_renderAll {f : Fault} :
    ∀ {ts : List Ty}, renderAll ts = .error f → f = .shortTemplate
  | [], h => by
    rw [renderAll] at h
    cases h
  | t :: ts, h => by
    rw [renderAll] at h
    rcases bind_eq_error h with h | ⟨_, _, h⟩
    · exact eq_shortTemplate_of_render h
    rcases bind_eq_error h with h | ⟨_, _, h⟩
    · exact eq_shortTemplate_of_renderAll h
    · cases h

end

/-- Plain types put in for placeholders of a plain type give a plain type. -/
theorem Plain.substitute {bindings : Bindings} (hb : ∀ b ∈ bindings, b.2.Plain n) :
    ∀ {t : Ty}, t.Plain n → (t.substitute bindings).Plain n
  | .primitive _, _ => by rw [Ty.substitute]; trivial
  | .composite _ _, h => by rw [Ty.substitute]; exact h
  | .container _ a, h => by
    rw [Ty.substitute]
    exact Plain.substitute hb (t := a) h
  | .placeholder m, _ => by
    rw [Ty.substitute]
    cases hl : bindings.lookup m.declaration with
    | none => trivial
    | some u =>
      obtain ⟨before, after, rfl, _⟩ := List.lookup_eq_some_iff.1 hl
      exact hb (m.declaration, u) (by simp)

theorem substituteAll_eq_map (bindings : Bindings) (ts : List Ty) :
    substituteAll bindings ts = ts.map (substitute bindings) := by
  induction ts with
  | nil => rw [substituteAll]; rfl
  | cons t rest ih => rw [substituteAll, ih, List.map_cons]

/-- The type of a sum is that of one side, a primitive type, or a container of one. -/
theorem arithmetic?_cases {op : BinaryOp} {l r t : Ty} (h : arithmetic? op l r = some t) :
    t = l ∨ t = r ∨ (∃ q, t = .primitive q) ∨ ∃ c q, t = .container c (.primitive q) := by
  have hwidest : ∀ a b : Ty, ∃ q, widest a b = .primitive q := by
    intro a b
    unfold widest
    split <;> exact ⟨_, rfl⟩
  unfold arithmetic? at h
  split at h
  · exact .inr (.inr (.inl ⟨_, (Option.some.inj h).symm⟩))
  split at h
  · exact .inr (.inl (Option.some.inj h).symm)
  split at h
  · exact .inl (Option.some.inj h).symm
  split at h
  · obtain ⟨a, _, h⟩ := Option.bind_eq_some_iff.1 h
    obtain ⟨b, _, h⟩ := Option.bind_eq_some_iff.1 h
    cases h
    obtain ⟨q, hq⟩ := hwidest a b
    exact .inr (.inr (.inr ⟨_, q, by rw [hq]⟩))
  · split at h
    · cases h
      exact .inr (.inr (.inl (hwidest l r)))
    · cases h

theorem commonSupertype?_cases {a b t : Ty} (h : commonSupertype? a b = some t) : t = a ∨ t = b := by
  unfold commonSupertype? at h
  split at h
  · cases h
  · split at h
    · exact .inr (Option.some.inj h).symm
    · split at h
      · exact .inl (Option.some.inj h).symm
      · cases h

end ScriptAnalysis.Ty
