import ScriptAnalysis.Propagation.Reaction

/-!
Agendas of rules. A sweep replaces each rule that is settled by the rules that it chained. These are
parts of the reaction that chained them, so agendas cannot be replaced for ever: `Agenda.shrinks_wf`.
-/
namespace ScriptAnalysis

inductive Reaction.Chains : Reaction → Reaction → Prop
  | read {c a next} (v : Option Value) (h : Chains c (next v)) : Chains c (.read a next)
  | set {c a v next} (h : Chains c next) : Chains c (.set a v next)
  | fail {c a next} (h : Chains c next) : Chains c (.fail a next)
  | report {c d next} (h : Chains c next) : Chains c (.report d next)
  | here {label inputs outputs body next} : Chains body (.chain label inputs outputs body next)
  | later {c label inputs outputs body next} (h : Chains c next) :
      Chains c (.chain label inputs outputs body next)

theorem Reaction.acc_of_chains (r : Reaction) : ∀ c, Chains c r → Acc Chains c := by
  induction r with
  | done => intro c h; cases h
  | fault => intro c h; cases h
  | read a next ih => intro c h; cases h with | read v h => exact ih v c h
  | set a v next ih => intro c h; cases h with | set h => exact ih c h
  | fail a next ih => intro c h; cases h with | fail h => exact ih c h
  | report d next ih => intro c h; cases h with | report h => exact ih c h
  | chain label inputs outputs body next ihBody ihNext =>
    intro c h
    cases h with
    | here => exact ⟨_, ihBody⟩
    | later h => exact ihNext c h

theorem Reaction.chains_wf : WellFounded Chains := ⟨fun r => ⟨r, r.acc_of_chains⟩⟩

theorem Reaction.chains_of_run {node : Node} {r : Reaction} {t : Attributes} {e : Effect}
    (h : r.run node t = .ok e) : ∀ c ∈ e.chained, Chains c.body r := by
  induction r generalizing t e with
  | done => cases h; simp
  | fault => cases h
  | read a next ih => exact fun c hc => .read _ (ih _ h c hc)
  | set a v next ih => exact fun c hc => .set (ih h c hc)
  | fail a next ih => exact fun c hc => .fail (ih h c hc)
  | report d next ih =>
    simp only [run] at h
    cases hn : next.run node t with
    | error f => simp [hn, bind, Except.bind] at h
    | ok e' =>
      simp only [hn, bind, Except.bind, pure, Except.pure, Except.ok.injEq] at h
      subst h
      exact fun c hc => .report (ih hn c hc)
  | chain label inputs outputs body next ihBody ihNext =>
    simp only [run] at h
    cases hn : next.run node t with
    | error f => simp [hn, bind, Except.bind] at h
    | ok e' =>
      simp only [hn, bind, Except.bind, pure, Except.pure, Except.ok.injEq] at h
      subst h
      intro c hc
      rcases List.mem_cons.1 hc with rfl | hc
      · exact .here
      · exact .later (ihNext hn c hc)

structure Agenda where
  rules : List Rule

namespace Agenda

inductive Replaces : List Rule → List Rule → Prop
  | nil : Replaces [] []
  | keep {r new old} (h : Replaces new old) : Replaces (r :: new) (r :: old)
  | expand {r cs new old} (hc : ∀ c ∈ cs, c.body.Chains r.body) (h : Replaces new old) :
      Replaces (cs ++ new) (r :: old)

inductive Shrinks : List Rule → List Rule → Prop
  | keep {r new old} (h : Shrinks new old) : Shrinks (r :: new) (r :: old)
  | expand {r cs new old} (hc : ∀ c ∈ cs, c.body.Chains r.body) (h : Replaces new old) :
      Shrinks (cs ++ new) (r :: old)

theorem Replaces.eq_or_shrinks {new old : List Rule} (h : Replaces new old) :
    new = old ∨ Shrinks new old := by
  induction h with
  | nil => exact .inl rfl
  | keep _ ih =>
    rcases ih with rfl | h
    · exact .inl rfl
    · exact .inr (.keep h)
  | expand hc h => exact .inr (.expand hc h)

theorem Replaces.split {new l₁ l₂ : List Rule} (h : Replaces new (l₁ ++ l₂)) :
    ∃ n₁ n₂, new = n₁ ++ n₂ ∧ Replaces n₁ l₁ ∧ Replaces n₂ l₂ := by
  induction l₁ generalizing new with
  | nil => exact ⟨[], new, rfl, .nil, h⟩
  | cons r l₁ ih =>
    cases h with
    | keep h =>
      obtain ⟨n₁, n₂, rfl, h₁, h₂⟩ := ih h
      exact ⟨r :: n₁, n₂, rfl, .keep h₁, h₂⟩
    | @expand _ cs _ _ hc h =>
      obtain ⟨n₁, n₂, rfl, h₁, h₂⟩ := ih h
      exact ⟨cs ++ n₁, n₂, (List.append_assoc ..).symm, .expand hc h₁, h₂⟩

theorem Shrinks.split {new l₁ l₂ : List Rule} (h : Shrinks new (l₁ ++ l₂)) :
    ∃ n₁ n₂, new = n₁ ++ n₂ ∧
      ((Shrinks n₁ l₁ ∧ Replaces n₂ l₂) ∨ (n₁ = l₁ ∧ Shrinks n₂ l₂)) := by
  induction l₁ generalizing new with
  | nil => exact ⟨[], new, rfl, .inr ⟨rfl, h⟩⟩
  | cons r l₁ ih =>
    cases h with
    | keep h =>
      obtain ⟨n₁, n₂, rfl, ⟨h₁, h₂⟩ | ⟨rfl, h₂⟩⟩ := ih h
      · exact ⟨r :: n₁, n₂, rfl, .inl ⟨.keep h₁, h₂⟩⟩
      · exact ⟨r :: n₁, n₂, rfl, .inr ⟨rfl, h₂⟩⟩
    | @expand _ cs _ _ hc h =>
      obtain ⟨n₁, n₂, rfl, h₁, h₂⟩ := h.split
      exact ⟨cs ++ n₁, n₂, (List.append_assoc ..).symm, .inl ⟨.expand hc h₁, h₂⟩⟩

theorem acc_append {l₁ l₂ : List Rule} (h₁ : Acc Shrinks l₁) (h₂ : Acc Shrinks l₂) :
    Acc Shrinks (l₁ ++ l₂) := by
  induction h₁ generalizing l₂ with
  | intro l₁ _ ih₁ =>
    induction h₂ with
    | intro l₂ h₂ ih₂ =>
      refine ⟨_, fun new h => ?_⟩
      obtain ⟨n₁, n₂, rfl, ⟨hs, hr⟩ | ⟨rfl, hs⟩⟩ := h.split
      · have acc₂ : Acc Shrinks n₂ := by
          rcases hr.eq_or_shrinks with rfl | hs₂
          · exact ⟨_, h₂⟩
          · exact h₂ _ hs₂
        exact ih₁ n₁ hs acc₂
      · exact ih₂ n₂ hs

theorem acc_of_singletons {l : List Rule} (h : ∀ r ∈ l, Acc Shrinks [r]) : Acc Shrinks l := by
  induction l with
  | nil => exact ⟨_, fun _ h => nomatch h⟩
  | cons r l ih =>
    exact @acc_append [r] l (h r (by simp)) (ih fun r' hr' => h r' (by simp [hr']))

theorem acc_singleton (r : Rule) : Acc Shrinks [r] := by
  generalize hb : r.body = b
  induction b using Reaction.chains_wf.induction generalizing r with
  | _ b ih =>
    refine ⟨_, fun new h => ?_⟩
    cases h with
    | keep h => exact nomatch h
    | @expand _ cs rest _ hc h =>
      cases h
      rw [List.append_nil]
      exact acc_of_singletons fun c hm => ih c.body (hb ▸ hc c hm) c rfl

theorem shrinks_wf : WellFounded Shrinks :=
  ⟨fun _ => acc_of_singletons fun r _ => acc_singleton r⟩

instance : WellFoundedRelation Agenda :=
  ⟨InvImage Shrinks Agenda.rules, InvImage.wf _ shrinks_wf⟩

end Agenda

end ScriptAnalysis
