import ScriptAnalysis.Proofs.Typing.Likeness

/-!
The rules of a program are confined to their inputs, and each goal has its own findings
(`Goal.confined_tells`). So only a name that was not bound where it stands is ever reported as unresolved or
as used in front of its declaration (`Goal.confined_react`).
-/
namespace ScriptAnalysis

namespace Reaction

variable {P : Diagnostic → Prop} {inputs : List Attribute} {next : Reaction}

theorem confined_reportTypes {cause : String → String → Cause} {s t : Ty} {place : Node}
    (hP : ∀ first second, P (.atNode (cause first second) place)) (h : next.Confined P inputs) :
    (reportTypes cause s t place next).Confined P inputs :=
  confined_attempt fun first _ => confined_attempt fun second _ => ⟨hP first second, h⟩

theorem confined_checkArguments (h : next.Confined P inputs) (index : Nat) {arguments : List Node}
    (hP : ∀ x ∈ arguments, ∀ i e r, P (.atNode (.incompatibleArgument i e r) x))
    (received expected : List Ty) :
    (checkArguments index arguments received expected next).Confined P inputs := by
  fun_induction checkArguments index arguments received expected next with
  | case1 index argument arguments r received e expected next rest hfit ih =>
    exact ih h (List.forall_mem_cons.1 hP).2
  | case2 index argument arguments r received e expected next rest hfit ih =>
    obtain ⟨hfirst, hrest⟩ := List.forall_mem_cons.1 hP
    exact confined_reportTypes (hfirst _) (ih h hrest)
  | case3 => exact h

end Reaction

namespace Goal

theorem like_identity (g : Goal) : g.Like .identity g := by
  have hall : ∀ ns : List Node, List.Forall₂ Placing.identity.place ns ns := fun ns =>
    List.forall₂_same.2 fun _ _ => rfl
  cases g with
  | initializer => exact .initializer rfl
  | valueReturn => exact .valueReturn rfl
  | literal => exact .literal (hall _)
  | logic => exact .logic rfl rfl
  | comparison => exact .comparison rfl rfl
  | assignment => exact .assignment rfl
  | index => exact .index rfl
  | call => exact .call trivial (hall _)
  | templateCall => exact .templateCall (hall _)
  | _ => exact .plain rfl

/-- What a goal does is confined to its inputs, and it finds nothing but its own findings. -/
theorem confined_tells (tables : Tables) (node : Node) (g : Goal) :
    (g.react tables node).Confined (g.Tells tables node) (g.inputs node) := by
  have hlike := g.like_identity.react (.refl tables) (n := node) rfl
    (F := ⟨fun x _ => g.Tells tables node x, Eq, fun _ _ => True, fun _ => True, fun _ _ _ => True⟩)
    ⟨fun hx _ => hx, fun _ _ => rfl, fun _ _ => rfl, fun _ _ => trivial, fun _ => trivial⟩
  exact hlike.confined (fun _ _ hx => hx) fun _ _ => trivial

/-- What a goal does is confined to its inputs, and only late references find fault with names, for the
reason that the tables give. -/
theorem confined_react {P : Diagnostic → Prop} (hP : ∀ x : Diagnostic, x.cause.isNaming = false → P x)
    (tables : Tables) (node : Node) (g : Goal)
    (hlate : ∀ scope name c, g = .lateReference scope name → tables.Blames scope name c →
      P (.atNode c node)) :
    (g.react tables node).Confined P (g.inputs node) := by
  apply (confined_tells tables node g).mono
  intro x hx
  cases hx with
  | late h => exact hlate _ _ _ rfl h
  | _ => exact hP _ rfl

end Goal

end ScriptAnalysis
