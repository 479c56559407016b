import ScriptAnalysis.Proofs.Tree.Site

/-!
How statements are nested. Blocks, functions, templates and classes open scopes; `Program.nested` lists
the statements of a program in the order of the text, each with all that opens a scope around it
(`Program.nested_induction`).
-/
namespace ScriptAnalysis

inductive OpenerKind where
  | block | function | template | cls
  deriving DecidableEq, Repr

/-- A statement that opens a scope, with the node of the block that is its body; a plain block is its own
body. A function or template has a written result type. -/
structure Opener where
  kind : OpenerKind
  node : NodeId
  body : NodeId
  result : Option TypeExpr := none

/-- A statement and what opens scopes around it, the innermost first. -/
structure Nested where
  around : List Opener
  stmt : Stmt

namespace Opener

def ofBlock (node : Node) : Opener := ⟨.block, node.id, node.id, none⟩

def ofFunction (node : Node) (head : FunctionHead) (block : Node) : Opener :=
  ⟨.function, node.id, block.id, some head.result⟩

def ofTemplate (node : Node) (head : TemplateHead) (block : Node) : Opener :=
  ⟨.template, node.id, block.id, some head.result⟩

def ofClass (node block : Node) : Opener := ⟨.cls, node.id, block.id, none⟩

/-- The innermost function or template of openers, the innermost opener first, unless a class comes
before it. -/
def function? : List Opener → Option Opener
  | [] => none
  | o :: around =>
    match o.kind with
    | .block => function? around
    | .function | .template => some o
    | .cls => none

/-- The node whose scope a statement inside of openers stands in. -/
def home (top : NodeId) (around : List Opener) : NodeId := (around.head?.map Opener.node).getD top

def setting (top : NodeId) (around : List Opener) : Setting :=
  ⟨home top around, (function? around).bind Opener.result⟩

end Opener

namespace Stmt

def opener? : Stmt → Option Opener
  | .block node _ => some (.ofBlock node)
  | .function node head inner _ => some (.ofFunction node head inner)
  | .template node head inner _ => some (.ofTemplate node head inner)
  | .cls node _ inner _ => some (.ofClass node inner)
  | _ => none

def inner : Stmt → List Stmt
  | .block _ body | .function _ _ _ body | .template _ _ _ body | .cls _ _ _ body => body
  | .ifThen _ _ x | .loop _ _ x => [x]
  | .ifElse _ _ x y => [x, y]
  | _ => []

mutual

def nested (around : List Opener) : Stmt → List Nested
  | .block node body => ⟨around, .block node body⟩ :: nestedAll (.ofBlock node :: around) body
  | .function node head inner body =>
    ⟨around, .function node head inner body⟩ :: nestedAll (.ofFunction node head inner :: around) body
  | .template node head inner body =>
    ⟨around, .template node head inner body⟩ :: nestedAll (.ofTemplate node head inner :: around) body
  | .cls node head inner body =>
    ⟨around, .cls node head inner body⟩ :: nestedAll (.ofClass node inner :: around) body
  | .ifThen node e thenBody => ⟨around, .ifThen node e thenBody⟩ :: thenBody.nested around
  | .ifElse node e thenBody elseBody =>
    ⟨around, .ifElse node e thenBody elseBody⟩ :: (thenBody.nested around ++ elseBody.nested around)
  | .loop node e body => ⟨around, .loop node e body⟩ :: body.nested around
  | .variable b value => [⟨around, .variable b value⟩]
  | .field b => [⟨around, .field b⟩]
  | .struct node name fields => [⟨around, .struct node name fields⟩]
  | .ret node value => [⟨around, .ret node value⟩]
  | .action node e => [⟨around, .action node e⟩]

def nestedAll (around : List Opener) : List Stmt → List Nested
  | [] => []
  | s :: rest => s.nested around ++ nestedAll around rest

end

end Stmt

def Nested.inner (n : Nested) : List Nested :=
  n.stmt.inner.map (⟨n.stmt.opener?.toList ++ n.around, ·⟩)

def Nested.opening? (n : Nested) : Option (List Opener × Opener) := n.stmt.opener?.map (n.around, ·)

def Nested.openings (l : List Nested) : List (List Opener × Opener) := l.filterMap Nested.opening?

namespace Program

def nested (p : Program) : List Nested := Stmt.nestedAll [] p.body

def openings (p : Program) : List (List Opener × Opener) := Nested.openings p.nested

end Program

section Openings

variable {l m : List Nested} {around : List Opener}

@[simp] theorem openings_append : Nested.openings (l ++ m) = Nested.openings l ++ Nested.openings m :=
  List.filterMap_append

theorem openings_cons_none {s : Stmt} (h : s.opener? = none) :
    Nested.openings (⟨around, s⟩ :: l) = Nested.openings l := by
  simp [Nested.openings, Nested.opening?, h]

theorem openings_cons_some {s : Stmt} {o : Opener} (h : s.opener? = some o) :
    Nested.openings (⟨around, s⟩ :: l) = (around, o) :: Nested.openings l := by
  simp [Nested.openings, Nested.opening?, h]

theorem mem_openings {n : Nested} (hn : n ∈ l) {o : Opener} (ho : n.stmt.opener? = some o) :
    (n.around, o) ∈ Nested.openings l :=
  List.mem_filterMap.2 ⟨n, hn, by rw [Nested.opening?, ho, Option.map_some]⟩

end Openings

/-- Statements as a tree lists them below its roots: with each statement those directly inside it, and each
reached from a root by going inside. -/
structure Nested.Laid (roots l : List Nested) : Prop where
  root : roots ⊆ l
  inner : ∀ n ∈ l, n.inner ⊆ l
  reached : ∀ P : Nested → Prop, (∀ n ∈ roots, P n) → (∀ n ∈ l, P n → ∀ m ∈ n.inner, P m) → ∀ n ∈ l, P n

namespace Nested.Laid

variable {roots roots' l l' : List Nested} {n : Nested}

theorem nil : Laid [] [] := ⟨List.Subset.refl _, by simp, by simp⟩

theorem append (h : Laid roots l) (h' : Laid roots' l') : Laid (roots ++ roots') (l ++ l') := by
  refine ⟨List.append_subset.2 ⟨List.subset_append_of_subset_left _ h.root,
    List.subset_append_of_subset_right _ h'.root⟩, fun n hn => ?_, fun P hroots hinner n hn => ?_⟩
  · rcases List.mem_append.1 hn with hn | hn
    · exact List.subset_append_of_subset_left _ (h.inner n hn)
    · exact List.subset_append_of_subset_right _ (h'.inner n hn)
  · simp only [List.mem_append, or_imp, forall_and] at hroots hinner
    rcases List.mem_append.1 hn with hn | hn
    · exact h.reached P hroots.1 hinner.1 n hn
    · exact h'.reached P hroots.2 hinner.2 n hn

/-- The statement that the roots are inside of comes before them. -/
theorem cons (h : Laid roots l) (hn : roots = n.inner) : Laid [n] (n :: l) := by
  subst hn
  refine ⟨by simp, fun m hm => ?_, fun P hroots hinner m hm => ?_⟩
  · rcases List.mem_cons.1 hm with rfl | hm
    · exact List.subset_cons_of_subset _ h.root
    · exact List.subset_cons_of_subset _ (h.inner m hm)
  · have hn : P n := hroots n List.mem_cons_self
    rcases List.mem_cons.1 hm with rfl | hm
    · exact hn
    · exact h.reached P (hinner n List.mem_cons_self hn)
        (fun m hm => hinner m (List.mem_cons_of_mem _ hm)) m hm

end Nested.Laid

namespace Stmt

open Nested (Laid)

mutual

theorem laid_nested : ∀ (x : Stmt) (around : List Opener), Laid [⟨around, x⟩] (x.nested around)
  | .block _ body, _ | .function _ _ _ body, _ | .template _ _ _ body, _ | .cls _ _ _ body, _ =>
    (laid_nestedAll body _).cons rfl
  | .ifThen _ _ x, around | .loop _ _ x, around => (laid_nested x around).cons rfl
  | .ifElse _ _ x y, around => ((laid_nested x around).append (laid_nested y around)).cons rfl
  | .variable _ _, _ | .field _, _ | .struct _ _ _, _ | .ret _ _, _ | .action _ _, _ => Laid.nil.cons rfl

theorem laid_nestedAll : ∀ (body : List Stmt) (around : List Opener),
    Laid (body.map (⟨around, ·⟩)) (nestedAll around body)
  | [], _ => .nil
  | x :: rest, around => (laid_nested x around).append (laid_nestedAll rest around)

end

end Stmt

/-- Each opener is one of the listed, with those that follow it around it. -/
def Opener.Chained (l : List (List Opener × Opener)) : List Opener → Prop
  | [] => True
  | o :: around => (around, o) ∈ l ∧ Chained l around

namespace Program

variable {p : Program} {n : Nested}

theorem laid_nested (p : Program) : Nested.Laid (p.body.map (⟨[], ·⟩)) p.nested := Stmt.laid_nestedAll p.body []

/-- What holds of the statements of a program, and with a statement of those inside it, holds of all. -/
theorem nested_induction {P : Nested → Prop} (hstmt : ∀ x ∈ p.body, P ⟨[], x⟩)
    (hinner : ∀ n ∈ p.nested, P n → ∀ x ∈ n.stmt.inner, P ⟨n.stmt.opener?.toList ++ n.around, x⟩) :
    ∀ n ∈ p.nested, P n :=
  p.laid_nested.reached P (List.forall_mem_map.2 hstmt) fun n hn h => List.forall_mem_map.2 (hinner n hn h)

/-- All that is around a statement of a program are openers of the program. -/
theorem chained_nested (h : n ∈ p.nested) : Opener.Chained p.openings n.around := by
  refine nested_induction (P := fun n => Opener.Chained p.openings n.around) (fun _ _ => trivial)
    (fun n hn ih x _ => ?_) n h
  cases ho : n.stmt.opener? with
  | none => exact ih
  | some o => exact ⟨mem_openings hn ho, ih⟩

/-- A nested statement is a site in the surroundings that its openers make up. -/
theorem site_nested (h : n ∈ p.nested) :
    (⟨Opener.setting p.node.id n.around, .stmt n.stmt⟩ : Site) ∈ p.sites := by
  refine nested_induction (P := fun n => ⟨Opener.setting p.node.id n.around, .stmt n.stmt⟩ ∈ p.sites)
    (fun x hx => Stmt.mem_sitesAll p.setting hx) (fun n _ ih y hy => ?_) n h
  obtain ⟨around, x⟩ := n
  have hpart {s t : Site} := p.laid_sites.rooted.part (s := s) (t := t)
  cases x with
  | block node body => exact hpart ih (List.mem_map_of_mem hy)
  | function node head inner body =>
    exact hpart (t := ⟨head.setting node, .body inner body⟩)
      (hpart ih (by simp [Site.parts, Site.premises, Site.ofStmt])) (List.mem_map_of_mem hy)
  | template node head inner body =>
    exact hpart (t := ⟨head.setting node, .body inner body⟩)
      (hpart ih (by simp [Site.parts, Site.premises, Site.ofStmt])) (List.mem_map_of_mem hy)
  | cls node head inner body =>
    exact hpart (t := ⟨⟨node.id, none⟩, .body inner body⟩) (hpart ih List.mem_cons_self) (List.mem_map_of_mem hy)
  | ifThen | ifElse | loop =>
    exact hpart ih (List.mem_cons_of_mem _
      (List.mem_map_of_mem (f := fun y => Site.mk _ (.stmt y)) hy))
  | _ => cases hy

end Program

end ScriptAnalysis
