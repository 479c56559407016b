import Mathlib.Tactic.Common
import ScriptAnalysis.Tree.Stmt

/-!
Sites: all that stands in a program, each thing with its surroundings. The sites of a tree are listed
in post-order, one for each node; what a site depends on precedes it in the list (`Site.Closed`).
-/
namespace ScriptAnalysis

/-- What an expression is there for, as far as its type or a check of its type depends on it. -/
inductive Role where
  | free
  | condition (statement : String)
  | value (b : Binder)
  | argument (callee : Expr) (index : Nat)

/-- The surroundings of a site: the node that opens the scope its names are looked up in, and the
written result type of the function or template around it. A class body is part of no function. -/
structure Setting where
  home : NodeId
  result : Option TypeExpr

inductive BinderSort where
  | field | parameter | typeParameter
  deriving DecidableEq

inductive Part where
  | written (t : TypeExpr)
  | reference (ref : Reference)
  | expr (role : Role) (e : Expr)
  | binder (sort : BinderSort) (b : Binder)
  | body (node : Node) (stmts : List Stmt)
  | stmt (s : Stmt)

def Part.node : Part → Node
  | .written t => t.node
  | .reference ref => ref.node
  | .expr _ e => e.node
  | .binder _ b => b.node
  | .body node _ => node
  | .stmt s => s.node

/-- A thing in a program with its surroundings. -/
structure Site where
  setting : Setting
  part : Part

namespace Site

def id (s : Site) : NodeId := s.part.node.id

/-- The number of the node as a plain number. -/
def index (s : Site) : Nat := s.id.index

end Site

def TypeExpr.sites (st : Setting) : TypeExpr → List Site
  | .name node text => [⟨st, .written (.name node text)⟩]
  | .container node c component =>
    component.sites st ++ [⟨st, .written (.container node c component)⟩]

def TypeExpr.sitesAll (st : Setting) (types : List TypeExpr) : List Site := types.flatMap (·.sites st)

namespace Expr

mutual

def within (st : Setting) : Expr → List Site
  | .int _ _ | .float _ _ | .string _ _ | .symbol _ => []
  | .construct _ _ ref => [⟨st, .reference ref⟩]
  | .paren _ inner => inner.within st ++ [⟨st, .expr .free inner⟩]
  | .not _ operand => operand.within st ++ [⟨st, .expr .free operand⟩]
  | .member _ _ stem _ => stem.within st ++ [⟨st, .expr .free stem⟩]
  | .binary _ _ left right =>
    left.within st ++ [⟨st, .expr .free left⟩] ++ (right.within st ++ [⟨st, .expr .free right⟩])
  | .assign _ target value =>
    target.within st ++ [⟨st, .expr .free target⟩] ++ (value.within st ++ [⟨st, .expr .free value⟩])
  | .index _ base position =>
    base.within st ++ [⟨st, .expr .free base⟩] ++
      (position.within st ++ [⟨st, .expr .free position⟩])
  | .literal _ _ elements => sitesAll st elements
  | .call _ callee arguments =>
    callee.within st ++ [⟨st, .expr .free callee⟩] ++ sitesArguments st callee 0 arguments
  | .templateCall _ callee types arguments =>
    callee.within st ++ [⟨st, .expr .free callee⟩] ++ TypeExpr.sitesAll st types ++
      sitesArguments st callee 0 arguments

def sitesAll (st : Setting) : List Expr → List Site
  | [] => []
  | e :: rest => e.within st ++ [⟨st, .expr .free e⟩] ++ sitesAll st rest

def sitesArguments (st : Setting) (callee : Expr) : (first : Nat) → List Expr → List Site
  | _, [] => []
  | first, e :: rest =>
    e.within st ++ [⟨st, .expr (.argument callee first) e⟩] ++
      sitesArguments st callee (first + 1) rest

end

def sites (st : Setting) (role : Role) (e : Expr) : List Site := e.within st ++ [⟨st, .expr role e⟩]

end Expr

def Binder.sites (st : Setting) (sort : BinderSort) (b : Binder) : List Site :=
  b.type.sites st ++ [⟨st, .binder sort b⟩]

def Binder.sitesAll (st : Setting) (sort : BinderSort) (bs : List Binder) : List Site :=
  bs.flatMap (·.sites st sort)

def FunctionHead.setting (head : FunctionHead) (node : Node) : Setting := ⟨node.id, some head.result⟩

def TemplateHead.setting (head : TemplateHead) (node : Node) : Setting := ⟨node.id, some head.result⟩

namespace Stmt

mutual

def sites (st : Setting) : Stmt → List Site
  | .block node body =>
    sitesAll ⟨node.id, st.result⟩ body ++ [⟨st, .stmt (.block node body)⟩]
  | .variable b value =>
    b.type.sites st ++ value.sites st (.value b) ++ [⟨st, .stmt (.variable b value)⟩]
  | .field b => b.type.sites st ++ [⟨st, .stmt (.field b)⟩]
  | .function node head inner body =>
    Binder.sitesAll (head.setting node) .parameter head.parameters ++
      head.result.sites (head.setting node) ++ sitesAll (head.setting node) body ++
      [⟨head.setting node, .body inner body⟩] ++ [⟨st, .stmt (.function node head inner body)⟩]
  | .struct node name fields =>
    Binder.sitesAll st .field fields ++ [⟨st, .stmt (.struct node name fields)⟩]
  | .cls node head inner body =>
    sitesAll ⟨node.id, none⟩ body ++ [⟨⟨node.id, none⟩, .body inner body⟩] ++
      [⟨st, .stmt (.cls node head inner body)⟩]
  | .template node head inner body =>
    Binder.sitesAll (head.setting node) .typeParameter head.typeParameters ++
      Binder.sitesAll (head.setting node) .parameter head.parameters ++
      head.result.sites (head.setting node) ++ sitesAll (head.setting node) body ++
      [⟨head.setting node, .body inner body⟩] ++ [⟨st, .stmt (.template node head inner body)⟩]
  | .ifThen node e thenBody =>
    e.sites st (.condition "If") ++ thenBody.sites st ++ [⟨st, .stmt (.ifThen node e thenBody)⟩]
  | .ifElse node e thenBody elseBody =>
    e.sites st (.condition "If") ++ thenBody.sites st ++ elseBody.sites st ++
      [⟨st, .stmt (.ifElse node e thenBody elseBody)⟩]
  | .loop node e body =>
    e.sites st (.condition "While") ++ body.sites st ++ [⟨st, .stmt (.loop node e body)⟩]
  | .ret node none => [⟨st, .stmt (.ret node none)⟩]
  | .ret node (some e) => e.sites st .free ++ [⟨st, .stmt (.ret node (some e))⟩]
  | .action node e => e.sites st .free ++ [⟨st, .stmt (.action node e)⟩]

def sitesAll (st : Setting) : List Stmt → List Site
  | [] => []
  | s :: rest => s.sites st ++ sitesAll st rest

end

end Stmt

namespace Site

def ofExpr (st : Setting) : Expr → List Site
  | .int _ _ | .float _ _ | .string _ _ | .symbol _ => []
  | .construct _ _ ref => [⟨st, .reference ref⟩]
  | .paren _ e | .not _ e | .member _ _ e _ => [⟨st, .expr .free e⟩]
  | .binary _ _ left right | .assign _ left right | .index _ left right =>
    [⟨st, .expr .free left⟩, ⟨st, .expr .free right⟩]
  | .literal _ _ elements => elements.map (⟨st, .expr .free ·⟩)
  | .call _ callee arguments =>
    ⟨st, .expr .free callee⟩ :: arguments.zipIdx.map fun (e, i) => ⟨st, .expr (.argument callee i) e⟩
  | .templateCall _ callee types arguments =>
    ⟨st, .expr .free callee⟩ :: types.map (⟨st, .written ·⟩) ++
      arguments.zipIdx.map fun (e, i) => ⟨st, .expr (.argument callee i) e⟩

def ofStmt (st : Setting) : Stmt → List Site
  | .block node body => body.map (⟨⟨node.id, st.result⟩, .stmt ·⟩)
  | .variable b value => [⟨st, .written b.type⟩, ⟨st, .expr (.value b) value⟩]
  | .field b => [⟨st, .written b.type⟩]
  | .function node head inner body =>
    head.parameters.map (⟨head.setting node, .binder .parameter ·⟩) ++
      [⟨head.setting node, .written head.result⟩, ⟨head.setting node, .body inner body⟩]
  | .struct _ _ fields => fields.map (⟨st, .binder .field ·⟩)
  | .cls node _ inner body => [⟨⟨node.id, none⟩, .body inner body⟩]
  | .template node head inner body =>
    head.typeParameters.map (⟨head.setting node, .binder .typeParameter ·⟩) ++
      head.parameters.map (⟨head.setting node, .binder .parameter ·⟩) ++
      [⟨head.setting node, .written head.result⟩, ⟨head.setting node, .body inner body⟩]
  | .ifThen _ e thenBody => [⟨st, .expr (.condition "If") e⟩, ⟨st, .stmt thenBody⟩]
  | .ifElse _ e thenBody elseBody =>
    [⟨st, .expr (.condition "If") e⟩, ⟨st, .stmt thenBody⟩, ⟨st, .stmt elseBody⟩]
  | .loop _ e body => [⟨st, .expr (.condition "While") e⟩, ⟨st, .stmt body⟩]
  | .ret _ none => []
  | .ret _ (some e) | .action _ e => [⟨st, .expr .free e⟩]

/-- What the type of an expression in a role depends on besides its parts: that of an argument may depend
on the callee. -/
def ofRole (st : Setting) : Role → List Site
  | .argument callee _ => [⟨st, .expr .free callee⟩]
  | _ => []

def premises (s : Site) : List Site :=
  match s.part with
  | .written (.name _ _) | .reference _ => []
  | .written (.container _ _ component) => [⟨s.setting, .written component⟩]
  | .expr role e => ofRole s.setting role ++ ofExpr s.setting e
  | .binder _ b => [⟨s.setting, .written b.type⟩]
  | .body _ stmts => stmts.map (⟨s.setting, .stmt ·⟩)
  | .stmt x => ofStmt s.setting x

def parts (s : Site) : List Site :=
  match s.part with
  | .expr _ e => ofExpr s.setting e
  | _ => s.premises

theorem mem_premises_of_part {s c : Site} (h : c ∈ s.parts) : c ∈ s.premises := by
  unfold parts at h
  split at h
  · next hpart =>
    unfold premises
    rw [hpart]
    exact List.mem_append_right _ h
  · exact h

/-- The premises of each site stand before it, in the list or among the sites seen already. -/
def Closed : (seen : List Site) → List Site → Prop
  | _, [] => True
  | seen, s :: rest => (∀ c ∈ s.premises, c ∈ seen) ∧ Closed (seen ++ [s]) rest

def Rooted (roots l : List Site) : Prop := l.Perm (roots ++ l.flatMap parts)

/-- Sites as a tree lists them below its roots: each site comes behind its premises, and is reached from a
root by going from sites to their parts. -/
structure Laid (seen roots l : List Site) : Prop where
  closed : Closed seen l
  rooted : Rooted roots l
  reached : ∀ P : Site → Prop, (∀ s ∈ roots, P s) → (∀ t ∈ l, P t → ∀ s ∈ t.parts, P s) → ∀ s ∈ l, P s

variable {seen roots roots' l l' : List Site} {s t : Site}

theorem closed_append : Closed seen (l ++ l') ↔ Closed seen l ∧ Closed (seen ++ l) l' := by
  induction l generalizing seen with
  | nil => simp [Closed]
  | cons s rest ih => simp [Closed, ih, and_assoc]

/-- A site that is no root is a part of another one. -/
theorem Rooted.cases (h : Rooted roots l) (hs : s ∈ l) : s ∈ roots ∨ ∃ t ∈ l, s ∈ t.parts := by
  rcases List.mem_append.1 (h.mem_iff.1 hs) with hs | hs
  · exact .inl hs
  · exact .inr (List.mem_flatMap.1 hs)

theorem Rooted.root (h : Rooted roots l) (hs : s ∈ roots) : s ∈ l :=
  h.mem_iff.2 (List.mem_append_left _ hs)

theorem Rooted.part (h : Rooted roots l) (ht : t ∈ l) (hs : s ∈ t.parts) : s ∈ l :=
  h.mem_iff.2 (List.mem_append_right _ (List.mem_flatMap.2 ⟨t, ht, hs⟩))

theorem Rooted.append (h : Rooted roots l) (h' : Rooted roots' l') : Rooted (roots ++ roots') (l ++ l') := by
  have hall := List.Perm.append h h'
  rw [List.append_assoc] at hall
  unfold Rooted
  rw [List.flatMap_append, List.append_assoc]
  exact hall.trans (.append_left roots (List.perm_append_comm_assoc _ _ _))

/-- What the roots are the parts of comes behind them. -/
theorem Rooted.snoc (h : Rooted t.parts l) : Rooted [t] (l ++ [t]) := by
  have hl : l.Perm (l.flatMap parts ++ t.parts) := h.trans List.perm_append_comm
  unfold Rooted
  rw [List.flatMap_append, List.flatMap_singleton]
  exact (hl.append_right [t]).trans List.perm_append_comm

namespace Laid

theorem nil : Laid seen [] [] := ⟨trivial, .nil, by simp⟩

theorem append (h : Laid seen roots l) (h' : Laid (seen ++ l) roots' l') :
    Laid seen (roots ++ roots') (l ++ l') := by
  refine ⟨closed_append.2 ⟨h.closed, h'.closed⟩, h.rooted.append h'.rooted, fun P hroots hparts s hs => ?_⟩
  simp only [List.mem_append, or_imp, forall_and] at hroots hparts
  rcases List.mem_append.1 hs with hs | hs
  · exact h.reached P hroots.1 hparts.1 s hs
  · exact h'.reached P hroots.2 hparts.2 s hs

theorem snoc (h : Laid seen t.parts l) (hseen : ∀ c ∈ t.premises, c ∈ t.parts ∨ c ∈ seen) :
    Laid seen [t] (l ++ [t]) := by
  refine ⟨closed_append.2 ⟨h.closed, fun c hc => ?_, trivial⟩, h.rooted.snoc, fun P hroots hparts s hs => ?_⟩
  · rcases hseen c hc with hc | hc
    · exact List.mem_append_right _ (h.rooted.root hc)
    · exact List.mem_append_left _ hc
  · have ht : P t := hroots t List.mem_cons_self
    rcases List.mem_append.1 hs with hs | hs
    · exact h.reached P (hparts t (by simp) ht) (fun t' ht' => hparts t' (List.mem_append_left _ ht')) s hs
    · exact List.mem_singleton.1 hs ▸ ht

/-- A site that depends on its parts only comes behind them. -/
theorem close (h : Laid seen roots l) (ht : roots = t.parts) (hp : t.premises = t.parts) :
    Laid seen [t] (l ++ [t]) :=
  (ht ▸ h).snoc fun _ hc => .inl (hp ▸ hc)

theorem flatMap {α : Type} {f : α → List Site} {g : α → Site} (h : ∀ a seen, Laid seen [g a] (f a))
    (as : List α) : Laid seen (as.map g) (as.flatMap f) := by
  induction as generalizing seen with
  | nil => exact nil
  | cons a as ih => exact (h a seen).append ih

variable {st : Setting} {e : Expr}

/-- The body of a function or template comes behind its head. -/
theorem body {stmts : List Stmt} (h : Laid seen roots l) (inner : Node)
    (hbody : Laid (seen ++ l) (stmts.map (⟨st, .stmt ·⟩)) l') :
    Laid seen (roots ++ [⟨st, .body inner stmts⟩]) (l ++ l' ++ [⟨st, .body inner stmts⟩]) := by
  rw [List.append_assoc]
  exact h.append (hbody.close rfl rfl)

theorem expr (h : Laid seen (ofExpr st e) (e.within st)) {role : Role} (hrole : ofRole st role ⊆ seen) :
    Laid seen [⟨st, .expr role e⟩] (e.sites st role) :=
  h.snoc fun _ hc => (List.mem_append.1 hc).symm.imp_right (hrole ·)

theorem free (h : Laid seen (ofExpr st e) (e.within st)) : Laid seen [⟨st, .expr .free e⟩] (e.sites st .free) :=
  h.expr (List.nil_subset _)

end Laid

end Site

open Site

theorem TypeExpr.laid_sites (st : Setting) (t : TypeExpr) (seen : List Site) :
    Laid seen [⟨st, .written t⟩] (t.sites st) := by
  induction t with
  | name node text => exact Laid.nil.close rfl rfl
  | container node c component ih => exact ih.close rfl rfl

theorem Binder.laid_sitesAll (st : Setting) (sort : BinderSort) (bs : List Binder) {seen : List Site} :
    Laid seen (bs.map (⟨st, .binder sort ·⟩)) (Binder.sitesAll st sort bs) :=
  .flatMap (fun b seen => (b.type.laid_sites st seen).close rfl rfl) bs

theorem Binder.mem_sitesAll (st : Setting) (sort : BinderSort) {bs : List Binder} {b : Binder}
    (h : b ∈ bs) : ⟨st, .binder sort b⟩ ∈ Binder.sitesAll st sort bs :=
  (Binder.laid_sitesAll st sort bs : Laid [] _ _).rooted.root (List.mem_map_of_mem h)

namespace Expr

theorem mem_sites (st : Setting) (role : Role) (e : Expr) : ⟨st, .expr role e⟩ ∈ e.sites st role := by
  simp [sites]

mutual

theorem laid_within (st : Setting) : ∀ (e : Expr) {seen : List Site}, Laid seen (ofExpr st e) (e.within st)
  | .int _ _, _ | .float _ _, _ | .string _ _, _ | .symbol _, _ => .nil
  | .construct _ _ _, _ => Laid.nil.close rfl rfl
  | .paren _ e, _ | .not _ e, _ | .member _ _ e _, _ => (laid_within st e).free
  | .binary _ _ left right, _ | .assign _ left right, _ | .index _ left right, _ =>
    (laid_within st left).free.append (laid_within st right).free
  | .literal _ _ elements, _ => laid_all st elements
  | .call _ callee arguments, _ =>
    (laid_within st callee).free.append (laid_arguments st callee 0 arguments (by simp [sites]))
  | .templateCall _ callee types arguments, _ =>
    ((laid_within st callee).free.append (.flatMap (TypeExpr.laid_sites st) types)).append
      (laid_arguments st callee 0 arguments (by simp [sites]))

theorem laid_all (st : Setting) : ∀ (es : List Expr) {seen : List Site},
    Laid seen (es.map (⟨st, .expr .free ·⟩)) (sitesAll st es)
  | [], _ => .nil
  | e :: rest, _ => (laid_within st e).free.append (laid_all st rest)

theorem laid_arguments (st : Setting) (callee : Expr) : ∀ (i : Nat) (es : List Expr) {seen : List Site},
    ⟨st, .expr .free callee⟩ ∈ seen →
      Laid seen ((es.zipIdx i).map fun (e, i) => ⟨st, .expr (.argument callee i) e⟩)
        (sitesArguments st callee i es)
  | _, [], _, _ => .nil
  | i, e :: rest, _, h =>
    ((laid_within st e).expr (List.cons_subset.2 ⟨h, List.nil_subset _⟩)).append
      (laid_arguments st callee (i + 1) rest (List.mem_append_left _ h))

end

theorem laid_sites (st : Setting) {role : Role} (hrole : ofRole st role = []) (e : Expr) {seen : List Site} :
    Laid seen [⟨st, .expr role e⟩] (e.sites st role) :=
  (laid_within st e).expr (hrole ▸ List.nil_subset _)

end Expr

namespace Stmt

mutual

theorem laid_sites : ∀ (st : Setting) (x : Stmt) {seen : List Site}, Laid seen [⟨st, .stmt x⟩] (x.sites st)
  | st, .block node body, _ => (laid_sitesAll ⟨node.id, st.result⟩ body).close rfl rfl
  | st, .variable b value, _ =>
    ((b.type.laid_sites st _).append (value.laid_sites st rfl)).close rfl rfl
  | st, .field b, _ => (b.type.laid_sites st _).close rfl rfl
  | st, .function node head inner body, _ =>
    (((Binder.laid_sitesAll _ .parameter head.parameters).append
      (head.result.laid_sites _ _)).body inner (laid_sitesAll (head.setting node) body)).close
      (by simp [parts, premises, ofStmt]) rfl
  | st, .struct node name fields, _ => (Binder.laid_sitesAll st .field fields).close rfl rfl
  | st, .cls node head inner body, _ =>
    ((laid_sitesAll ⟨node.id, none⟩ body).close rfl rfl).close rfl rfl
  | st, .template node head inner body, _ =>
    ((((Binder.laid_sitesAll _ .typeParameter head.typeParameters).append
      (Binder.laid_sitesAll _ .parameter head.parameters)).append
      (head.result.laid_sites _ _)).body inner (laid_sitesAll (head.setting node) body)).close
      (by simp [parts, premises, ofStmt]) rfl
  | st, .ifThen node e thenBody, _ => ((e.laid_sites st rfl).append (laid_sites st thenBody)).close rfl rfl
  | st, .ifElse node e thenBody elseBody, _ =>
    (((e.laid_sites st rfl).append (laid_sites st thenBody)).append (laid_sites st elseBody)).close rfl rfl
  | st, .loop node e body, _ => ((e.laid_sites st rfl).append (laid_sites st body)).close rfl rfl
  | st, .ret node none, _ => Laid.nil.close rfl rfl
  | st, .ret node (some e), _ | st, .action node e, _ => (e.laid_sites st rfl).close rfl rfl

theorem laid_sitesAll : ∀ (st : Setting) (body : List Stmt) {seen : List Site},
    Laid seen (body.map (⟨st, .stmt ·⟩)) (sitesAll st body)
  | _, [], _ => .nil
  | st, x :: rest, _ => (laid_sites st x).append (laid_sitesAll st rest)

end

theorem mem_sites (st : Setting) (x : Stmt) : ⟨st, .stmt x⟩ ∈ x.sites st :=
  (laid_sites st x : Laid [] _ _).rooted.root List.mem_cons_self

theorem mem_sitesAll (st : Setting) {body : List Stmt} {x : Stmt} (h : x ∈ body) :
    ⟨st, .stmt x⟩ ∈ sitesAll st body :=
  (laid_sitesAll st body : Laid [] _ _).rooted.root (List.mem_map_of_mem h)

end Stmt

namespace Program

def setting (p : Program) : Setting := ⟨p.node.id, none⟩

def sites (p : Program) : List Site := Stmt.sitesAll p.setting p.body

def siteAt (p : Program) (n : NodeId) : Option Site := p.sites.find? (·.id = n)

theorem laid_sites (p : Program) : Laid [] (p.body.map (⟨p.setting, .stmt ·⟩)) p.sites :=
  Stmt.laid_sitesAll p.setting p.body

/-- What holds of the statements of a program, and with a site of its parts, holds of all sites. -/
theorem site_induction {p : Program} {P : Site → Prop} (hstmt : ∀ x ∈ p.body, P ⟨p.setting, .stmt x⟩)
    (hpart : ∀ t ∈ p.sites, P t → ∀ s ∈ t.parts, P s) : ∀ s ∈ p.sites, P s :=
  p.laid_sites.reached P (List.forall_mem_map.2 hstmt) hpart

end Program

end ScriptAnalysis
