import ScriptAnalysis.Proofs.Tree.Likeness
import ScriptAnalysis.Proofs.Tree.Site

/-!
Trees that are like themselves. Whether a tree is depends on its sites one by one (`Site.Allowed`): their
nodes have to be related to themselves, and their names have to be allowed.
-/
namespace ScriptAnalysis

/-- The nodes and names of a statement, its parts left out, are fit for a tree that is like itself. -/
def Stmt.Allowed (K : Placing) : Stmt → Prop
  | .block n _ => K.opener n n
  | .variable b _ | .field b => K.place b.node b.node ∧ K.names b.name
  | .struct n name _ => K.place n n ∧ K.names name
  | .function n head _ _ => K.place n n ∧ K.opener n n ∧ K.names head.name
  | .template n head _ _ => K.place n n ∧ K.opener n n ∧ K.names head.name
  | .cls n head _ _ => K.place n n ∧ K.opener n n ∧ K.names head.name ∧
      ∀ s ∈ head.superclasses, K.names s.name ∧ K.place ⟨n.id, s.span⟩ ⟨n.id, s.span⟩
  | .ifThen n _ _ | .ifElse n _ _ _ | .loop n _ _ | .ret n _ | .action n _ => K.place n n

/-- The node and names of a site are fit for a tree that is like itself. -/
def Site.Allowed (K : Placing) (s : Site) : Prop :=
  match s.part with
  | .written t => K.place t.node t.node
  | .reference ref | .expr _ (.symbol ref) => ref.Like K ref
  | .expr _ e => K.place e.node e.node
  | .binder _ b => K.place b.node b.node ∧ K.names b.name
  | .body n _ => K.opener n n
  | .stmt x => x.Allowed K

theorem Site.allowed_of {K : Placing} (s : Site) (hplace : K.place s.part.node s.part.node)
    (hopener : K.opener s.part.node s.part.node) (hsuper : ∀ span, K.place ⟨s.id, span⟩ ⟨s.id, span⟩)
    (hrefers : ∀ ref, K.refers ref ref) (hnames : ∀ name, K.names name) : s.Allowed K := by
  obtain ⟨st, part⟩ := s
  cases part with
  | written t => exact hplace
  | reference ref => exact ⟨hplace, rfl, hrefers ref⟩
  | expr role e =>
    cases e with
    | symbol ref => exact ⟨hplace, rfl, hrefers ref⟩
    | _ => exact hplace
  | binder sort b => exact ⟨hplace, hnames _⟩
  | body node body => exact hopener
  | stmt x =>
    cases x with
    | block => exact hopener
    | «variable» | field | struct => exact ⟨hplace, hnames _⟩
    | function | template => exact ⟨hplace, hopener, hnames _⟩
    | cls => exact ⟨hplace, hopener, hnames _, fun _ _ => ⟨hnames _, hsuper _⟩⟩
    | _ => exact hplace

/-- All sites of a list are fit for a tree that is like itself. -/
def Site.AllAllowed (K : Placing) (l : List Site) : Prop := ∀ s ∈ l, s.Allowed K

open Site (AllAllowed)

variable {K : Placing} {st : Setting} {l m : List Site} {s : Site}

theorem allAllowed_append : AllAllowed K (l ++ m) ↔ AllAllowed K l ∧ AllAllowed K m := by
  simp [AllAllowed, or_imp, forall_and]

theorem allAllowed_singleton : AllAllowed K [s] ↔ s.Allowed K := by simp [AllAllowed]

theorem TypeExpr.like_self {t : TypeExpr} (h : AllAllowed K (t.sites st)) : t.Like K t := by
  induction t with
  | name node text => exact .name (allAllowed_singleton.1 h)
  | container node c component ih =>
    rw [TypeExpr.sites, allAllowed_append, allAllowed_singleton] at h
    exact .container h.2 (ih h.1)

theorem TypeExpr.likeAll_self {ts : List TypeExpr} (h : AllAllowed K (TypeExpr.sitesAll st ts)) :
    List.Forall₂ (TypeExpr.Like K) ts ts :=
  List.forall₂_same.2 fun t ht => like_self fun s hs => h s (List.mem_flatMap.2 ⟨t, ht, hs⟩)

theorem Binder.like_self {b : Binder} {sort : BinderSort} (h : AllAllowed K (b.sites st sort)) :
    b.Like K b := by
  rw [Binder.sites, allAllowed_append, allAllowed_singleton] at h
  exact ⟨h.2.1, rfl, h.2.2, TypeExpr.like_self h.1⟩

theorem Binder.likeAll_self {bs : List Binder} {sort : BinderSort}
    (h : AllAllowed K (Binder.sitesAll st sort bs)) : List.Forall₂ (Binder.Like K) bs bs := by
  refine List.forall₂_same.2 fun b hb => ?_
  have hb : AllAllowed K (b.sites st sort) := fun s hs => h s (List.mem_flatMap.2 ⟨b, hb, hs⟩)
  exact like_self hb

namespace Expr

mutual

theorem like_self : ∀ (e : Expr) {role : Role}, AllAllowed K (e.sites st role) → e.Like K e
  | .int _ _, _, h => .int (allAllowed_singleton.1 (allAllowed_append.1 h).2)
  | .float _ _, _, h => .float (allAllowed_singleton.1 (allAllowed_append.1 h).2)
  | .string _ _, _, h => .string (allAllowed_singleton.1 (allAllowed_append.1 h).2)
  | .symbol _, _, h => .symbol (allAllowed_singleton.1 (allAllowed_append.1 h).2)
  | .construct _ _ _, _, h => by
    obtain ⟨hin, hself⟩ := allAllowed_append.1 h
    exact .construct (allAllowed_singleton.1 hself) (allAllowed_singleton.1 hin)
  | .paren _ inner, _, h => by
    obtain ⟨hin, hself⟩ := allAllowed_append.1 h
    exact .paren (allAllowed_singleton.1 hself) (like_self inner hin)
  | .not _ operand, _, h => by
    obtain ⟨hin, hself⟩ := allAllowed_append.1 h
    exact .not (allAllowed_singleton.1 hself) (like_self operand hin)
  | .member _ _ stem _, _, h => by
    obtain ⟨hin, hself⟩ := allAllowed_append.1 h
    exact .member (allAllowed_singleton.1 hself) (like_self stem hin)
  | .binary _ _ left right, _, h => by
    obtain ⟨hin, hself⟩ := allAllowed_append.1 h
    obtain ⟨hleft, hright⟩ := allAllowed_append.1 hin
    exact .binary (allAllowed_singleton.1 hself) (like_self left hleft) (like_self right hright)
  | .assign _ target value, _, h => by
    obtain ⟨hin, hself⟩ := allAllowed_append.1 h
    obtain ⟨htarget, hvalue⟩ := allAllowed_append.1 hin
    exact .assign (allAllowed_singleton.1 hself) (like_self target htarget) (like_self value hvalue)
  | .index _ base position, _, h => by
    obtain ⟨hin, hself⟩ := allAllowed_append.1 h
    obtain ⟨hbase, hposition⟩ := allAllowed_append.1 hin
    exact .index (allAllowed_singleton.1 hself) (like_self base hbase) (like_self position hposition)
  | .literal _ _ elements, _, h => by
    obtain ⟨hin, hself⟩ := allAllowed_append.1 h
    exact .literal (allAllowed_singleton.1 hself) (likeAll_self elements hin)
  | .call _ callee arguments, _, h => by
    obtain ⟨hin, hself⟩ := allAllowed_append.1 h
    obtain ⟨hcallee, harguments⟩ := allAllowed_append.1 hin
    exact .call (allAllowed_singleton.1 hself) (like_self callee hcallee)
      (likeArguments_self callee arguments harguments)
  | .templateCall _ callee _ arguments, _, h => by
    obtain ⟨hin, hself⟩ := allAllowed_append.1 h
    obtain ⟨hbefore, harguments⟩ := allAllowed_append.1 hin
    obtain ⟨hcallee, htypes⟩ := allAllowed_append.1 hbefore
    exact .templateCall (allAllowed_singleton.1 hself) (like_self callee hcallee)
      (TypeExpr.likeAll_self htypes) (likeArguments_self callee arguments harguments)

theorem likeAll_self : ∀ es : List Expr, AllAllowed K (sitesAll st es) → List.Forall₂ (Like K) es es
  | [], _ => .nil
  | e :: rest, h => by
    obtain ⟨hfirst, hrest⟩ := allAllowed_append.1 h
    exact .cons (like_self e hfirst) (likeAll_self rest hrest)

theorem likeArguments_self (callee : Expr) : ∀ (es : List Expr) {i : Nat},
    AllAllowed K (sitesArguments st callee i es) → List.Forall₂ (Like K) es es
  | [], _, _ => .nil
  | e :: rest, _, h => by
    obtain ⟨hfirst, hrest⟩ := allAllowed_append.1 h
    exact .cons (like_self e hfirst) (likeArguments_self callee rest hrest)

end

end Expr

namespace Stmt

/-- The parts of a function, but for its own node and name. -/
theorem functionHead_like_self {node inner : Node} {head : FunctionHead} {body : List Stmt}
    (h : AllAllowed K (sites st (.function node head inner body))) :
    head.Like K head ∧ K.opener inner inner ∧ AllAllowed K (sitesAll (head.setting node) body) := by
  simp only [sites, allAllowed_append, allAllowed_singleton] at h
  obtain ⟨⟨⟨⟨hparameters, hresult⟩, hbody⟩, hinner⟩, _⟩ := h
  exact ⟨⟨rfl, rfl, Binder.likeAll_self hparameters, TypeExpr.like_self hresult⟩, hinner, hbody⟩

mutual

/-- A statement is like itself if its sites are fit for that. -/
theorem like_self : ∀ (x : Stmt) {st : Setting}, AllAllowed K (x.sites st) → x.Like K x
  | .block _ body, _, h => by
    obtain ⟨hbody, hself⟩ := allAllowed_append.1 h
    exact .block (allAllowed_singleton.1 hself) (likeAll_self body hbody)
  | .variable _ value, _, h => by
    simp only [sites, allAllowed_append, allAllowed_singleton] at h
    obtain ⟨⟨htype, hvalue⟩, hnode, hname⟩ := h
    exact .variable ⟨hnode, rfl, hname, TypeExpr.like_self htype⟩ (value.like_self hvalue)
  | .field _, _, h => by
    simp only [sites, allAllowed_append, allAllowed_singleton] at h
    obtain ⟨htype, hnode, hname⟩ := h
    exact .field ⟨hnode, rfl, hname, TypeExpr.like_self htype⟩
  | .function _ _ _ body, _, h => by
    obtain ⟨hhead, hinner, hbody⟩ := functionHead_like_self h
    obtain ⟨hnode, hopener, hname⟩ := allAllowed_singleton.1 (allAllowed_append.1 h).2
    exact .function hnode hopener hname hhead hinner (likeAll_self body hbody)
  | .struct _ _ _, _, h => by
    obtain ⟨hfields, hself⟩ := allAllowed_append.1 h
    obtain ⟨hnode, hname⟩ := allAllowed_singleton.1 hself
    exact .struct hnode hname (Binder.likeAll_self hfields)
  | .cls _ _ _ body, _, h => by
    simp only [sites, allAllowed_append, allAllowed_singleton] at h
    obtain ⟨⟨hbody, hinner⟩, hnode, hopener, hname, hsupers⟩ := h
    refine .cls hnode hopener ⟨rfl, rfl, hname, List.forall₂_same.2 fun s hs => ?_⟩ hinner (likeAll_self body hbody)
    exact ⟨rfl, (hsupers s hs).1, (hsupers s hs).2⟩
  | .template _ _ _ body, _, h => by
    simp only [sites, allAllowed_append, allAllowed_singleton] at h
    obtain ⟨⟨⟨⟨⟨htypes, hparameters⟩, hresult⟩, hbody⟩, hinner⟩, hnode, hopener, hname⟩ := h
    exact .template hnode hopener ⟨Binder.likeAll_self htypes, rfl, hname, Binder.likeAll_self hparameters,
      TypeExpr.like_self hresult⟩ hinner (likeAll_self body hbody)
  | .ifThen _ e thenBody, _, h => by
    simp only [sites, allAllowed_append, allAllowed_singleton] at h
    obtain ⟨⟨he, hthen⟩, hnode⟩ := h
    exact .ifThen hnode (e.like_self he) (like_self thenBody hthen)
  | .ifElse _ e thenBody elseBody, _, h => by
    simp only [sites, allAllowed_append, allAllowed_singleton] at h
    obtain ⟨⟨⟨he, hthen⟩, helse⟩, hnode⟩ := h
    exact .ifElse hnode (e.like_self he) (like_self thenBody hthen) (like_self elseBody helse)
  | .loop _ e body, _, h => by
    simp only [sites, allAllowed_append, allAllowed_singleton] at h
    obtain ⟨⟨he, hbody⟩, hnode⟩ := h
    exact .loop hnode (e.like_self he) (like_self body hbody)
  | .ret _ none, _, h => .ret (allAllowed_singleton.1 h) .none
  | .ret _ (some e), _, h => by
    obtain ⟨he, hself⟩ := allAllowed_append.1 h
    exact .ret (allAllowed_singleton.1 hself) (.some (e.like_self he))
  | .action _ e, _, h => by
    obtain ⟨he, hself⟩ := allAllowed_append.1 h
    exact .action (allAllowed_singleton.1 hself) (e.like_self he)

theorem likeAll_self : ∀ (xs : List Stmt) {st : Setting}, AllAllowed K (sitesAll st xs) →
    List.Forall₂ (Like K) xs xs
  | [], _, _ => .nil
  | x :: rest, _, h => by
    obtain ⟨hfirst, hrest⟩ := allAllowed_append.1 h
    exact .cons (like_self x hfirst) (likeAll_self rest hrest)

end

end Stmt

end ScriptAnalysis
