import Mathlib.Data.List.Forall2
import ScriptAnalysis.Tree.Stmt

/-!
Trees of the same shape. Two trees are alike if they say the same and their nodes are related one by one;
what relates the nodes is a parameter (`Placing`), and so is what is asked of names. A finding is never
about the node of a block, so nodes that open scopes have a relation of their own.
-/
namespace ScriptAnalysis

structure Placing where
  place : Node → Node → Prop
  opener : Node → Node → Prop
  refers : Reference → Reference → Prop := fun _ _ => True
  names : String → Prop := fun _ => True
  calls : NodeId → Prop := fun _ => True
  place_id : ∀ {n n'}, place n n' → n.id = n'.id
  opener_id : ∀ {n n'}, opener n n' → n.id = n'.id

def Placing.identity : Placing where
  place := Eq
  opener := Eq
  place_id := congrArg Node.id
  opener_id := congrArg Node.id

structure Placing.Le (K L : Placing) : Prop where
  place : ∀ {n n'}, K.place n n' → L.place n n'
  opener : ∀ {n n'}, K.opener n n' → L.opener n n'
  refers : ∀ {r r'}, K.refers r r' → L.refers r r'
  names : ∀ {name}, K.names name → L.names name

variable {K L : Placing}

inductive TypeExpr.Like (K : Placing) : TypeExpr → TypeExpr → Prop
  | name {n n' text} (hn : K.place n n') : Like K (.name n text) (.name n' text)
  | container {n n' c t t'} (hn : K.place n n') (ht : Like K t t') :
      Like K (.container n c t) (.container n' c t')

structure Reference.Like (K : Placing) (r r' : Reference) : Prop where
  node : K.place r.node r'.node
  name : r.name = r'.name
  refers : K.refers r r'

inductive Expr.Like (K : Placing) : Expr → Expr → Prop
  | int {n n' value} (hn : K.place n n') : Like K (.int n value) (.int n' value)
  | float {n n' value} (hn : K.place n n') : Like K (.float n value) (.float n' value)
  | string {n n' value} (hn : K.place n n') : Like K (.string n value) (.string n' value)
  | symbol {r r'} (hr : r.Like K r') : Like K (.symbol r) (.symbol r')
  | paren {n n' e e'} (hn : K.place n n') (he : Like K e e') : Like K (.paren n e) (.paren n' e')
  | literal {n n' c es es'} (hn : K.place n n') (hes : List.Forall₂ (Like K) es es') :
      Like K (.literal n c es) (.literal n' c es')
  | not {n n' e e'} (hn : K.place n n') (he : Like K e e') : Like K (.not n e) (.not n' e')
  | binary {n n' op l l' r r'} (hn : K.place n n') (hl : Like K l l') (hr : Like K r r') :
      Like K (.binary n op l r) (.binary n' op l' r')
  | assign {n n' l l' r r'} (hn : K.place n n') (hl : Like K l l') (hr : Like K r r') :
      Like K (.assign n l r) (.assign n' l' r')
  | call {n n' e e' es es'} (hn : K.place n n') (he : Like K e e')
      (hes : List.Forall₂ (Like K) es es') : Like K (.call n e es) (.call n' e' es')
  | templateCall {n n' e e' ts ts' es es'} (hn : K.place n n') (he : Like K e e')
      (hts : List.Forall₂ (TypeExpr.Like K) ts ts') (hes : List.Forall₂ (Like K) es es') :
      Like K (.templateCall n e ts es) (.templateCall n' e' ts' es')
  | index {n n' l l' r r'} (hn : K.place n n') (hl : Like K l l') (hr : Like K r r') :
      Like K (.index n l r) (.index n' l' r')
  | member {n n' c e e' name} (hn : K.place n n') (he : Like K e e') :
      Like K (.member n c e name) (.member n' c e' name)
  | construct {n n' c r r'} (hn : K.place n n') (hr : r.Like K r') :
      Like K (.construct n c r) (.construct n' c r')

structure Binder.Like (K : Placing) (b b' : Binder) : Prop where
  node : K.place b.node b'.node
  name : b.name = b'.name
  named : K.names b.name
  type : b.type.Like K b'.type

structure FunctionHead.Like (K : Placing) (h h' : FunctionHead) : Prop where
  visibility : h.visibility = h'.visibility
  name : h.name = h'.name
  parameters : List.Forall₂ (Binder.Like K) h.parameters h'.parameters
  result : h.result.Like K h'.result

structure TemplateHead.Like (K : Placing) (h h' : TemplateHead) : Prop where
  typeParameters : List.Forall₂ (Binder.Like K) h.typeParameters h'.typeParameters
  name : h.name = h'.name
  named : K.names h.name
  parameters : List.Forall₂ (Binder.Like K) h.parameters h'.parameters
  result : h.result.Like K h'.result

/-- Class names behind `from` that are alike. A finding about one names the node of the class. -/
structure Superclass.Like (K : Placing) (n n' : Node) (s s' : Superclass) : Prop where
  name : s.name = s'.name
  named : K.names s.name
  place : K.place ⟨n.id, s.span⟩ ⟨n'.id, s'.span⟩

structure ClassHead.Like (K : Placing) (n n' : Node) (h h' : ClassHead) : Prop where
  visibility : h.visibility = h'.visibility
  name : h.name = h'.name
  named : K.names h.name
  superclasses : List.Forall₂ (Superclass.Like K n n') h.superclasses h'.superclasses

inductive Stmt.Like (K : Placing) : Stmt → Stmt → Prop
  | block {n n' xs xs'} (hn : K.opener n n') (hxs : List.Forall₂ (Like K) xs xs') :
      Like K (.block n xs) (.block n' xs')
  | variable {b b' e e'} (hb : b.Like K b') (he : e.Like K e') : Like K (.variable b e) (.variable b' e')
  | field {b b'} (hb : b.Like K b') : Like K (.field b) (.field b')
  | function {n n' h h' m m' xs xs'} (hn : K.place n n') (ho : K.opener n n') (hname : K.names h.name)
      (hh : h.Like K h') (hm : K.opener m m') (hxs : List.Forall₂ (Like K) xs xs') :
      Like K (.function n h m xs) (.function n' h' m' xs')
  | struct {n n' name bs bs'} (hn : K.place n n') (hname : K.names name)
      (hbs : List.Forall₂ (Binder.Like K) bs bs') : Like K (.struct n name bs) (.struct n' name bs')
  | cls {n n' h h' m m' xs xs'} (hn : K.place n n') (ho : K.opener n n') (hh : h.Like K n n' h')
      (hm : K.opener m m') (hxs : List.Forall₂ (Like K) xs xs') :
      Like K (.cls n h m xs) (.cls n' h' m' xs')
  | template {n n' h h' m m' xs xs'} (hn : K.place n n') (ho : K.opener n n') (hh : h.Like K h')
      (hm : K.opener m m') (hxs : List.Forall₂ (Like K) xs xs') :
      Like K (.template n h m xs) (.template n' h' m' xs')
  | ifThen {n n' e e' x x'} (hn : K.place n n') (he : e.Like K e') (hx : Like K x x') :
      Like K (.ifThen n e x) (.ifThen n' e' x')
  | ifElse {n n' e e' x x' y y'} (hn : K.place n n') (he : e.Like K e') (hx : Like K x x')
      (hy : Like K y y') : Like K (.ifElse n e x y) (.ifElse n' e' x' y')
  | loop {n n' e e' x x'} (hn : K.place n n') (he : e.Like K e') (hx : Like K x x') :
      Like K (.loop n e x) (.loop n' e' x')
  | ret {n n' e e'} (hn : K.place n n') (he : Option.Rel (Expr.Like K) e e') :
      Like K (.ret n e) (.ret n' e')
  | action {n n' e e'} (hn : K.place n n') (he : e.Like K e') : Like K (.action n e) (.action n' e')

structure Program.Like (K : Placing) (p p' : Program) : Prop where
  node : p.node.id = p'.node.id
  body : List.Forall₂ (Stmt.Like K) p.body p'.body

namespace TypeExpr.Like

variable {t t' : TypeExpr}

theorem node (h : t.Like K t') : K.place t.node t'.node := by
  cases h with
  | name hn => exact hn
  | container hn _ => exact hn

theorem id (h : t.Like K t') : t.id = t'.id := K.place_id h.node

theorem render (h : t.Like K t') : t.render = t'.render := by
  induction h with
  | name => rfl
  | container _ _ ih => simp only [TypeExpr.render, ih]

theorem mono (hK : K.Le L) (h : t.Like K t') : t.Like L t' := by
  induction h with
  | name hn => exact .name (hK.place hn)
  | container hn _ ih => exact .container (hK.place hn) ih

theorem map_id {ts ts' : List TypeExpr} (h : List.Forall₂ (TypeExpr.Like K) ts ts') :
    ts.map TypeExpr.id = ts'.map TypeExpr.id := by
  induction h with
  | nil => rfl
  | cons ht _ ih => rw [List.map_cons, List.map_cons, ht.id, ih]

theorem map_render {ts ts' : List TypeExpr} (h : List.Forall₂ (TypeExpr.Like K) ts ts') :
    ts.map TypeExpr.render = ts'.map TypeExpr.render := by
  induction h with
  | nil => rfl
  | cons ht _ ih => rw [List.map_cons, List.map_cons, ht.render, ih]

end TypeExpr.Like

theorem Reference.Like.mono {r r' : Reference} (hK : K.Le L) (h : r.Like K r') : r.Like L r' :=
  ⟨hK.place h.node, h.name, hK.refers h.refers⟩

namespace Expr

mutual

theorem like_mono (hK : K.Le L) : ∀ (e : Expr) {e' : Expr}, e.Like K e' → e.Like L e'
  | .int _ _, _, .int hn => .int (hK.place hn)
  | .float _ _, _, .float hn => .float (hK.place hn)
  | .string _ _, _, .string hn => .string (hK.place hn)
  | .symbol _, _, .symbol hr => .symbol (hr.mono hK)
  | .paren _ e, _, .paren hn he => .paren (hK.place hn) (like_mono hK e he)
  | .literal _ _ es, _, .literal hn hes => .literal (hK.place hn) (likeAll_mono hK es hes)
  | .not _ e, _, .not hn he => .not (hK.place hn) (like_mono hK e he)
  | .binary _ _ l r, _, .binary hn hl hr =>
    .binary (hK.place hn) (like_mono hK l hl) (like_mono hK r hr)
  | .assign _ l r, _, .assign hn hl hr =>
    .assign (hK.place hn) (like_mono hK l hl) (like_mono hK r hr)
  | .call _ e es, _, .call hn he hes =>
    .call (hK.place hn) (like_mono hK e he) (likeAll_mono hK es hes)
  | .templateCall _ e _ es, _, .templateCall hn he hts hes =>
    .templateCall (hK.place hn) (like_mono hK e he) (hts.imp fun _ _ => TypeExpr.Like.mono hK)
      (likeAll_mono hK es hes)
  | .index _ l r, _, .index hn hl hr => .index (hK.place hn) (like_mono hK l hl) (like_mono hK r hr)
  | .member _ _ e _, _, .member hn he => .member (hK.place hn) (like_mono hK e he)
  | .construct _ _ _, _, .construct hn hr => .construct (hK.place hn) (hr.mono hK)

theorem likeAll_mono (hK : K.Le L) : ∀ (es : List Expr) {es' : List Expr},
    List.Forall₂ (Like K) es es' → List.Forall₂ (Like L) es es'
  | [], _, .nil => .nil
  | e :: es, _, .cons he hes => .cons (like_mono hK e he) (likeAll_mono hK es hes)

end

mutual

theorem render_of_like : ∀ (e : Expr) {e' : Expr}, e.Like K e' → e.render = e'.render
  | .int _ _, _, .int _ | .float _ _, _, .float _ | .string _ _, _, .string _ => rfl
  | .symbol _, _, .symbol hr => hr.name
  | .paren _ e, _, .paren _ he => by simp only [render, render_of_like e he]
  | .literal _ .array es, _, .literal _ hes => by simp only [render, renderAll_of_like es hes]
  | .literal _ .set es, _, .literal _ hes => by simp only [render, renderAll_of_like es hes]
  | .not _ e, _, .not _ he => by simp only [render, render_of_like e he]
  | .binary _ _ l r, _, .binary _ hl hr => by
    simp only [render, render_of_like l hl, render_of_like r hr]
  | .assign _ l r, _, .assign _ hl hr => by
    simp only [render, render_of_like l hl, render_of_like r hr]
  | .call _ e es, _, .call _ he hes => by
    simp only [render, render_of_like e he, renderAll_of_like es hes]
  | .templateCall _ e _ es, _, .templateCall _ he hts hes => by
    simp only [render, render_of_like e he, TypeExpr.Like.map_render hts, renderAll_of_like es hes]
  | .index _ l r, _, .index _ hl hr => by
    simp only [render, render_of_like l hl, render_of_like r hr]
  | .member _ _ e _, _, .member _ he => by simp only [render, render_of_like e he]
  | .construct _ _ _, _, .construct _ hr => by simp only [render, hr.name]

theorem renderAll_of_like : ∀ (es : List Expr) {es' : List Expr},
    List.Forall₂ (Like K) es es' → renderAll es = renderAll es'
  | [], _, .nil => rfl
  | e :: es, _, .cons he hes => by
    simp only [renderAll, render_of_like e he, renderAll_of_like es hes]

end

theorem calleeName?_of_like : ∀ (e : Expr) {e' : Expr}, e.Like K e' → e.calleeName? = e'.calleeName?
  | .symbol _, _, .symbol hr => congrArg some hr.name
  | .paren _ e, _, .paren _ he => by rw [calleeName?, calleeName?, calleeName?_of_like e he]
  | .member _ _ _ _, _, .member _ _ => rfl
  | .int _ _, _, .int _ | .float _ _, _, .float _ | .string _ _, _, .string _
  | .literal _ _ _, _, .literal _ _ | .not _ _, _, .not _ _ | .binary _ _ _ _, _, .binary _ _ _
  | .assign _ _ _, _, .assign _ _ _ | .call _ _ _, _, .call _ _ _
  | .templateCall _ _ _ _, _, .templateCall _ _ _ _ | .index _ _ _, _, .index _ _ _
  | .construct _ _ _, _, .construct _ _ => rfl

namespace Like

variable {e e' : Expr}

theorem node (h : e.Like K e') : K.place e.node e'.node := by
  cases h with
  | symbol hr => exact hr.node
  | _ => assumption

theorem id (h : e.Like K e') : e.id = e'.id := K.place_id h.node

theorem map_node {es es' : List Expr} (h : List.Forall₂ (Expr.Like K) es es') :
    List.Forall₂ K.place (es.map Expr.node) (es'.map Expr.node) :=
  List.rel_map (fun _ _ he => he.node) h

theorem isNamed (h : e.Like K e') : e.isNamed = e'.isNamed := by cases h <;> rfl

theorem isPlace (h : e.Like K e') : e.isPlace = e'.isPlace := by cases h <;> rfl

theorem isAction (h : e.Like K e') : e.isAction = e'.isAction := by cases h <;> rfl

end Like

end Expr

theorem Binder.Like.mono {b b' : Binder} (hK : K.Le L) (h : b.Like K b') : b.Like L b' :=
  ⟨hK.place h.node, h.name, hK.names h.named, h.type.mono hK⟩

theorem Binder.Like.map_render {bs bs' : List Binder} (h : List.Forall₂ (Binder.Like K) bs bs') :
    bs.map (·.type.render) = bs'.map (·.type.render) := by
  induction h with
  | nil => rfl
  | cons hb _ ih => rw [List.map_cons, List.map_cons, hb.type.render, ih]

theorem Binder.Like.map_typeId {bs bs' : List Binder} (h : List.Forall₂ (Binder.Like K) bs bs') :
    bs.map (·.type.id) = bs'.map (·.type.id) := by
  induction h with
  | nil => rfl
  | cons hb _ ih => rw [List.map_cons, List.map_cons, hb.type.id, ih]

theorem FunctionHead.Like.mono {h h' : FunctionHead} (hK : K.Le L) (hh : h.Like K h') : h.Like L h' :=
  ⟨hh.visibility, hh.name, hh.parameters.imp fun _ _ => Binder.Like.mono hK, hh.result.mono hK⟩

theorem TemplateHead.Like.mono {h h' : TemplateHead} (hK : K.Le L) (hh : h.Like K h') : h.Like L h' :=
  ⟨hh.typeParameters.imp fun _ _ => Binder.Like.mono hK, hh.name, hK.names hh.named,
    hh.parameters.imp fun _ _ => Binder.Like.mono hK, hh.result.mono hK⟩

theorem ClassHead.Like.mono {n n' : Node} {h h' : ClassHead} (hK : K.Le L) (hh : h.Like K n n' h') :
    h.Like L n n' h' :=
  ⟨hh.visibility, hh.name, hK.names hh.named,
    hh.superclasses.imp fun _ _ hs => ⟨hs.name, hK.names hs.named, hK.place hs.place⟩⟩

namespace Stmt

mutual

theorem like_mono (hK : K.Le L) : ∀ (x : Stmt) {x' : Stmt}, x.Like K x' → x.Like L x'
  | .block _ xs, _, .block hn hxs => .block (hK.opener hn) (likeAll_mono hK xs hxs)
  | .variable _ e, _, .variable hb he => .variable (hb.mono hK) (e.like_mono hK he)
  | .field _, _, .field hb => .field (hb.mono hK)
  | .function _ _ _ xs, _, .function hn ho hname hh hm hxs =>
    .function (hK.place hn) (hK.opener ho) (hK.names hname) (hh.mono hK) (hK.opener hm)
      (likeAll_mono hK xs hxs)
  | .struct _ _ _, _, .struct hn hname hbs =>
    .struct (hK.place hn) (hK.names hname) (hbs.imp fun _ _ => Binder.Like.mono hK)
  | .cls _ _ _ xs, _, .cls hn ho hh hm hxs =>
    .cls (hK.place hn) (hK.opener ho) (hh.mono hK) (hK.opener hm) (likeAll_mono hK xs hxs)
  | .template _ _ _ xs, _, .template hn ho hh hm hxs =>
    .template (hK.place hn) (hK.opener ho) (hh.mono hK) (hK.opener hm) (likeAll_mono hK xs hxs)
  | .ifThen _ e x, _, .ifThen hn he hx => .ifThen (hK.place hn) (e.like_mono hK he) (like_mono hK x hx)
  | .ifElse _ e x y, _, .ifElse hn he hx hy =>
    .ifElse (hK.place hn) (e.like_mono hK he) (like_mono hK x hx) (like_mono hK y hy)
  | .loop _ e x, _, .loop hn he hx => .loop (hK.place hn) (e.like_mono hK he) (like_mono hK x hx)
  | .ret _ none, _, .ret hn .none => .ret (hK.place hn) .none
  | .ret _ (some e), _, .ret hn (.some he) => .ret (hK.place hn) (.some (e.like_mono hK he))
  | .action _ e, _, .action hn he => .action (hK.place hn) (e.like_mono hK he)

theorem likeAll_mono (hK : K.Le L) : ∀ (xs : List Stmt) {xs' : List Stmt},
    List.Forall₂ (Like K) xs xs' → List.Forall₂ (Like L) xs xs'
  | [], _, .nil => .nil
  | x :: xs, _, .cons hx hxs => .cons (like_mono hK x hx) (likeAll_mono hK xs hxs)

end

namespace Like

variable {x x' : Stmt}

theorem id (h : x.Like K x') : x.id = x'.id := by
  cases h with
  | block hn => exact K.opener_id hn
  | «variable» hb | field hb => exact K.place_id hb.node
  | _ => exact K.place_id ‹_›

theorem isReturnContainer (h : x.Like K x') : x.isReturnContainer = x'.isReturnContainer := by
  cases h <;> rfl

theorem isMember (h : x.Like K x') : x.isMember = x'.isMember := by cases h <;> rfl

end Like

end Stmt

end ScriptAnalysis
