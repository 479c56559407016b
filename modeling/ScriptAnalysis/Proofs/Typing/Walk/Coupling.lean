import ScriptAnalysis.Proofs.Tree.Parenthesised
import ScriptAnalysis.Proofs.Typing.Likeness
import ScriptAnalysis.Proofs.Typing.Walk.Unfolding

/-!
Two walks side by side over trees that are alike. What the walks do is a list of steps; if each of them
keeps a relation between drafts (`Coupling.Lawful`), so do the walks over statements (`Coupling.sim_stmt`).
-/
namespace ScriptAnalysis

variable {K : Placing}

def Declaration.ofNode (n : Node) (name : String) (kind : DeclarationKind) : Declaration :=
  { name, kind, node := some n.id, span := n.span }

structure Declaration.Edit (f : Declaration → Declaration) : Prop where
  name : ∀ x, (f x).name = x.name
  node : ∀ x, (f x).node = x.node
  unplaced : ∀ x, (f x).unplaced = f x.unplaced

theorem Declaration.Edit.bodyScope (s : ScopeId) : Edit fun x => { x with bodyScope := some s } :=
  ⟨fun _ => rfl, fun _ => rfl, fun _ => rfl⟩

theorem Declaration.Edit.kind (k : DeclarationKind) : Edit fun x => { x with kind := k } :=
  ⟨fun _ => rfl, fun _ => rfl, fun _ => rfl⟩

structure Stmt.Outline where
  id : NodeId
  isReturnContainer : Bool
  isMember : Bool

def Stmt.outline (x : Stmt) : Outline := ⟨x.id, x.isReturnContainer, x.isMember⟩

theorem Stmt.Like.outline {x x' : Stmt} (h : x.Like K x') : x.outline = x'.outline := by
  rw [Stmt.outline, Stmt.outline, h.id, h.isReturnContainer, h.isMember]

theorem Stmt.Like.outlines {xs xs' : List Stmt} (h : List.Forall₂ (Stmt.Like K) xs xs') :
    xs.map Stmt.outline = xs'.map Stmt.outline := by
  induction h with
  | nil => rfl
  | cons hx _ ih => rw [List.map_cons, List.map_cons, ih, hx.outline]

theorem Stmt.outline_mapExprs (f : Expr → Expr) (x : Stmt) : (x.mapExprs f).outline = x.outline := by
  cases x <;> rfl

theorem Stmt.map_outline_mapExprsAll (f : Expr → Expr) (xs : List Stmt) :
    (mapExprsAll f xs).map outline = xs.map outline := by
  induction xs with
  | nil => rfl
  | cons x xs ih => rw [mapExprsAll, List.map_cons, List.map_cons, ih, outline_mapExprs]

/-- Relations between the drafts of two walks, given declarations that the walks made under names. -/
def Coupling := List (String × DeclId) → Draft → Draft → Prop

namespace Coupling

structure Lawful (C : Coupling) (K : Placing) : Prop where
  scopes : ∀ {F d d'}, C F d d' → d.tables.scopes = d'.tables.scopes
  declarations : ∀ {F d d'}, C F d d' → d.tables.declarations.unplaced = d'.tables.declarations.unplaced
  forget : ∀ {F d d'} x, C (x :: F) d d' → C F d d'
  write : ∀ {F d d'} (f : Attributes → Attributes), C F d d' →
    C F { d with attributes := f d.attributes } { d' with attributes := f d'.attributes }
  tell : ∀ {F d d' n n'} cause, C F d d' → K.place n n' →
    C F (d.tell (.atNode cause n)) (d'.tell (.atNode cause n'))
  owe : ∀ {F d d' n n' g g'}, C F d d' → Obligation.Like K ⟨n, g⟩ ⟨n', g'⟩ → C F (d.owe n g) (d'.owe n' g')
  opening : ∀ {F d d'} s k, C F d d' → C F (d.opening s k) (d'.opening s k)
  bind : ∀ {F d d' s name i t}, C F d d' → (name, i) ∈ F → d.tables.scopes.declare s name i = .ok t →
    C F (d.withScopes t) (d'.withScopes t)
  declaring : ∀ {F d d' n n'} name k, C F d d' → K.place n n' →
    C ((name, ⟨d.size⟩) :: F) (d.declaring (.ofNode n name k)) (d'.declaring (.ofNode n' name k))
  listing : ∀ {F d d'} sig i, C F d d' → C F (d.listing sig i) (d'.listing sig i)
  modify : ∀ {F d d' f i t t'} name, C F d d' → (name, i) ∈ F → Declaration.Edit f →
    d.tables.declarations.modify i f = .ok t → d'.tables.declarations.modify i f = .ok t' →
    C F (d.withDeclarations t) (d'.withDeclarations t')

/-- The second walk succeeds where the first does, with the same result and in a draft that corresponds. -/
def Sim (C : Coupling) (F : List (String × DeclId)) {α : Type} (m m' : Walk α) : Prop :=
  ∀ d d' a e, C F d d' → m d = .ok a e → ∃ e', m' d' = .ok a e' ∧ C F e e'

variable {C : Coupling} {F : List (String × DeclId)} {α β : Type}

theorem Sim.bind {m m' : Walk α} {k k' : α → Walk β} (hm : C.Sim F m m')
    (hk : ∀ a, C.Sim F (k a) (k' a)) : C.Sim F (m >>= k) (m' >>= k') := by
  intro d d' b f hR hb
  obtain ⟨a, e, ha, hb⟩ := Walk.bind_eq_ok.1 hb
  obtain ⟨e', ha', he⟩ := hm d d' a e hR ha
  obtain ⟨f', hb', hf⟩ := hk a e e' b f he hb
  exact ⟨f', Walk.bind_eq_ok.2 ⟨a, e', ha', hb'⟩, hf⟩

theorem sim_pure (a : α) : C.Sim F (pure a) (pure a) := by
  rintro d d' _ _ hR ⟨⟩
  exact ⟨d', rfl, hR⟩

theorem sim_get {k k' : Draft → Walk β} (h : ∀ d d', C F d d' → C.Sim F (k d) (k' d')) :
    C.Sim F (do k (← get)) (do k' (← get)) :=
  fun d d' b e hR he => h d d' hR d d' b e hR he

/-- What is read of the drafts, with results that are related. -/
theorem sim_check {x y : Except Fault α} {Q : α → α → Prop} (h : Follows Q x y) {k k' : α → Walk β}
    (hk : ∀ a b, Q a b → C.Sim F (k a) (k' b)) : C.Sim F (Walk.check x >>= k) (Walk.check y >>= k') := by
  cases x with
  | error f =>
    intro d d' b e _ he
    cases he
  | ok a =>
    obtain ⟨b, rfl, hab⟩ := h a rfl
    exact hk a b hab

theorem sim_mapM {f f' : α → Walk β} {R : α → α → Prop} {as as' : List α} (has : List.Forall₂ R as as')
    (h : ∀ a a', R a a' → C.Sim F (f a) (f' a')) : C.Sim F (as.mapM f) (as'.mapM f') := by
  induction has with
  | nil => exact sim_pure []
  | cons ha _ ih =>
    rw [List.mapM_cons, List.mapM_cons]
    exact (h _ _ ha).bind fun b => ih.bind fun bs => sim_pure (b :: bs)

theorem sim_forM {f f' : α → Walk Unit} {R : α → α → Prop} {as as' : List α} (has : List.Forall₂ R as as')
    (h : ∀ a a', R a a' → C.Sim F (f a) (f' a')) : C.Sim F (as.forM f) (as'.forM f') := by
  induction has with
  | nil => exact sim_pure ()
  | cons ha _ ih => exact (h _ _ ha).bind fun _ => ih

section Steps

variable (hC : C.Lawful K) {n n' : Node} {s : ScopeId} {i : DeclId}
include hC

theorem sim_setAttribute {a a' : Attribute} (ha : a = a') (v : Value) :
    C.Sim F (Walk.setAttribute a v) (Walk.setAttribute a' v) := by
  rintro d d' _ _ hR ⟨⟩
  exact ⟨_, rfl, ha ▸ hC.write (·.set a v) hR⟩

theorem sim_type (hn : K.place n n') (v : Value) :
    C.Sim F (Walk.setAttribute (.typeOf n.id) v) (Walk.setAttribute (.typeOf n'.id) v) :=
  sim_setAttribute hC (congrArg _ (K.place_id hn)) v

theorem sim_returns (hn : K.place n n') (b : Bool) : C.Sim F
    (Walk.setAttribute (.returnsOf n.id) (.flag b)) (Walk.setAttribute (.returnsOf n'.id) (.flag b)) :=
  sim_setAttribute hC (congrArg _ (K.place_id hn)) _

theorem sim_report (cause : Cause) (hn : K.place n n') :
    C.Sim F (Walk.report (.atNode cause n)) (Walk.report (.atNode cause n')) := by
  rintro d d' _ _ hR ⟨⟩
  exact ⟨_, rfl, hC.tell cause hR hn⟩

theorem sim_oblige {g g' : Goal} (h : Obligation.Like K ⟨n, g⟩ ⟨n', g'⟩) :
    C.Sim F (Walk.oblige n g) (Walk.oblige n' g') := by
  rintro d d' _ _ hR ⟨⟩
  exact ⟨_, rfl, hC.owe hR h⟩

theorem sim_openScope (k : ScopeKind) : C.Sim F (Walk.openScope s k) (Walk.openScope s k) := by
  rintro d d' _ _ hR ⟨⟩
  refine ⟨d'.opening s k, ?_, hC.opening s k hR⟩
  rw [hC.scopes hR]
  rfl

theorem sim_bindName {name : String} (hi : (name, i) ∈ F) :
    C.Sim F (Walk.bindName s name i) (Walk.bindName s name i) := by
  intro d d' _ _ hR ha
  obtain ⟨t, ht, rfl⟩ := Walk.bindName_eq_ok ha
  refine ⟨d'.withScopes t, ?_, hC.bind hR hi ht⟩
  show (Walk.check (d'.tables.scopes.declare s name i) >>= fun scopes => set (d'.withScopes scopes)) d' = _
  rw [← hC.scopes hR, ht]
  rfl

theorem sim_declareAt {name : String} {kind : DeclarationKind} (hn : K.place n n') {k k' : DeclId → Walk β}
    (hk : ∀ i, C.Sim ((name, i) :: F) (k i) (k' i)) :
    C.Sim F (Walk.declareAt n name kind >>= k) (Walk.declareAt n' name kind >>= k') := by
  intro d d' b e hR he
  have hsize : d.size = d'.size := Declarations.size_of_unplaced (hC.declarations hR)
  obtain ⟨e', he', hCe⟩ := hk ⟨d.size⟩ _ _ b e (hC.declaring name kind hR hn) he
  exact ⟨e', by rw [hsize] at he'; exact he', hC.forget _ hCe⟩

theorem sim_registerSignature (sig : Signature) :
    C.Sim F (Walk.registerSignature sig i) (Walk.registerSignature sig i) := by
  rintro d d' _ _ hR ⟨⟩
  exact ⟨_, rfl, hC.listing sig i hR⟩

theorem sim_modifyDeclaration {name : String} (hi : (name, i) ∈ F) {f : Declaration → Declaration}
    (hf : Declaration.Edit f) : C.Sim F (Walk.modifyDeclaration i f) (Walk.modifyDeclaration i f) := by
  intro d d' _ _ hR ha
  obtain ⟨t, ht, rfl⟩ := Walk.modifyDeclaration_eq_ok ha
  obtain ⟨t', ht', _⟩ := Declarations.follows_modify (hC.declarations hR) i hf.unplaced t ht
  refine ⟨d'.withDeclarations t', ?_, hC.modify name hR hi hf ht ht'⟩
  show (Walk.check (d'.tables.declarations.modify i f) >>= fun declarations =>
    set (d'.withDeclarations declarations)) d' = _
  rw [ht']
  rfl

theorem sim_declaration {k k' : Declaration → Walk β}
    (hk : ∀ x x', x.unplaced = x'.unplaced → C.Sim F (k x) (k' x')) :
    C.Sim F (Walk.declaration i >>= k) (Walk.declaration i >>= k') := by
  refine sim_get (h := fun d d' hR => (?_ : C.Sim F (Walk.check (d.tables.declarations.get i) >>= k)
    (Walk.check (d'.tables.declarations.get i) >>= k')))
  exact sim_check (Declarations.follows_get (hC.declarations hR) i) hk

theorem sim_scopes {f : ScopeTable → Except Fault α} {k k' : α → Walk β} (hk : ∀ a, C.Sim F (k a) (k' a)) :
    C.Sim F (do k (← Walk.check (f (← get).tables.scopes))) (do k' (← Walk.check (f (← get).tables.scopes))) := by
  refine sim_get (h := fun d d' hR => (?_ : C.Sim F (Walk.check (f d.tables.scopes) >>= k)
    (Walk.check (f d'.tables.scopes) >>= k')))
  rw [hC.scopes hR]
  exact sim_check (fun a ha => ⟨a, ha, rfl⟩) fun a _ hab => hab ▸ hk a

theorem sim_reference {r r' : Reference} (hr : r.Like K r') :
    C.Sim F (Walk.reference s r) (Walk.reference s r') := by
  obtain ⟨n, name⟩ := r
  obtain ⟨n', name'⟩ := r'
  obtain ⟨hn, rfl, _⟩ := hr
  have hid : n.id = n'.id := K.place_id hn
  refine sim_scopes hC (f := fun t => t.lookup s name) fun o => ?_
  cases o with
  | none => exact sim_oblige hC (.place hn (.plain rfl))
  | some found =>
    refine (sim_setAttribute hC (congrArg _ hid) _).bind fun _ =>
      (sim_setAttribute hC (congrArg _ hid) _).bind fun _ => ?_
    simp only [hid]
    exact sim_oblige hC (.place hn (.plain rfl))

theorem sim_typeExpr {t t' : TypeExpr} (h : t.Like K t') :
    C.Sim F (Walk.typeExpr s t) (Walk.typeExpr s t') := by
  induction h with
  | name hn => exact sim_oblige hC (.place hn (.plain rfl))
  | container hn ht ih =>
    refine ih.bind fun _ => ?_
    rw [ht.id]
    exact sim_oblige hC (.place hn (.plain rfl))

theorem sim_emptyLiteral (hn : K.place n n') (c : Container) (x : Expectation) :
    C.Sim F (Walk.emptyLiteral n c x) (Walk.emptyLiteral n' c x) := by
  cases x with
  | free =>
    refine (sim_report hC _ hn).bind fun _ => ?_
    rintro d d' _ _ hR ⟨⟩
    exact ⟨_, rfl, K.place_id hn ▸ hC.write (·.fail (.typeOf n.id)) hR⟩
  | «variable» | argument => exact sim_oblige hC (.place hn (.plain rfl))

/-- A node that has a type at once, and a goal there. -/
theorem sim_typed (hn : K.place n n') (v : Value) {g g' : Goal} (hg : g.Like K g') :
    C.Sim F
      (do Walk.setAttribute (.typeOf n.id) v
          Walk.oblige n g)
      (do Walk.setAttribute (.typeOf n'.id) v
          Walk.oblige n' g') :=
  (sim_type hC hn v).bind fun _ => sim_oblige hC (.place hn hg)

theorem sim_binary (hn : K.place n n') (op : BinaryOp) {l l' r r' : Expr} (hl : l.Like K l')
    (hr : r.Like K r') : C.Sim F (Walk.binary n op l r) (Walk.binary n' op l' r') := by
  unfold Walk.binary
  rw [hl.id, hr.id]
  cases op.family with
  | arithmetic => exact sim_oblige hC (.place hn (.plain rfl))
  | equality => exact sim_typed hC hn _ (.plain rfl)
  | comparison => exact sim_typed hC hn _ (.comparison hl.node hr.node)
  | logic => exact sim_typed hC hn _ (.logic hl.node hr.node)

end Steps

mutual

theorem sim_expr (hC : C.Lawful K) (hK : ∀ i, K.calls i) (s : ScopeId) :
    ∀ (e : Expr) {e' : Expr}, e.Like K e' → ∀ x : Expectation, C.Sim F (Walk.expr Walk.reference s x e) (Walk.expr Walk.reference s x e')
  | .int _ _, _, .int hn, _ | .float _ _, _, .float hn, _ | .string _ _, _, .string hn, _ =>
    sim_type hC hn _
  | .symbol _, _, .symbol hr, _ => sim_reference hC hr
  | .paren _ e, _, .paren hn he, _ => by
    refine (sim_expr hC hK s e he .free).bind fun _ => ?_
    rw [he.id, K.place_id hn]
    exact sim_oblige hC (.place hn (.plain rfl))
  | .literal _ c es, _, .literal hn hes, x => by
    unfold Walk.expr
    cases hes with
    | nil => exact sim_emptyLiteral hC hn c x
    | cons he hrest =>
      exact (sim_exprs hC hK s _ (.cons he hrest)).bind fun _ =>
        sim_oblige hC (.place hn (.literal (Expr.Like.map_node (.cons he hrest))))
  | .not _ e, _, .not hn he, _ => by
    refine (sim_expr hC hK s e he .free).bind fun _ => ?_
    rw [he.id]
    exact sim_typed hC hn _ (.plain rfl)
  | .binary _ op l r, _, .binary hn hl hr, _ =>
    (sim_expr hC hK s l hl .free).bind fun _ => (sim_expr hC hK s r hr .free).bind fun _ =>
      sim_binary hC hn op hl hr
  | .assign _ l r, _, .assign hn hl hr, _ => by
    refine (sim_expr hC hK s l hl .free).bind fun _ => (sim_expr hC hK s r hr .free).bind fun _ => ?_
    rw [hr.id, hl.isPlace]
    exact sim_oblige hC (.place hn (.assignment hl.node))
  | .call _ e es, _, .call hn he hes, _ => by
    refine (sim_expr hC hK s e he .free).bind fun _ => ?_
    rw [he.id, Callee.of_like he]
    exact (sim_exprArguments hC hK s es hes _ 0).bind fun _ =>
      sim_oblige hC (.place hn (.call (hK _) (Expr.Like.map_node hes)))
  | .templateCall _ e ts es, _, .templateCall hn he hts hes, _ => by
    refine (sim_expr hC hK s e he .free).bind fun _ => ?_
    rw [he.id, e.render_of_like he, TypeExpr.Like.map_id hts]
    exact (sim_forM hts fun _ _ => sim_typeExpr hC).bind fun _ => (sim_exprArguments hC hK s es hes _ 0).bind fun _ =>
      sim_oblige hC (.place hn (.templateCall (Expr.Like.map_node hes)))
  | .index _ l r, _, .index hn hl hr, _ => by
    refine (sim_expr hC hK s l hl .free).bind fun _ => (sim_expr hC hK s r hr .free).bind fun _ => ?_
    rw [hl.id]
    exact sim_oblige hC (.place hn (.index hr.node))
  | .member _ _ e _, _, .member hn he, _ => by
    refine (sim_expr hC hK s e he .free).bind fun _ => ?_
    rw [he.id]
    exact sim_oblige hC (.place hn (.plain rfl))
  | .construct _ _ _, _, .construct hn hr, _ => by
    refine (sim_reference hC hr).bind fun _ => ?_
    rw [K.place_id hr.node, hr.name]
    exact sim_oblige hC (.place hn (.plain rfl))

theorem sim_exprs (hC : C.Lawful K) (hK : ∀ i, K.calls i) (s : ScopeId) :
    ∀ (es : List Expr) {es' : List Expr}, List.Forall₂ (Expr.Like K) es es' →
    C.Sim F (Walk.exprs Walk.reference s es) (Walk.exprs Walk.reference s es')
  | [], _, .nil => sim_pure ()
  | e :: es, _, .cons he hes => (sim_expr hC hK s e he .free).bind fun _ => sim_exprs hC hK s es hes

theorem sim_exprArguments (hC : C.Lawful K) (hK : ∀ i, K.calls i) (s : ScopeId) :
    ∀ (es : List Expr) {es' : List Expr}, List.Forall₂ (Expr.Like K) es es' → ∀ (callee : NodeId) (k : Nat),
    C.Sim F (Walk.exprArguments Walk.reference s callee k es)
      (Walk.exprArguments Walk.reference s callee k es')
  | [], _, .nil, _, _ => sim_pure ()
  | e :: es, _, .cons he hes, callee, k =>
    (sim_expr hC hK s e he (.argument callee k)).bind fun _ => sim_exprArguments hC hK s es hes callee (k + 1)

end

section Declarations

variable (hC : C.Lawful K) {n n' : Node} {s : ScopeId} {b b' : Binder}
include hC

theorem sim_written (i : DeclId) (hb : b.Like K b') :
    C.Sim F (Walk.oblige b.node (.copy (.valueOf b.type.id) (.typeOfDecl i)))
      (Walk.oblige b'.node (.copy (.valueOf b'.type.id) (.typeOfDecl i))) := by
  rw [hb.type.id]
  exact sim_oblige hC (.place hb.node (.plain rfl))

theorem sim_field (hb : b.Like K b') (bound : Bool) :
    C.Sim F (Walk.field s b bound) (Walk.field s b' bound) := by
  unfold Walk.field
  rw [← hb.name]
  refine (sim_typeExpr hC hb.type).bind fun _ => sim_declareAt hC hb.node fun i => ?_
  have hrest := (sim_written (F := (b.name, i) :: F) hC i hb).bind fun _ => sim_pure i
  cases bound with
  | false => exact hrest
  | true => exact (sim_bindName hC (.head _)).bind fun _ => hrest

theorem sim_parameter (hb : b.Like K b') : C.Sim F (Walk.parameter s b) (Walk.parameter s b') := by
  unfold Walk.parameter
  rw [← hb.name]
  exact (sim_typeExpr hC hb.type).bind fun _ => sim_declareAt hC hb.node fun i =>
    (sim_bindName hC (.head _)).bind fun _ => (sim_written hC i hb).bind fun _ => sim_pure i

theorem sim_typeParameter (hb : b.Like K b') :
    C.Sim F (Walk.typeParameter s b) (Walk.typeParameter s b') := by
  unfold Walk.typeParameter
  rw [← hb.name]
  exact (sim_typeExpr hC hb.type).bind fun _ => sim_declareAt hC hb.node fun i =>
    (sim_bindName hC (.head _)).bind fun _ => (sim_setAttribute hC rfl _).bind fun _ =>
    (sim_setAttribute hC rfl _).bind fun _ => sim_pure i

theorem sim_variableDecl (hb : b.Like K b') {v v' : Expr} (hv : K.place v.node v'.node)
    (h : ∀ {F} x, C.Sim F (Walk.expr Walk.reference s x v) (Walk.expr Walk.reference s x v')) :
    C.Sim F (Walk.variableDecl Walk.reference s b v) (Walk.variableDecl Walk.reference s b' v') := by
  unfold Walk.variableDecl
  rw [← hb.name]
  exact (sim_typeExpr hC hb.type).bind fun _ => sim_declareAt hC hb.node fun i => (h _).bind fun _ =>
    (sim_bindName hC (.head _)).bind fun _ => (sim_written hC i hb).bind fun _ =>
    sim_oblige hC (.place hb.node (.initializer hv))

end Declarations

section Heads

variable (hC : C.Lawful K) {n n' : Node} {s : ScopeId} {i : DeclId}
include hC

theorem sim_openBody {name : String} (ho : K.opener n n') (hi : (name, i) ∈ F) :
    C.Sim F (Walk.openBody s n i) (Walk.openBody s n' i) :=
  (sim_openScope hC _).bind fun t => (sim_modifyDeclaration hC hi (.bodyScope t)).bind fun _ =>
    (sim_setAttribute hC (congrArg _ (K.opener_id ho)) _).bind fun _ => sim_pure t

theorem sim_functionHead {h h' : FunctionHead} (hn : K.place n n') (ho : K.opener n n')
    (hh : h.Like K h') : C.Sim F (Walk.functionHead s n h) (Walk.functionHead s n' h') := by
  unfold Walk.functionHead
  rw [← hh.name, ← hh.visibility, ← hh.result.id, ← Binder.Like.map_render hh.parameters,
    ← Binder.Like.map_typeId hh.parameters]
  exact sim_declareAt hC hn fun i => (sim_bindName hC (.head _)).bind fun _ =>
    (sim_registerSignature hC _).bind fun _ => (sim_openBody hC ho (.head _)).bind fun t =>
    (sim_mapM hh.parameters fun _ _ => sim_parameter hC).bind fun ps => (sim_typeExpr hC hh.result).bind fun _ =>
    (sim_modifyDeclaration hC (.head _) (.kind _)).bind fun _ =>
    (sim_oblige hC (.place hn (.plain rfl))).bind fun _ => sim_pure t

theorem sim_templateHead {h h' : TemplateHead} (hn : K.place n n') (ho : K.opener n n')
    (hh : h.Like K h') : C.Sim F (Walk.templateHead s n h) (Walk.templateHead s n' h') := by
  unfold Walk.templateHead
  rw [← hh.name, ← hh.result.id, ← Binder.Like.map_typeId hh.parameters]
  exact sim_declareAt hC hn fun i => (sim_bindName hC (.head _)).bind fun _ =>
    (sim_openBody hC ho (.head _)).bind fun t =>
    (sim_mapM hh.typeParameters fun _ _ => sim_typeParameter hC).bind fun ts =>
    (sim_mapM hh.parameters fun _ _ => sim_parameter hC).bind fun ps => (sim_typeExpr hC hh.result).bind fun _ =>
    (sim_modifyDeclaration hC (.head _) (.kind _)).bind fun _ =>
    (sim_oblige hC (.place hn (.plain rfl))).bind fun _ => sim_pure t

theorem sim_struct {name : String} {bs bs' : List Binder} (hn : K.place n n')
    (hbs : List.Forall₂ (Binder.Like K) bs bs') :
    C.Sim F (Walk.struct s n name bs) (Walk.struct s n' name bs') :=
  sim_declareAt hC hn fun _ => (sim_bindName hC (.head _)).bind fun _ =>
    (sim_setAttribute hC rfl _).bind fun _ => (sim_setAttribute hC rfl _).bind fun _ =>
    (sim_mapM hbs fun _ _ hb => sim_field hC hb false).bind fun _ =>
    sim_modifyDeclaration hC (.head _) (.kind _)

theorem sim_superclass {x x' : Superclass} (hx : x.Like K n n' x') :
    C.Sim F (Walk.superclass s n x) (Walk.superclass s n' x') := by
  unfold Walk.superclass
  rw [← hx.name]
  refine sim_scopes hC (f := fun t => t.lookup s x.name) fun o => ?_
  cases o with
  | none => exact (sim_report hC _ hx.place).bind fun _ => sim_pure none
  | some found =>
    refine sim_declaration hC fun y y' hy => ?_
    rw [show y.kind = y'.kind from congrArg (·.kind) hy]
    dsimp only
    cases y'.kind.class? with
    | none => exact (sim_report hC _ hx.place).bind fun _ => sim_pure none
    | some _ => exact sim_pure _

/-- The last part of the head of a class, and what is done with the class. -/
theorem sim_openClass {h h' : ClassHead} (hh : h.name = h'.name) (ho : K.opener n n') {xs : List DeclId}
    {w i : DeclId} (hw : (h.name, w) ∈ F) (hi : (h.name, i) ∈ F) {k k' : Walk.OpenClass → Walk β}
    (hk : ∀ t, C.Sim F (k ⟨w, i, xs, t⟩) (k' ⟨w, i, xs, t⟩)) :
    C.Sim F (Walk.openClass s n h xs w i >>= k) (Walk.openClass s n' h' xs w i >>= k') := by
  unfold Walk.openClass
  simp only [List.forIn_cons, List.forIn_nil, bind_assoc, pure_bind, ← hh]
  have hset := fun a v => sim_setAttribute (F := F) hC (rfl : a = a) v
  have hedit := fun {i : DeclId} (hi : (h.name, i) ∈ F) (t : ScopeId) => sim_modifyDeclaration hC hi
    (.bodyScope t)
  exact (hset _ _).bind fun _ => (hset _ _).bind fun _ => (hset _ _).bind fun _ => (hset _ _).bind fun _ =>
    (sim_openScope hC _).bind fun t => (hedit hw t).bind fun _ => (hedit hi t).bind fun _ =>
    (sim_setAttribute hC (congrArg _ (K.opener_id ho)) _).bind fun _ => hk t

theorem sim_classHead {h h' : ClassHead} (hn : K.place n n') (ho : K.opener n n') (hh : h.Like K n n' h')
    {k k' : Walk.OpenClass → Walk β} (hk : ∀ {F} c, (h.name, c.written) ∈ F → (h.name, c.effective) ∈ F →
      C.Sim F (k c) (k' c)) :
    C.Sim F (Walk.classHead s n h >>= k) (Walk.classHead s n' h' >>= k') := by
  have hempty : h.superclasses.isEmpty = h'.superclasses.isEmpty := by
    have hxs := hh.superclasses
    generalize h.superclasses = xs at hxs
    generalize h'.superclasses = xs' at hxs
    cases hxs <;> rfl
  rw [Walk.classHead_eq, Walk.classHead_eq, ← hempty, ← hh.name, ← hh.visibility]
  simp only [bind_assoc]
  refine sim_declareAt hC hn fun w => (sim_bindName hC (.head _)).bind fun _ =>
    (sim_mapM hh.superclasses fun _ _ => sim_superclass hC).bind fun found => ?_
  cases h.superclasses.isEmpty with
  | true => exact sim_openClass hC hh.name ho (.head _) (.head _) fun t => hk _ (.head _) (.head _)
  | false =>
    simp only [Bool.false_eq_true, if_false, bind_assoc]
    exact sim_declareAt hC hn fun i => (sim_bindName hC (.head _)).bind fun _ =>
      sim_openClass hC hh.name ho (.tail _ (.head _)) (.head _) fun t =>
        hk _ (.tail _ (.head _)) (.head _)

theorem sim_setMembers {name : String} (hi : (name, i) ∈ F) (own members : List DeclId) :
    C.Sim F (Walk.setMembers i own members) (Walk.setMembers i own members) := by
  refine sim_modifyDeclaration hC hi ⟨?_, ?_, ?_⟩ <;>
  · rintro ⟨_, k, _, _, _⟩
    cases k <;> rfl

/-- The members of a class whose bodies have the same outline. -/
theorem sim_classMembers {name : String} {c : Walk.OpenClass} {xs xs' : List Stmt}
    (hw : (name, c.written) ∈ F) (hi : (name, c.effective) ∈ F)
    (hxs : xs.map Stmt.outline = xs'.map Stmt.outline) :
    C.Sim F (Walk.classMembers c xs) (Walk.classMembers c xs') := by
  unfold Walk.classMembers
  refine sim_get fun d d' hR => ?_
  have hown : ∀ (t : Declarations) (ys : List Stmt), (ys.filter Stmt.isMember).filterMap (t.forNode? ·.id) =
      ((ys.map Stmt.outline).filter (·.isMember)).filterMap (t.forNode? ·.id) := fun t ys => by
    rw [List.filter_map, List.filterMap_map]
    rfl
  dsimp only
  rw [hown, hown, hxs, funext (Declarations.forNode?_of_unplaced (hC.declarations hR))]
  refine (sim_mapM (List.forall₂_same.2 fun _ _ => rfl) fun j _ hj => hj ▸ ?_).bind fun is =>
    (sim_setMembers hC hw _ _).bind fun _ => sim_setMembers hC hi _ _
  refine sim_declaration hC fun x x' hx => ?_
  rw [show x.kind = x'.kind from congrArg (·.kind) hx]
  exact sim_pure _

end Heads

section Stmts

variable (hC : C.Lawful K) {n n' m m' : Node} {s : ScopeId} {xs xs' : List Stmt}
include hC

theorem sim_leaveBlock (hxs : xs.map Stmt.outline = xs'.map Stmt.outline) (hn : K.opener n n') :
    C.Sim F (Walk.leaveBlock n xs) (Walk.leaveBlock n' xs') := by
  have hids : ∀ ys : List Stmt, (ys.filter Stmt.isReturnContainer).map Stmt.id =
      ((ys.map Stmt.outline).filter (·.isReturnContainer)).map (·.id) := fun ys => by
    rw [List.filter_map, List.map_map]
    rfl
  have hcs := (hids xs).trans ((congrArg (fun l => (List.filter (·.isReturnContainer) l).map (·.id)) hxs).trans
    (hids xs').symm)
  unfold Walk.leaveBlock
  generalize xs.filter Stmt.isReturnContainer = cs at hcs
  generalize xs'.filter Stmt.isReturnContainer = cs' at hcs
  cases cs with
  | nil =>
    obtain rfl : cs' = [] := by simpa using hcs.symm
    exact sim_setAttribute hC (congrArg _ (K.opener_id hn)) _
  | cons c cs =>
    cases cs' with
    | nil => cases hcs
    | cons c' cs' =>
      simp only [hcs]
      exact sim_oblige hC (.block hn)

theorem sim_body {k k' : Walk Unit} (hxs : xs.map Stmt.outline = xs'.map Stmt.outline) (hn : K.opener n n')
    (hbody : C.Sim F (Walk.stmts Walk.reference s xs) (Walk.stmts Walk.reference s xs')) (hk : C.Sim F k k') :
    C.Sim F
      (do Walk.enterBlock s n
          Walk.stmts Walk.reference s xs
          Walk.leaveBlock n xs
          k)
      (do Walk.enterBlock s n'
          Walk.stmts Walk.reference s xs'
          Walk.leaveBlock n' xs'
          k') :=
  (sim_setAttribute hC (congrArg _ (K.opener_id hn)) _).bind fun _ => hbody.bind fun _ =>
    (sim_leaveBlock hC hxs hn).bind fun _ => hk

section Bodies

variable (hxs : xs.map Stmt.outline = xs'.map Stmt.outline)
  (hbody : ∀ {F} s, C.Sim F (Walk.stmts Walk.reference s xs) (Walk.stmts Walk.reference s xs'))
include hxs hbody

theorem sim_block (hn : K.opener n n') : C.Sim F (Walk.stmt Walk.reference s (.block n xs))
    (Walk.stmt Walk.reference s (.block n' xs')) := by
  unfold Walk.stmt
  exact (sim_openScope hC _).bind fun t => (sim_setAttribute hC (congrArg _ (K.opener_id hn)) _).bind fun _ =>
    (hbody t).bind fun _ => sim_leaveBlock hC hxs hn

theorem sim_function {h h' : FunctionHead} (hn : K.place n n') (ho : K.opener n n') (hh : h.Like K h')
    (hm : K.opener m m') : C.Sim F (Walk.stmt Walk.reference s (.function n h m xs))
      (Walk.stmt Walk.reference s (.function n' h' m' xs')) := by
  unfold Walk.stmt
  rw [← hh.result.id, K.opener_id hm]
  exact (sim_functionHead hC hn ho hh).bind fun t =>
    sim_body hC hxs hm (hbody t) (sim_oblige hC (.place hn (.plain rfl)))

theorem sim_template {h h' : TemplateHead} (hn : K.place n n') (ho : K.opener n n') (hh : h.Like K h')
    (hm : K.opener m m') : C.Sim F (Walk.stmt Walk.reference s (.template n h m xs))
      (Walk.stmt Walk.reference s (.template n' h' m' xs')) := by
  unfold Walk.stmt
  rw [← hh.result.id, K.opener_id hm]
  exact (sim_templateHead hC hn ho hh).bind fun t =>
    sim_body hC hxs hm (hbody t) (sim_oblige hC (.place hn (.plain rfl)))

theorem sim_cls {h h' : ClassHead} (hn : K.place n n') (ho : K.opener n n') (hh : h.Like K n n' h')
    (hm : K.opener m m') : C.Sim F (Walk.stmt Walk.reference s (.cls n h m xs))
      (Walk.stmt Walk.reference s (.cls n' h' m' xs')) := by
  unfold Walk.stmt
  exact sim_classHead hC hn ho hh fun c hw hi =>
    sim_body hC hxs hm (hbody c.scope) (sim_classMembers hC hw hi hxs)

end Bodies

section Conditions

variable {e e' : Expr} (hplace : K.place e.node e'.node)
  (he : ∀ {F} x, C.Sim F (Walk.expr Walk.reference s x e) (Walk.expr Walk.reference s x e'))
include hplace he

theorem sim_condition (word : String) : C.Sim F (Walk.condition Walk.reference s e word)
    (Walk.condition Walk.reference s e' word) :=
  (he .free).bind fun _ => sim_oblige hC (.place hplace (.plain rfl))

theorem sim_ifElse {x x' y y' : Stmt} (hn : K.place n n') (hx : x.outline = x'.outline)
    (hy : y.outline = y'.outline)
    (hsx : C.Sim F (Walk.stmt Walk.reference s x) (Walk.stmt Walk.reference s x'))
    (hsy : C.Sim F (Walk.stmt Walk.reference s y) (Walk.stmt Walk.reference s y')) :
    C.Sim F (Walk.stmt Walk.reference s (.ifElse n e x y)) (Walk.stmt Walk.reference s (.ifElse n' e' x' y')) := by
  unfold Walk.stmt
  rw [show x.id = x'.id from congrArg (·.id) hx, show y.id = y'.id from congrArg (·.id) hy,
    show x.isReturnContainer = x'.isReturnContainer from congrArg (·.isReturnContainer) hx,
    show y.isReturnContainer = y'.isReturnContainer from congrArg (·.isReturnContainer) hy]
  refine (sim_condition hC hplace he "If").bind fun _ => hsx.bind fun _ => hsy.bind fun _ => ?_
  split
  · exact sim_oblige hC (.place hn (.plain rfl))
  · exact sim_returns hC hn false

end Conditions

/-- A return, given how its value is walked. -/
theorem sim_ret {v v' : Option Expr} (hn : K.place n n')
    (hv : Option.Rel (fun e e' => K.place e.node e'.node ∧
      ∀ {F} x, C.Sim F (Walk.expr Walk.reference s x e) (Walk.expr Walk.reference s x e')) v v') :
    C.Sim F (Walk.ret Walk.reference s n v) (Walk.ret Walk.reference s n' v') := by
  have howe : C.Sim F (Walk.oweResult s n v) (Walk.oweResult s n' v') := by
    refine sim_scopes hC (f := fun t => t.enclosingFunction s) fun o => ?_
    cases o with
    | none => exact sim_pure ()
    | some i =>
      refine sim_declaration hC fun x x' hx => ?_
      rw [show x.kind = x'.kind from congrArg (·.kind) hx]
      cases x'.kind.result? with
      | none => cases hv <;> exact sim_pure ()
      | some result =>
        cases hv with
        | none => exact sim_oblige hC (.place hn (.plain rfl))
        | some hv => exact sim_oblige hC (.place hn (.valueReturn hv.1))
  refine (sim_returns hC hn true).bind fun _ => ?_
  cases hv with
  | none => exact howe
  | some hv => exact (hv.2 .free).bind fun _ => howe

end Stmts

mutual

theorem sim_stmt (hC : C.Lawful K) (hK : ∀ i, K.calls i) : ∀ (x : Stmt) {x' : Stmt}, x.Like K x' → ∀ {F} (s : ScopeId),
    C.Sim F (Walk.stmt Walk.reference s x) (Walk.stmt Walk.reference s x')
  | .block _ xs, _, .block hn hxs, _, _ =>
    sim_block hC (Stmt.Like.outlines hxs) (sim_stmts hC hK xs hxs) hn
  | .variable _ _, _, .variable hb he, _, s => sim_variableDecl hC hb he.node (sim_expr hC hK s _ he)
  | .field _, _, .field hb, _, _ => (sim_field hC hb true).bind fun _ => sim_pure ()
  | .function _ _ _ xs, _, .function hn ho _ hh hm hxs, _, _ =>
    sim_function hC (Stmt.Like.outlines hxs) (sim_stmts hC hK xs hxs) hn ho hh hm
  | .struct _ _ _, _, .struct hn _ hbs, _, _ => sim_struct hC hn hbs
  | .cls _ _ _ xs, _, .cls hn ho hh hm hxs, _, _ =>
    sim_cls hC (Stmt.Like.outlines hxs) (sim_stmts hC hK xs hxs) hn ho hh hm
  | .template _ _ _ xs, _, .template hn ho hh hm hxs, _, _ =>
    sim_template hC (Stmt.Like.outlines hxs) (sim_stmts hC hK xs hxs) hn ho hh hm
  | .ifThen _ _ x, _, .ifThen hn he hx, _, s =>
    (sim_condition hC he.node (sim_expr hC hK s _ he) "If").bind fun _ => (sim_stmt hC hK x hx s).bind fun _ =>
      sim_returns hC hn false
  | .ifElse _ _ x y, _, .ifElse hn he hx hy, _, s =>
    sim_ifElse hC he.node (sim_expr hC hK s _ he) hn hx.outline hy.outline (sim_stmt hC hK x hx s)
      (sim_stmt hC hK y hy s)
  | .loop _ _ x, _, .loop _ he hx, _, s =>
    (sim_condition hC he.node (sim_expr hC hK s _ he) "While").bind fun _ => sim_stmt hC hK x hx s
  | .ret _ _, _, .ret hn .none, _, _ => sim_ret hC hn .none
  | .ret _ _, _, .ret hn (.some he), _, s => sim_ret hC hn (.some ⟨he.node, sim_expr hC hK s _ he⟩)
  | .action _ e, _, .action _ he, _, s => sim_expr hC hK s e he .free

theorem sim_stmts (hC : C.Lawful K) (hK : ∀ i, K.calls i) : ∀ (xs : List Stmt) {xs' : List Stmt},
    List.Forall₂ (Stmt.Like K) xs xs' → ∀ {F} (s : ScopeId),
    C.Sim F (Walk.stmts Walk.reference s xs) (Walk.stmts Walk.reference s xs')
  | [], _, .nil, _, _ => sim_pure ()
  | x :: xs, _, .cons hx hxs, _, s => (sim_stmt hC hK x hx s).bind fun _ => sim_stmts hC hK xs hxs s

end

mutual

/-- Statements whose expressions are replaced are walked alike if the expressions are. -/
theorem sim_mapExprs (hC : C.Lawful K) {f : Expr → Expr} (hf : ∀ e, (f e).node = e.node)
    (h : ∀ {F} s x e, C.Sim F (Walk.expr Walk.reference s x e) (Walk.expr Walk.reference s x (f e))) :
    ∀ x : Stmt, x.Like K x → ∀ {F} (s : ScopeId),
    C.Sim F (Walk.stmt Walk.reference s x) (Walk.stmt Walk.reference s (x.mapExprs f))
  | .block _ xs, .block hn hxs, _, _ =>
    sim_block hC (Stmt.map_outline_mapExprsAll f xs).symm (sim_mapExprsAll hC hf h xs hxs) hn
  | .variable _ e, .variable hb he, _, s =>
    sim_variableDecl hC hb (hf e ▸ he.node) fun x => h s x e
  | .field _, .field hb, _, _ => (sim_field hC hb true).bind fun _ => sim_pure ()
  | .function _ _ _ xs, .function hn ho _ hh hm hxs, _, _ =>
    sim_function hC (Stmt.map_outline_mapExprsAll f xs).symm (sim_mapExprsAll hC hf h xs hxs) hn ho hh hm
  | .struct _ _ _, .struct hn _ hbs, _, _ => sim_struct hC hn hbs
  | .cls _ _ _ xs, .cls hn ho hh hm hxs, _, _ =>
    sim_cls hC (Stmt.map_outline_mapExprsAll f xs).symm (sim_mapExprsAll hC hf h xs hxs) hn ho hh hm
  | .template _ _ _ xs, .template hn ho hh hm hxs, _, _ =>
    sim_template hC (Stmt.map_outline_mapExprsAll f xs).symm (sim_mapExprsAll hC hf h xs hxs) hn ho hh hm
  | .ifThen _ e x, .ifThen hn he hx, _, s =>
    (sim_condition hC (hf e ▸ he.node) (h s · e) "If").bind fun _ => (sim_mapExprs hC hf h x hx s).bind fun _ =>
      sim_returns hC hn false
  | .ifElse _ e x y, .ifElse hn he hx hy, _, s =>
    sim_ifElse hC (hf e ▸ he.node) (h s · e) hn (x.outline_mapExprs f).symm (y.outline_mapExprs f).symm
      (sim_mapExprs hC hf h x hx s) (sim_mapExprs hC hf h y hy s)
  | .loop _ e x, .loop _ he hx, _, s =>
    (sim_condition hC (hf e ▸ he.node) (h s · e) "While").bind fun _ => sim_mapExprs hC hf h x hx s
  | .ret _ none, .ret hn _, _, _ => sim_ret hC hn .none
  | .ret _ (some e), .ret hn (.some he), _, s => sim_ret hC hn (.some ⟨hf e ▸ he.node, (h s · e)⟩)
  | .action _ e, .action _ _, _, s => h s .free e

theorem sim_mapExprsAll (hC : C.Lawful K) {f : Expr → Expr} (hf : ∀ e, (f e).node = e.node)
    (h : ∀ {F} s x e, C.Sim F (Walk.expr Walk.reference s x e) (Walk.expr Walk.reference s x (f e))) :
    ∀ xs : List Stmt, List.Forall₂ (Stmt.Like K) xs xs → ∀ {F} (s : ScopeId),
    C.Sim F (Walk.stmts Walk.reference s xs) (Walk.stmts Walk.reference s (Stmt.mapExprsAll f xs))
  | [], _, _, _ => sim_pure ()
  | x :: xs, .cons hx hxs, _, s => (sim_mapExprs hC hf h x hx s).bind fun _ => sim_mapExprsAll hC hf h xs hxs s

end

end Coupling

end ScriptAnalysis
