import Mathlib.Logic.Relation
import Mathlib.Order.Basic
import ScriptAnalysis.Proofs.Typing.Entry
import ScriptAnalysis.Typing.Walk

/-!
The changes that a walk makes to its draft. Each part of a walk makes changes of a few kinds only
(`Walk.Does`), so what such changes keep is kept by the walk (`Walk.Does.keeps`).
-/
namespace ScriptAnalysis

def AttributeKind.isBinding : AttributeKind → Bool
  | .decl | .scope => true
  | _ => false

/-- Whether a cause can be told before any type is known. -/
def Cause.isEarly : Cause → Bool
  | .uninferableLiteral _ | .unresolvedName _ | .invalidSuperclass _ _ => true
  | _ => false

inductive Change where
  | write (a : Attribute) (x : Slot)
  | owe (node : Node) (goal : Goal)
  | tell (found : Diagnostic)
  | opening (parent : ScopeId) (kind : ScopeKind)
  | binding (scope : ScopeId) (name : String) (id : DeclId)
  | declaring (x : Declaration)
  | modifying (id : DeclId) (f : Declaration → Declaration)
  | listing (s : Signature) (id : DeclId)

namespace Change

inductive Makes : Change → Draft → Draft → Prop
  | write {d : Draft} {a : Attribute} {x : Slot} :
    Makes (.write a x) d { d with attributes := d.attributes.write a x }
  | owe {d : Draft} {node : Node} {goal : Goal} : Makes (.owe node goal) d (d.owe node goal)
  | tell {d : Draft} {found : Diagnostic} : Makes (.tell found) d (d.tell found)
  | opening {d : Draft} {parent : ScopeId} {kind : ScopeKind} :
    Makes (.opening parent kind) d (d.opening parent kind)
  | binding {d : Draft} {scope : ScopeId} {name : String} {id : DeclId} {t : ScopeTable}
    (h : d.tables.scopes.declare scope name id = .ok t) : Makes (.binding scope name id) d (d.withScopes t)
  | declaring {d : Draft} {x : Declaration} : Makes (.declaring x) d (d.declaring x)
  | modifying {d : Draft} {id : DeclId} {f : Declaration → Declaration} {t : Declarations}
    (h : d.tables.declarations.modify id f = .ok t) : Makes (.modifying id f) d (d.withDeclarations t)
  | listing {d : Draft} {s : Signature} {id : DeclId} : Makes (.listing s id) d (d.listing s id)

def Quiet : Change → Prop
  | .write a _ => a.kind.isBinding = false
  | .owe _ _ => True
  | _ => False

/-- Changes that bind no node, open no scope, tell nothing, and leave declarations at their nodes. -/
def Plain : Change → Prop
  | .write a _ => a.kind.isBinding = false
  | .tell _ | .opening _ _ => False
  | .modifying _ f => ∀ x, (f x).node = x.node
  | _ => True

def Still : Change → Prop
  | .write _ _ | .owe _ _ | .tell _ => True
  | _ => False

/-- Changes that open no scope and leave declarations at their nodes. -/
def Flat : Change → Prop
  | .opening _ _ => False
  | .modifying _ f => ∀ x, (f x).node = x.node
  | _ => True

theorem quiet_le_plain : Quiet ≤ Plain := by rintro ⟨⟩ h <;> first | exact h | exact h.elim
theorem quiet_le_still : Quiet ≤ Still := by rintro ⟨⟩ h <;> first | exact trivial | exact h.elim
theorem plain_le_flat : Plain ≤ Flat := by rintro ⟨⟩ h <;> first | exact h | exact trivial
theorem still_le_flat : Still ≤ Flat := by rintro ⟨⟩ h <;> first | exact h | exact h.elim

end Change

namespace Walk

variable {α β : Type} {S T : Change → Prop} {d d' : Draft}

theorem bind_eq_ok {m : Walk α} {k : α → Walk β} {b : β} :
    (m >>= k) d = .ok b d' ↔ ∃ a d₁, m d = .ok a d₁ ∧ k a d₁ = .ok b d' := by
  show EStateM.bind m k d = _ ↔ _
  unfold EStateM.bind
  cases m d with
  | ok a d₁ => simp
  | error f d₁ => simp

theorem bindName_eq_ok {scope : ScopeId} {name : String} {id : DeclId} {a : Unit}
    (h : bindName scope name id d = .ok a d') :
    ∃ t, d.tables.scopes.declare scope name id = .ok t ∧ d' = d.withScopes t := by
  obtain ⟨_, _, hget, h⟩ := bind_eq_ok.1 h
  cases hget
  obtain ⟨scopes, _, hcheck, h⟩ := bind_eq_ok.1 h
  cases hdeclare : d.tables.scopes.declare scope name id with
  | error f =>
    rw [hdeclare] at hcheck
    cases hcheck
  | ok t =>
    rw [hdeclare] at hcheck
    cases hcheck
    cases h
    exact ⟨_, rfl, rfl⟩

theorem modifyDeclaration_eq_ok {id : DeclId} {f : Declaration → Declaration} {a : Unit}
    (h : modifyDeclaration id f d = .ok a d') :
    ∃ t, d.tables.declarations.modify id f = .ok t ∧ d' = d.withDeclarations t := by
  obtain ⟨_, _, hget, h⟩ := bind_eq_ok.1 h
  cases hget
  obtain ⟨declarations, _, hcheck, h⟩ := bind_eq_ok.1 h
  cases hmodify : d.tables.declarations.modify id f with
  | error f =>
    rw [hmodify] at hcheck
    cases hcheck
  | ok t =>
    rw [hmodify] at hcheck
    cases hcheck
    cases h
    exact ⟨_, rfl, rfl⟩

/-- A walk that makes only changes of some kind. -/
def Does (S : Change → Prop) (m : Walk α) : Prop := ∀ d a d', m d = .ok a d' →
  Relation.ReflTransGen (fun d d' => ∃ c, S c ∧ c.Makes d d') d d'

theorem Does.keeps {m : Walk α} {a : α} {R : Draft → Draft → Prop} (h : Does S m) (refl : ∀ d, R d d)
    (trans : ∀ {d d₁ d₂}, R d d₁ → R d₁ d₂ → R d d₂)
    (change : ∀ {c d d'}, S c → c.Makes d d' → R d d') (hm : m d = .ok a d') : R d d' := by
  have hchanges := h d a d' hm
  clear hm
  induction hchanges with
  | refl => exact refl _
  | tail _ hstep ih =>
    obtain ⟨c, hc, hmakes⟩ := hstep
    exact trans ih (change hc hmakes)

theorem Does.mono {m : Walk α} (h : Does S m) (hST : S ≤ T) : Does T m :=
  fun _ _ _ hm => h.keeps (fun _ => .refl) .trans (fun hc hmakes => .single ⟨_, hST _ hc, hmakes⟩) hm

theorem Does.bind {m : Walk α} {k : α → Walk β} (hm : Does S m) (hk : ∀ a, Does S (k a)) :
    Does S (m >>= k) := by
  intro d b d' h
  obtain ⟨a, d₁, h₁, h₂⟩ := bind_eq_ok.1 h
  exact (hm d a d₁ h₁).trans (hk a d₁ b d' h₂)

theorem does_pure (a : α) : Does S (pure a) := by
  rintro d _ _ ⟨⟩
  exact .refl

theorem does_get : Does S get := by
  rintro d _ _ ⟨⟩
  exact .refl

theorem does_check (r : Except Fault α) : Does S (check r) := by
  cases r with
  | ok a => exact does_pure a
  | error f =>
    intro d b d' h
    cases h

theorem does_setAttribute {a : Attribute} {v : Value} (h : S (.write a (.set v))) :
    Does S (setAttribute a v) := by
  rintro d _ _ ⟨⟩
  exact .single ⟨_, h, .write⟩

theorem does_failAttribute {a : Attribute} (h : S (.write a .failed)) : Does S (failAttribute a) := by
  rintro d _ _ ⟨⟩
  exact .single ⟨_, h, .write⟩

theorem does_report {found : Diagnostic} (h : S (.tell found)) : Does S (report found) := by
  rintro d _ _ ⟨⟩
  exact .single ⟨_, h, .tell⟩

theorem does_oblige {node : Node} {goal : Goal} (h : S (.owe node goal)) : Does S (oblige node goal) := by
  rintro d _ _ ⟨⟩
  exact .single ⟨_, h, .owe⟩

theorem does_openScope {parent : ScopeId} {kind : ScopeKind} (h : S (.opening parent kind)) :
    Does S (openScope parent kind) := by
  rintro d _ _ ⟨⟩
  exact .single ⟨_, h, .opening⟩

theorem does_declare {x : Declaration} (h : S (.declaring x)) : Does S (declare x) := by
  rintro d _ _ ⟨⟩
  exact .single ⟨_, h, .declaring⟩

theorem does_registerSignature {s : Signature} {id : DeclId} (h : S (.listing s id)) :
    Does S (registerSignature s id) := by
  rintro d _ _ ⟨⟩
  exact .single ⟨_, h, .listing⟩

theorem does_bindName {scope : ScopeId} {name : String} {id : DeclId} (h : S (.binding scope name id)) :
    Does S (bindName scope name id) := by
  intro d a d' hbind
  obtain ⟨t, ht, rfl⟩ := bindName_eq_ok hbind
  exact .single ⟨_, h, .binding ht⟩

theorem does_modifyDeclaration {id : DeclId} {f : Declaration → Declaration} (h : S (.modifying id f)) :
    Does S (modifyDeclaration id f) := by
  intro d a d' hmodify
  obtain ⟨t, ht, rfl⟩ := modifyDeclaration_eq_ok hmodify
  exact .single ⟨_, h, .modifying ht⟩

theorem does_lookup (scope : ScopeId) (name : String) : Does S (lookup scope name) :=
  does_get.bind fun _ => does_check _

theorem does_declaration (id : DeclId) : Does S (declaration id) := does_get.bind fun _ => does_check _

theorem does_mapM {f : α → Walk β} (h : ∀ a, Does S (f a)) (as : List α) : Does S (as.mapM f) := by
  induction as with
  | nil => exact does_pure []
  | cons a as ih =>
    rw [List.mapM_cons]
    exact (h a).bind fun b => ih.bind fun bs => does_pure (b :: bs)

theorem does_forM {f : α → Walk Unit} (h : ∀ a, Does S (f a)) (as : List α) : Does S (as.forM f) := by
  induction as with
  | nil => exact does_pure ()
  | cons a as ih => exact (h a).bind fun _ => ih

section Quiet

variable (hS : Change.Quiet ≤ S)
include hS

theorem does_owe (node : Node) (goal : Goal) : Does S (oblige node goal) := does_oblige (hS _ trivial)

theorem does_put (a : Attribute) (v : Value) (ha : a.kind.isBinding = false) : Does S (setAttribute a v) :=
  does_setAttribute (hS (.write a (.set v)) ha)

theorem does_typeExpr (scope : ScopeId) (t : TypeExpr) : Does S (typeExpr scope t) := by
  induction t with
  | name node text => exact does_owe hS _ _
  | container node c component ih => exact ih.bind fun _ => does_owe hS _ _

theorem does_binary (node : Node) (op : BinaryOp) (left right : Expr) :
    Does S (binary node op left right) := by
  unfold binary
  split
  · exact does_owe hS _ _
  all_goals exact (does_put hS _ _ rfl).bind fun _ => does_owe hS _ _

theorem does_leaveBlock (node : Node) (body : List Stmt) : Does S (leaveBlock node body) := by
  unfold leaveBlock
  split
  · exact does_put hS _ _ rfl
  · exact does_owe hS _ _

/-- A reference, whose node may be bound. -/
theorem does_reference (scope : ScopeId) {ref : Reference} (h : ∀ κ x, S (.write ⟨.node ref.node.id, κ⟩ x)) :
    Does S (reference scope ref) := by
  refine (does_lookup scope ref.name).bind fun found => ?_
  cases found with
  | none => exact does_owe hS _ _
  | some f =>
    exact (does_setAttribute (h _ _)).bind fun _ => (does_setAttribute (h _ _)).bind fun _ =>
      does_owe hS _ _

/-- An empty literal, whose type may be found missing. -/
theorem does_emptyLiteral {node : Node} {c : Container}
    (h : S (.tell (.atNode (.uninferableLiteral c.word) node))) (x : Expectation) :
    Does S (emptyLiteral node c x) := by
  cases x with
  | free => exact (does_report h).bind fun _ => does_failAttribute (hS (.write _ _) rfl)
  | «variable» | argument => exact does_owe hS _ _

/-- What a return leaves owing: that its value, or none, fits the result of its function. -/
def oweResult (scope : ScopeId) (node : Node) (value : Option Expr) : Walk Unit := do
  match ← check ((← get).tables.scopes.enclosingFunction scope) with
  | none => return
  | some function =>
    match (← declaration function).kind.result?, value with
    | some result, some e => oblige node (.valueReturn result e.node)
    | some result, none => oblige node (.emptyReturn result)
    | none, _ => return

theorem does_oweResult (scope : ScopeId) (node : Node) (value : Option Expr) : Does S (oweResult scope node value) := by
  refine does_get.bind fun d => (does_check _).bind fun owner => ?_
  split
  · exact does_pure ()
  · refine (does_declaration _).bind fun x => ?_
    split
    · exact does_owe hS _ _
    · exact does_owe hS _ _
    · exact does_pure ()

end Quiet

/-- A name behind `from`, of which something may be told. -/
theorem does_superclass (scope : ScopeId) {node : Node} {sup : Superclass}
    (h : ∀ cause : Cause, cause.isEarly = true → cause.isGap = false →
      S (.tell (.atNode cause ⟨node.id, sup.span⟩))) : Does S (superclass scope node sup) := by
  refine (does_lookup scope sup.name).bind fun found => ?_
  cases found with
  | none => exact (does_report (h _ rfl rfl)).bind fun _ => does_pure none
  | some f =>
    refine (does_declaration f.declaration).bind fun x => ?_
    dsimp only
    split
    · exact does_pure _
    · exact (does_report (h _ rfl rfl)).bind fun _ => does_pure none

section Plain

variable (hS : Change.Plain ≤ S)
include hS

theorem does_declareAt (node : Node) (name : String) (kind : DeclarationKind) :
    Does S (declareAt node name kind) :=
  does_declare (hS _ trivial)

theorem does_bind (scope : ScopeId) (name : String) (id : DeclId) : Does S (bindName scope name id) :=
  does_bindName (hS _ trivial)

theorem does_modify (id : DeclId) {f : Declaration → Declaration} (hf : ∀ x, (f x).node = x.node) :
    Does S (modifyDeclaration id f) :=
  does_modifyDeclaration (hS (.modifying id f) hf)

/-- A written type, and the declaration of the name that it is written for. -/
theorem does_binder {scope : ScopeId} {b : Binder} {kind : DeclarationKind} {k : DeclId → Walk β}
    (hk : ∀ id, Does S (k id)) :
    Does S (do
      typeExpr scope b.type
      k (← declareAt b.node b.name kind)) :=
  (does_typeExpr (Change.quiet_le_plain.trans hS) scope b.type).bind fun _ =>
    (does_declareAt hS _ _ _).bind hk

theorem does_field (scope : ScopeId) (b : Binder) (bound : Bool) : Does S (field scope b bound) := by
  have hquiet := Change.quiet_le_plain.trans hS
  refine does_binder hS fun id => ?_
  have hrest : Does S (do
      oblige b.node (.copy (.valueOf b.type.id) (.typeOfDecl id))
      return id) := (does_owe hquiet _ _).bind fun _ => does_pure id
  cases bound with
  | false => exact hrest
  | true => exact (does_bind hS _ _ _).bind fun _ => hrest

theorem does_parameter (scope : ScopeId) (b : Binder) : Does S (parameter scope b) :=
  does_binder hS fun id => (does_bind hS _ _ _).bind fun _ =>
    (does_owe (Change.quiet_le_plain.trans hS) _ _).bind fun _ => does_pure id

theorem does_typeParameter (scope : ScopeId) (b : Binder) : Does S (typeParameter scope b) :=
  have hquiet := Change.quiet_le_plain.trans hS
  does_binder hS fun id => (does_bind hS _ _ _).bind fun _ =>
    (does_put hquiet _ _ rfl).bind fun _ => (does_put hquiet _ _ rfl).bind fun _ => does_pure id

theorem does_struct (scope : ScopeId) (node : Node) (name : String) (fields : List Binder) :
    Does S (struct scope node name fields) :=
  have hquiet := Change.quiet_le_plain.trans hS
  (does_declareAt hS _ _ _).bind fun _ => (does_bind hS _ _ _).bind fun _ =>
    (does_put hquiet _ _ rfl).bind fun _ => (does_put hquiet _ _ rfl).bind fun _ =>
    (does_mapM (does_field hS scope · false) fields).bind fun _ => does_modify hS _ fun _ => rfl

theorem does_setMembers (id : DeclId) (own members : List DeclId) : Does S (setMembers id own members) := by
  refine does_modify hS id fun x => ?_
  split <;> rfl

theorem does_classMembers (c : OpenClass) (body : List Stmt) : Does S (classMembers c body) := by
  refine does_get.bind fun d => (does_mapM (fun id => ?_) c.superclasses).bind fun _ =>
    (does_setMembers hS _ _ _).bind fun _ => does_setMembers hS _ _ _
  exact (does_declaration id).bind fun _ => does_pure _

theorem does_declareAll : Does S Builtin.declareAll := by
  have hquiet := Change.quiet_le_plain.trans hS
  refine does_forM (fun b => ?_) Builtin.all
  refine (does_declare (hS _ trivial)).bind fun id => (does_bind hS _ _ _).bind fun _ =>
    (does_put hquiet _ _ rfl).bind fun _ => ?_
  split
  · exact does_put hquiet _ _ rfl
  · exact does_pure ()

end Plain

theorem does_resolve (scope : ScopeId) (ref : Reference) : Does Change.Still (reference scope ref) :=
  does_reference Change.quiet_le_still scope fun _ _ => trivial

mutual

theorem does_expr (scope : ScopeId) : ∀ (e : Expr) (x : Expectation), Does Change.Still (expr reference scope x e)
  | .int _ _, _ | .float _ _, _ | .string _ _, _ => does_setAttribute trivial
  | .symbol ref, _ => does_resolve scope ref
  | .paren _ inner, _ => (does_expr scope inner .free).bind fun _ => does_oblige trivial
  | .literal node c elements, x => by
    unfold expr
    split
    · exact does_emptyLiteral Change.quiet_le_still trivial x
    · exact (does_exprs scope elements).bind fun _ => does_oblige trivial
  | .not _ operand, _ =>
    (does_expr scope operand .free).bind fun _ => (does_setAttribute trivial).bind fun _ =>
      does_oblige trivial
  | .binary node op left right, _ =>
    (does_expr scope left .free).bind fun _ => (does_expr scope right .free).bind fun _ =>
      does_binary Change.quiet_le_still node op left right
  | .assign _ left right, _ | .index _ left right, _ =>
    (does_expr scope left .free).bind fun _ => (does_expr scope right .free).bind fun _ => does_oblige trivial
  | .call _ callee arguments, _ =>
    (does_expr scope callee .free).bind fun _ => (does_exprArguments scope callee.id 0 arguments).bind fun _ =>
      does_oblige trivial
  | .templateCall _ callee types arguments, _ =>
    (does_expr scope callee .free).bind fun _ =>
      (does_forM (does_typeExpr Change.quiet_le_still scope) types).bind fun _ =>
      (does_exprArguments scope callee.id 0 arguments).bind fun _ => does_oblige trivial
  | .member _ _ stem _, _ => (does_expr scope stem .free).bind fun _ => does_oblige trivial
  | .construct _ _ ref, _ => (does_resolve scope ref).bind fun _ => does_oblige trivial

theorem does_exprs (scope : ScopeId) : ∀ es : List Expr,
    Does Change.Still (exprs reference scope es)
  | [] => does_pure ()
  | e :: rest => (does_expr scope e .free).bind fun _ => does_exprs scope rest

theorem does_exprArguments (scope : ScopeId) (callee : NodeId) :
    ∀ (i : Nat) (es : List Expr),     Does Change.Still (exprArguments reference scope callee i es)
  | _, [] => does_pure ()
  | i, e :: rest =>
    (does_expr scope e (.argument callee i)).bind fun _ => does_exprArguments scope callee (i + 1) rest

end

theorem does_condition (scope : ScopeId) (e : Expr) (statement : String) : Does Change.Still (condition reference scope e statement) :=
  (does_expr scope e .free).bind fun _ => does_oblige trivial

theorem does_ret (scope : ScopeId) (node : Node) (value : Option Expr) : Does Change.Still (ret reference scope node value) := by
  have howed := does_oweResult Change.quiet_le_still scope node value
  refine (does_setAttribute trivial).bind fun _ => ?_
  cases value with
  | none => exact howed
  | some e => exact (does_expr scope e .free).bind fun _ => howed

def openClass (scope : ScopeId) (node : Node) (head : ClassHead) (superclasses : List DeclId)
    (written effective : DeclId) : Walk OpenClass := do
  for id in [written, effective] do
    setAttribute (.typeOfDecl id) (.type .type)
    setAttribute (.declaredBy id) (.type (.composite .cls ⟨effective, head.name⟩))
  let inner ← openScope scope (.cls effective)
  modifyDeclaration written fun d => { d with bodyScope := some inner }
  modifyDeclaration effective fun d => { d with bodyScope := some inner }
  setAttribute (.scopeOf node.id) (.scope inner)
  return ⟨written, effective, superclasses, inner⟩

theorem classHead_eq (scope : ScopeId) (node : Node) (head : ClassHead) :
    classHead scope node head = (do
      let written ← declareAt node head.name (.cls { visibility := head.visibility })
      bindName scope head.name written
      let found ← head.superclasses.mapM (superclass scope node)
      if head.superclasses.isEmpty then
        openClass scope node head (found.filterMap id) written written
      else
        let effective ← declareAt node head.name (.cls {
          visibility := head.visibility, superclasses := found.filterMap id, written := some written })
        bindName scope head.name effective
        openClass scope node head (found.filterMap id) written effective) :=
  rfl

end Walk

end ScriptAnalysis
