import Mathlib.Data.List.Forall2
import ScriptAnalysis.Proofs.Table.Chain
import ScriptAnalysis.Proofs.Tree.Order
import ScriptAnalysis.Proofs.Typing.Growth
import ScriptAnalysis.Proofs.Typing.Walk.Changes

/-!
What the walk leaves at the sites of a program. `Site.Leaves` says, for each kind of site, which
attributes are known at once, what is declared there and what is left to be done; later steps do not
change it (`Site.Leaves.mono`). `Walked` is what a walk over a list of sites does to a draft.
-/
namespace ScriptAnalysis

namespace Draft

variable {d d' : Draft} {V N : Set Nat} {k : Nat}

def Opens (d : Draft) (n : NodeId) (scope : ScopeId) : Prop :=
  d.attributes.slot? (.scopeOf n) = some (.set (.scope scope)) ∧
    scope.index < d.tables.scopes.size

theorem Opens.mono {n : NodeId} {scope : ScopeId} (h : d.Opens n scope) (g : Grown V N k d d') :
    d'.Opens n scope :=
  ⟨g.slots _ _ h.1, Nat.lt_of_lt_of_le h.2 g.scopes.size_le⟩

abbrev typed (t : Ty) : Option Slot := some (.set (.type t))

structure Introduces (d : Draft) (n : NodeId) (name : String) (kind : DeclarationKind)
    (type declared : Option Slot) (id : DeclId) : Prop where
  item : ∃ x, d.tables.declarations.items[id.index]? = some x ∧ x.name = name ∧ x.node = some n ∧
    x.kind.blank = kind
  slots : ∀ κ, d.attributes.slot? ⟨.decl id, κ⟩ =
    match κ with
    | .type => type
    | .declared => declared
    | _ => none

theorem Introduces.lt_size {n : NodeId} {name : String} {kind : DeclarationKind}
    {type declared : Option Slot} {id : DeclId} (h : d.Introduces n name kind type declared id) :
    id.index < d.size := by
  obtain ⟨x, hx, _⟩ := h.item
  exact Declarations.lt_size_of_getElem? hx

theorem Introduces.mono {n : NodeId} {name : String} {kind : DeclarationKind}
    {type declared : Option Slot} {id : DeclId} (h : d.Introduces n name kind type declared id)
    (g : Grown V N k d d') (hk : id.index < k) : d'.Introduces n name kind type declared id where
  item := by
    obtain ⟨x, hx, hname, hnode, hkind⟩ := h.item
    obtain ⟨x', hx', hname', hnode', hkind'⟩ := g.declarations _ x hx
    exact ⟨x', hx', hname'.trans hname, hnode'.trans hnode, hkind'.trans hkind⟩
  slots κ := (g.kept id hk κ).trans (h.slots κ)

theorem mem_idsAt_mono {n : NodeId} {id : DeclId} (h : id ∈ d.tables.declarations.idsAt n)
    (g : Grown V N k d d') : id ∈ d'.tables.declarations.idsAt n := by
  obtain ⟨x, hx, hn⟩ := Declarations.mem_idsAt.1 h
  obtain ⟨x', hx', _, hn', _⟩ := g.declarations _ x hx
  exact Declarations.mem_idsAt.2 ⟨x', hx', hn'.trans hn⟩

end Draft

/-- What a reference leaves. One that is bound where it stands names its declaration at once, which is
visible from there; a variable among these comes before it. Whatever binds another later comes after it. -/
inductive Reference.Leaves (d : Draft) (st : Setting) (ref : Reference) : Entry → Prop
  | early {scope : ScopeId} {found : Binding} (hs : d.Opens st.home scope)
      (hv : d.tables.scopes.Visible scope ref.name found)
      (h : d.VariableIn {m | m < ref.node.id.index} found.declaration) :
      Leaves d st ref ((((({} : Entry).put .decl (.set (.decl found.declaration))).put .scope
        (.set (.scope found.scope)))).owing
        ⟨ref.node, .copy (.typeOfDecl found.declaration) (.typeOf ref.node.id)⟩)
  | late {scope : ScopeId} (hs : d.Opens st.home scope)
      (h : ∀ f, d.tables.scopes.Finds (ScopeTable.binds ref.name) scope (some f) →
        d.VariableIn {m | ref.node.id.index < m} f.declaration) :
      Leaves d st ref (({} : Entry).owing ⟨ref.node, .lateReference scope ref.name⟩)

inductive Expr.Leaves (d : Draft) (st : Setting) : Role → Expr → Entry → Prop
  | int {role node value} :
      Leaves d st role (.int node value) (({} : Entry).put .type (.set (.type .int)))
  | float {role node value} :
      Leaves d st role (.float node value) (({} : Entry).put .type (.set (.type .float)))
  | string {role node value} :
      Leaves d st role (.string node value) (({} : Entry).put .type (.set (.type .string)))
  | symbol {role ref e} (h : ref.Leaves d st e) : Leaves d st role (.symbol ref) e
  | paren {role node inner} :
      Leaves d st role (.paren node inner)
        (({} : Entry).owing ⟨node, .copy (.typeOf inner.id) (.typeOf node.id)⟩)
  | emptyFree {node c} :
      Leaves d st .free (.literal node c [])
        ((({} : Entry).put .type .failed).lacking (.atNode (.uninferableLiteral c.word) node))
  | emptyValue {b node c id} (h : id ∈ d.tables.declarations.idsAt b.node.id) :
      Leaves d st (.value b) (.literal node c [])
        (({} : Entry).owing ⟨node, .emptyForVariable c id⟩)
  | emptyArgument {callee i node c} :
      Leaves d st (.argument callee i) (.literal node c [])
        (({} : Entry).owing ⟨node, .emptyForArgument c callee.id i⟩)
  | literal {role node c first rest} :
      Leaves d st role (.literal node c (first :: rest))
        (({} : Entry).owing ⟨node, .literal c ((first :: rest).map Expr.node)⟩)
  | not {role node operand} :
      Leaves d st role (.not node operand)
        ((({} : Entry).put .type (.set (.type .bool))).owing ⟨node, .negation operand.id⟩)
  | arithmetic {role node op left right} (h : op.family = .arithmetic) :
      Leaves d st role (.binary node op left right)
        (({} : Entry).owing ⟨node, .arithmetic op left.id right.id⟩)
  | equality {role node op left right} (h : op.family = .equality) :
      Leaves d st role (.binary node op left right)
        ((({} : Entry).put .type (.set (.type .bool))).owing ⟨node, .equality left.id right.id⟩)
  | comparison {role node op left right} (h : op.family = .comparison) :
      Leaves d st role (.binary node op left right)
        ((({} : Entry).put .type (.set (.type .bool))).owing ⟨node, .comparison left.node right.node⟩)
  | logic {role node op left right} (h : op.family = .logic) :
      Leaves d st role (.binary node op left right)
        ((({} : Entry).put .type (.set (.type .bool))).owing ⟨node, .logic left.node right.node⟩)
  | assign {role node target value} :
      Leaves d st role (.assign node target value)
        (({} : Entry).owing ⟨node, .assignment target.node target.isPlace value.id⟩)
  | call {role node callee arguments} :
      Leaves d st role (.call node callee arguments)
        (({} : Entry).owing ⟨node, .call (.of callee) (arguments.map Expr.node)⟩)
  | templateCall {role node callee types arguments} :
      Leaves d st role (.templateCall node callee types arguments)
        (({} : Entry).owing ⟨node, .templateCall callee.id callee.render (types.map TypeExpr.id)
          (arguments.map Expr.node)⟩)
  | index {role node base position} :
      Leaves d st role (.index node base position)
        (({} : Entry).owing ⟨node, .index base.id position.node⟩)
  | member {role node c stem name} :
      Leaves d st role (.member node c stem name)
        (({} : Entry).owing ⟨node, .member c stem.id name⟩)
  | construct {role node c ref} :
      Leaves d st role (.construct node c ref)
        (({} : Entry).owing ⟨node, .construct c ref.node.id ref.name⟩)

def Entry.ofBlock (scope : ScopeId) (node : Node) (body : List Stmt) : Entry :=
  match body.filter Stmt.isReturnContainer with
  | [] => (({} : Entry).put .scope (.set (.scope scope))).put .returns (.set (.flag false))
  | containers =>
    (({} : Entry).put .scope (.set (.scope scope))).owing ⟨node, .blockReturns (containers.map Stmt.id)⟩

def Entry.ofReturn (st : Setting) (node : Node) (value : Option Expr) : Entry :=
  match st.result, value with
  | some result, some e =>
    (({} : Entry).put .returns (.set (.flag true))).owing ⟨node, .valueReturn result.id e.node⟩
  | some result, none =>
    (({} : Entry).put .returns (.set (.flag true))).owing ⟨node, .emptyReturn result.id⟩
  | none, _ => ({} : Entry).put .returns (.set (.flag true))

def Entry.ofBranches (node : Node) (thenBody elseBody : Stmt) : Entry :=
  if thenBody.isReturnContainer && elseBody.isReturnContainer then
    ({} : Entry).owing ⟨node, .branchesReturn thenBody.id elseBody.id⟩
  else ({} : Entry).put .returns (.set (.flag false))

open Draft in
inductive Stmt.Leaves (d : Draft) (st : Setting) : Stmt → Entry → Prop
  | block {node body scope} : Leaves d st (.block node body) (.ofBlock scope node body)
  | variable {b value id} (h : d.Introduces b.node.id b.name .variable none none id) :
      Leaves d st (.variable b value)
        (((({} : Entry).declaring id).owing
          ⟨b.node, .copy (.valueOf b.type.id) (.typeOfDecl id)⟩).owing
          ⟨b.node, .initializer id b.name value.node⟩)
  | field {b id} (h : d.Introduces b.node.id b.name .field none none id) :
      Leaves d st (.field b)
        ((({} : Entry).declaring id).owing ⟨b.node, .copy (.valueOf b.type.id) (.typeOfDecl id)⟩)
  | function {node head inner body id scope}
      (h : d.Introduces node.id head.name (.function { result := some head.result.id }) none none id) :
      Leaves d st (.function node head inner body)
        ((((({} : Entry).declaring id).put .scope (.set (.scope scope))).owing
          ⟨node, .functionType id head.result.id (head.parameters.map (·.type.id))⟩).owing
          ⟨node, .bodyReturns inner.id head.result.id⟩)
  | struct {node name fields id}
      (h : d.Introduces node.id name (.struct []) (typed .type)
        (typed (.composite .struct ⟨id, name⟩)) id) :
      Leaves d st (.struct node name fields) (({} : Entry).declaring id)
  | cls {node head inner body id scope}
      (h : d.Introduces node.id head.name (.cls {}) (typed .type)
        (typed (.composite .cls ⟨id, head.name⟩)) id) :
      Leaves d st (.cls node head inner body)
        ((({} : Entry).declaring id).put .scope (.set (.scope scope)))
  | subclass {node head inner body written effective scope}
      (h : ∀ id ∈ [written, effective], d.Introduces node.id head.name (.cls {}) (typed .type)
        (typed (.composite .cls ⟨effective, head.name⟩)) id) :
      Leaves d st (.cls node head inner body)
        (((({} : Entry).declaring written).declaring effective).put .scope (.set (.scope scope)))
  | template {node head inner body id scope typeParameters}
      (h : d.Introduces node.id head.name (.template { result := some head.result.id }) none none id)
      (ht : List.Forall₂ (fun (b : Binder) id => id ∈ d.tables.declarations.idsAt b.node.id)
        head.typeParameters typeParameters) :
      Leaves d st (.template node head inner body)
        ((((({} : Entry).declaring id).put .scope (.set (.scope scope))).owing
          ⟨node, .templateType id head.result.id typeParameters
            (head.parameters.map (·.type.id))⟩).owing
          ⟨node, .bodyReturns inner.id head.result.id⟩)
  | ifThen {node e thenBody} :
      Leaves d st (.ifThen node e thenBody) (({} : Entry).put .returns (.set (.flag false)))
  | ifElse {node e thenBody elseBody} :
      Leaves d st (.ifElse node e thenBody elseBody) (.ofBranches node thenBody elseBody)
  | loop {node e body} : Leaves d st (.loop node e body) {}
  | ret {node value} : Leaves d st (.ret node value) (.ofReturn st node value)
  | action {node e} : Leaves d st (.action node e) {}

def Role.isCondition : Role → Bool
  | .condition _ => true
  | _ => false

open Draft in
inductive Site.Leaves (d : Draft) : Site → Entry → Prop
  | typeName {st scope node text} (h : d.Opens st.home scope) :
      Leaves d ⟨st, .written (.name node text)⟩ (({} : Entry).owing ⟨node, .typeName scope text⟩)
  | containerType {st node c component} :
      Leaves d ⟨st, .written (.container node c component)⟩
        (({} : Entry).owing ⟨node, .containerType c component.id⟩)
  | reference {st ref e} (h : ref.Leaves d st e) : Leaves d ⟨st, .reference ref⟩ e
  | expr {st role x e} (hr : role.isCondition = false) (h : x.Leaves d st role e) :
      Leaves d ⟨st, .expr role x⟩ e
  | condition {st statement x e} (h : x.Leaves d st .free e) :
      Leaves d ⟨st, .expr (.condition statement) x⟩ (e.owing ⟨x.node, .condition statement⟩)
  | field {st b id} (h : d.Introduces b.node.id b.name .field none none id) :
      Leaves d ⟨st, .binder .field b⟩
        ((({} : Entry).declaring id).owing ⟨b.node, .copy (.valueOf b.type.id) (.typeOfDecl id)⟩)
  | parameter {st b id} (h : d.Introduces b.node.id b.name .parameter none none id) :
      Leaves d ⟨st, .binder .parameter b⟩
        ((({} : Entry).declaring id).owing ⟨b.node, .copy (.valueOf b.type.id) (.typeOfDecl id)⟩)
  | typeParameter {st b id}
      (h : d.Introduces b.node.id b.name .typeParameter (typed .type)
        (typed (.placeholder ⟨id, b.name⟩)) id) :
      Leaves d ⟨st, .binder .typeParameter b⟩ (({} : Entry).declaring id)
  | body {st node stmts scope} : Leaves d ⟨st, .body node stmts⟩ (.ofBlock scope node stmts)
  | stmt {st x e} (h : x.Leaves d st e) : Leaves d ⟨st, .stmt x⟩ e

section Later

variable {d d' : Draft} {V N : Set Nat} {st : Setting} {e : Entry}

/-- A reference stays what it is when only variables behind it are bound. -/
theorem Reference.Leaves.mono {ref : Reference} (h : ref.Leaves d st e)
    (g : Draft.Grown V N d.size d d') (sound : d.Sound) (hV : ∀ v ∈ V, ref.node.id.index < v) :
    ref.Leaves d' st e := by
  cases h with
  | early hs hv h => exact .early (hs.mono g) (hv.of_extends g.scopes) (h.mono g.declarations subset_rfl)
  | late hs h =>
    refine .late (hs.mono g) fun f hf => ?_
    rcases ScopeTable.finds_lookup_of_extends sound.rooted g.scopes hf hs.2 rfl with hnew | hold
    · exact hnew.mono (.refl _) hV
    · exact (h f hold).mono g.declarations subset_rfl

theorem Expr.Leaves.mono {role : Role} {x : Expr} (h : x.Leaves d st role e)
    (g : Draft.Grown V N d.size d d') (sound : d.Sound) (hV : ∀ v ∈ V, x.id.index < v) :
    x.Leaves d' st role e := by
  cases h with
  | symbol h => exact .symbol (h.mono g sound hV)
  | emptyValue h => exact .emptyValue (Draft.mem_idsAt_mono h g)
  | arithmetic h => exact .arithmetic h
  | equality h => exact .equality h
  | comparison h => exact .comparison h
  | logic h => exact .logic h
  | _ => constructor

theorem Stmt.Leaves.mono {x : Stmt} (h : x.Leaves d st e) (g : Draft.Grown V N d.size d d') :
    x.Leaves d' st e := by
  cases h with
  | «variable» h => exact .variable (h.mono g h.lt_size)
  | field h => exact .field (h.mono g h.lt_size)
  | function h => exact .function (h.mono g h.lt_size)
  | struct h => exact .struct (h.mono g h.lt_size)
  | cls h => exact .cls (h.mono g h.lt_size)
  | subclass h => exact .subclass fun id hid => (h id hid).mono g (h id hid).lt_size
  | template h ht =>
    exact .template (h.mono g h.lt_size) (ht.imp fun _ _ hid => Draft.mem_idsAt_mono hid g)
  | _ => constructor

/-- What a site leaves stays the same when later steps bind only variables behind it. -/
theorem Site.Leaves.mono {s : Site} (h : s.Leaves d e) (g : Draft.Grown V N d.size d d')
    (sound : d.Sound) (hV : ∀ v ∈ V, s.index < v) : s.Leaves d' e := by
  cases h with
  | typeName h => exact .typeName (h.mono g)
  | containerType => exact .containerType
  | reference h => exact .reference (h.mono g sound hV)
  | expr hr h => exact .expr hr (h.mono g sound hV)
  | condition h => exact .condition (h.mono g sound hV)
  | field h => exact .field (h.mono g h.lt_size)
  | parameter h => exact .parameter (h.mono g h.lt_size)
  | typeParameter h => exact .typeParameter (h.mono g h.lt_size)
  | body => exact .body
  | stmt h => exact .stmt (h.mono g)

end Later

/-- A walk over sites: it grows the draft at their nodes, and leaves at each site what belongs there.
Besides, it may have begun with the nodes in `P`. -/
structure Walking (N P : Set Nat) (d d' : Draft) (sites : List Site) : Prop where
  grown : Draft.Grown N N d.size d d'
  leaves : ∀ s ∈ sites, s.Leaves d' (d'.entry s.id)
  only : ∀ n : NodeId, n.index ∉ P → (∀ s ∈ sites, s.id ≠ n) → d'.entry n = d.entry n

abbrev Walked (N : Set Nat) (d d' : Draft) (sites : List Site) : Prop := Walking N ∅ d d' sites

namespace Walking

variable {N M K P Q R : Set Nat} {d d₁ d₂ : Draft} {l m : List Site}

theorem of_grown {V : Set Nat} (g : Draft.Grown V N d.size d d₁) (hV : V ⊆ N) :
    Walking N N d d₁ [] :=
  ⟨g.weaken hV subset_rfl (Nat.le_refl _), by simp, fun n hn _ => g.frame n hn⟩

theorem snoc {s : Site} (h : Walking N {s.index} d d₁ l) (hs : s.Leaves d₁ (d₁.entry s.id)) :
    Walked N d d₁ (l ++ [s]) := by
  refine ⟨h.grown, fun t ht => ?_, fun n _ hn => h.only n (fun he => ?_) fun t ht => ?_⟩
  · rcases List.mem_append.1 ht with ht | ht
    · exact h.leaves t ht
    · rw [List.mem_singleton.1 ht]
      exact hs
  · have hne : s.id ≠ n := hn s (by simp)
    cases n
    exact hne (congrArg NodeId.mk he.symm)
  · exact hn t (List.mem_append_left _ ht)

theorem snoc_entry {s : Site} {e : Entry} (h : Walking N {s.index} d d₁ l) (he : d₁.entry s.id = e)
    (hs : s.Leaves d₁ e) : Walked N d d₁ (l ++ [s]) :=
  h.snoc (he ▸ hs)

/-- One walk after the other, if the second is at nodes behind the sites of the first. -/
theorem seq (h : Walking M P d d₁ l) (h' : Walking K Q d₁ d₂ m)
    (hb : ∀ s ∈ l, ∀ n ∈ K, s.index < n) (hM : M ⊆ N) (hK : K ⊆ N) (hP : P ⊆ R) (hQ : Q ⊆ R) :
    Walking N R d d₂ (l ++ m) := by
  have g₁ : Draft.Grown N N d.size d d₁ := h.grown.weaken hM hM (Nat.le_refl _)
  have g₂ : Draft.Grown N N d.size d₁ d₂ := h'.grown.weaken hK hK h.grown.size_le
  refine ⟨g₁.trans g₂, fun s hs => ?_, fun n hn hs => ?_⟩
  · rcases List.mem_append.1 hs with hs | hs
    · have hentry : d₂.entry s.id = d₁.entry s.id :=
        h'.grown.frame s.id fun hk => absurd (hb s hs _ hk) (Nat.lt_irrefl _)
      rw [hentry]
      exact (h.leaves s hs).mono h'.grown h.grown.sound (hb s hs)
    · exact h'.leaves s hs
  · rw [h'.only n (fun hq => hn (hQ hq)) fun s hm => hs s (List.mem_append_right _ hm),
      h.only n (fun hp => hn (hP hp)) fun s hm => hs s (List.mem_append_left _ hm)]

theorem weaken (h : Walking M P d d₁ l) (hM : M ⊆ N) (hP : P ⊆ R) : Walking N R d d₁ l :=
  ⟨h.grown.weaken hM hM (Nat.le_refl _), h.leaves, fun n hn => h.only n fun hp => hn (hP hp)⟩

end Walking

end ScriptAnalysis
