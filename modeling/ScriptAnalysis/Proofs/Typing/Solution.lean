import Mathlib.Data.Prod.Lex
import ScriptAnalysis.Proofs.Typing.Regularity
import ScriptAnalysis.Proofs.Typing.Walk.Program

/-!
The solution of a program: what each attribute comes to, by direct recursion. What the walk leaves in
the draft is within the solution (`Program.Drafted.within`), and what the attributes of a site need is
supplied (`Program.Drafted.supplies`).
-/
namespace ScriptAnalysis

namespace Slot

/-- The slot of an attribute that has the given value or fails. -/
def of {α : Type} (wrap : α → Value) : Option α → Slot
  | some a => .set (wrap a)
  | none => .failed

theorem of_eq_set {α : Type} {wrap : α → Value} {o : Option α} {v : Value}
    (h : of wrap o = .set v) : ∃ a, o = some a ∧ v = wrap a := by
  cases o with
  | none => cases h
  | some a =>
    cases h
    exact ⟨a, rfl, rfl⟩

theorem of_eq_failed {α : Type} {wrap : α → Value} {o : Option α} :
    of wrap o = .failed ↔ o = none := by
  cases o <;> simp [of]

end Slot

namespace Stmt

mutual

def returns : Stmt → Bool
  | .block _ body => body.any isReturnContainer && allReturn body
  | .ifElse _ _ thenBody elseBody =>
    thenBody.isReturnContainer && elseBody.isReturnContainer && thenBody.returns && elseBody.returns
  | .ret _ _ => true
  | _ => false

def allReturn : List Stmt → Bool
  | [] => true
  | s :: rest => (!s.isReturnContainer || s.returns) && allReturn rest

end

/-- Whether a body always returns: it has return containers, and all of them return. -/
def bodyReturns (body : List Stmt) : Bool := body.any isReturnContainer && allReturn body

theorem allReturn_eq (body : List Stmt) :
    allReturn body = (body.filter isReturnContainer).all returns := by
  induction body with
  | nil => rw [allReturn]; rfl
  | cons s rest ih =>
    rw [allReturn, ih, List.filter_cons]
    cases s.isReturnContainer <;> simp

end Stmt

def Site.attributes (s : Site) : List AttributeKind :=
  match s.part with
  | .written _ => [.value]
  | .reference _ | .expr _ (.symbol _) => [.type, .decl, .scope]
  | .expr _ _ => [.type]
  | .body _ _ => [.returns]
  | .stmt x => if x.isReturnContainer then [.returns] else []
  | .binder _ _ => []

namespace Names

variable (N : Names)

def siteSlot (s : Site) : AttributeKind → Option Slot
  | .type =>
    match s.part with
    | .expr role e => some (.of .type (N.typeIn s.setting role e))
    | .reference ref => some (.of .type (N.referenceType ref))
    | _ => none
  | .value =>
    match s.part with
    | .written t => some (.of .type (N.writtenType s.setting.home t))
    | _ => none
  | .decl =>
    match s.reference?, s.part with
    | some ref, _ => some (.of .decl (N.decl ref.node.id))
    | none, .expr _ e => (N.chosen s.setting.home e).map fun id => .set (.decl id)
    | none, _ => none
  | .scope =>
    match s.reference? with
    | some ref => some (.of .scope (N.scope ref.node.id))
    | none => (N.scope s.id).map fun id => .set (.scope id)
  | .returns =>
    match s.part with
    | .body _ stmts => some (.set (.flag (Stmt.bodyReturns stmts)))
    | .stmt x => if x.isReturnContainer then some (.set (.flag x.returns)) else none
    | _ => none
  | .declared => none

def solution : Solution := fun a =>
  match a.owner with
  | .node n =>
    match N.site n with
    | some s => N.siteSlot s a.kind
    | none => if a.kind = .scope then (N.scope n).map fun id => .set (.scope id) else none
  | .decl id =>
    match a.kind with
    | .type => some (.of .type (N.declarationType id))
    | .declared => (N.tables.introduced id).map fun t => .set (.type t)
    | _ => none

end Names

/-- The names of a program as a draft of it binds them. A reference that was not bound where it stands
is looked up from the scope around it. -/
def Draft.bindingAt (d : Draft) (p : Program) (n : NodeId) : Option Binding := do
  let s ← p.siteAt n
  let ref ← s.reference?
  match d.attributes.decl? (.declOf n), d.attributes.scope? (.scopeOf n) with
  | some declaration, some scope => return ⟨declaration, scope⟩
  | _, _ =>
    (d.tables.scopes.lookup (← d.attributes.scope? (.scopeOf s.setting.home)) ref.name).toOption.join

/-- The names of a program as a draft of it binds them. -/
def Draft.names (d : Draft) (p : Program) : Names where
  tables := d.tables
  site := p.siteAt
  decl n := (d.bindingAt p n).map (·.declaration)
  scope n :=
    match (p.siteAt n).bind Site.reference? with
    | some _ => (d.bindingAt p n).map (·.scope)
    | none => d.attributes.scope? (.scopeOf n)

/-- The order in which attributes can be found: first what a draft knows, then written types, types of
declarations, types of expressions, and returns. -/
def Attribute.rank (a : Attribute) : ℕ ×ₗ ℕ :=
  match a.owner, a.kind with
  | .node n, .value => toLex (1, n.index)
  | .decl _, .type => toLex (2, 0)
  | .node n, .type => toLex (3, n.index)
  | .node n, .returns => toLex (4, n.index)
  | _, _ => toLex (0, 0)

def Draft.state (d : Draft) : Rule.State := ⟨d.attributes, d.diagnostics, d.rules⟩

namespace Draft

variable {d : Draft} {a : Attribute}

theorem supplies_of_slot {slot : Slot} (h : d.attributes.slot? a = some slot) :
    d.state.Supplies a :=
  .inl (Attributes.isKnown_iff.2 ⟨slot, h⟩)

theorem supplies_of_owed {n : NodeId} {o : Obligation} (ho : o ∈ (d.entry n).obligations)
    (h : a ∈ o.goal.outputs o.node) : d.state.Supplies a :=
  .inr ⟨o.rule d.tables, List.mem_map.2 ⟨o, (List.mem_filter.1 ho).1, rfl⟩, h⟩

end Draft

def Entry.Finds (e : Entry) (n : NodeId) (κ : AttributeKind) : Prop :=
  (∃ slot, e.slots κ = some slot) ∨ ∃ o ∈ e.obligations, ⟨.node n, κ⟩ ∈ o.goal.outputs o.node

section Finds

variable {d : Draft} {st : Setting} {e : Entry} {κ : AttributeKind}

theorem Reference.Leaves.finds {ref : Reference} (h : ref.Leaves d st e)
    (hκ : κ ∈ [AttributeKind.type, .decl, .scope]) : e.Finds ref.node.id κ := by
  simp only [List.mem_cons, List.not_mem_nil, or_false] at hκ
  cases h <;> rcases hκ with rfl | rfl | rfl <;> simp [Entry.Finds, Goal.outputs]

theorem Expr.Leaves.finds {role role' : Role} {x : Expr} (h : x.Leaves d st role' e)
    (hκ : κ ∈ Site.attributes ⟨st, .expr role x⟩) : e.Finds x.id κ := by
  cases h with
  | symbol h => exact h.finds hκ
  | _ =>
    obtain rfl : κ = .type := by simpa [Site.attributes] using hκ
    simp [Entry.Finds, Goal.outputs, Expr.id, Expr.node]

theorem Entry.finds_ofBlock (scope : ScopeId) (node : Node) (body : List Stmt) :
    (Entry.ofBlock scope node body).Finds node.id .returns := by
  unfold Entry.ofBlock
  split <;> simp [Entry.Finds, Goal.outputs]

theorem Stmt.Leaves.finds {x : Stmt} (h : x.Leaves d st e) (hx : x.isReturnContainer = true) :
    e.Finds x.id .returns := by
  cases h with
  | block => exact Entry.finds_ofBlock _ _ _
  | ifThen => simp [Entry.Finds]
  | ifElse =>
    unfold Entry.ofBranches
    split <;> simp [Entry.Finds, Goal.outputs, Stmt.id, Stmt.node]
  | ret =>
    unfold Entry.ofReturn
    split <;> simp [Entry.Finds]
  | _ => cases hx

theorem Site.Leaves.finds {s : Site} (h : s.Leaves d e) (hκ : κ ∈ s.attributes) :
    e.Finds s.id κ := by
  cases h with
  | typeName | containerType =>
    obtain rfl : κ = .value := by simpa [Site.attributes] using hκ
    simp [Entry.Finds, Goal.outputs, Site.id, Part.node, TypeExpr.node]
  | reference h => exact h.finds hκ
  | expr _ h => exact h.finds hκ
  | condition h =>
    rcases h.finds hκ with hslot | ⟨o, ho, hout⟩
    · exact .inl hslot
    · exact .inr ⟨o, List.mem_append_left _ ho, hout⟩
  | body =>
    obtain rfl : κ = .returns := by simpa [Site.attributes] using hκ
    exact Entry.finds_ofBlock _ _ _
  | @stmt st x e h =>
    cases hx : x.isReturnContainer with
    | true =>
      obtain rfl : κ = .returns := by simpa [Site.attributes, hx] using hκ
      exact h.finds hx
    | false => simp [Site.attributes, hx] at hκ
  | _ => cases hκ

end Finds

namespace Builtin

theorem kind_of_all : ∀ b ∈ all,
    b.kind ∈ [.builtinType, .builtinVariable, .builtinFunction, .modifier] := by decide

theorem isSome_declared : ∀ b ∈ all, b.declared.isSome = b.kind.isType := by decide

end Builtin

namespace Program.Drafted

open Draft (supplies_of_slot supplies_of_owed)

variable {p : Program} {d : Draft} {s : Site} {ref : Reference} {n : NodeId} {id : DeclId}

theorem solution_site (hp : p.Numbered) (hs : s ∈ p.sites) (κ : AttributeKind) :
    (d.names p).solution ⟨.node s.id, κ⟩ = (d.names p).siteSlot s κ := by
  have hsite : (d.names p).site s.id = some s := hp.siteAt_eq hs
  simp only [Names.solution, hsite]

/-- What stands at a reference, besides the check of a condition. -/
theorem reference_leaves (hd : p.Drafted d) (hs : s ∈ p.sites) (hr : s.reference? = some ref) :
    ∃ e, ref.Leaves d s.setting e ∧ (d.entry s.id).slots = e.slots ∧
      ∀ o ∈ (d.entry s.id).obligations, o ∈ e.obligations ∨ ∃ text, o.goal = .condition text := by
  have hl := hd.leaves s hs
  generalize d.entry s.id = e at hl ⊢
  cases hl with
  | reference h =>
    cases hr
    exact ⟨e, h, rfl, fun _ ho => .inl ho⟩
  | expr hc h =>
    cases h with
    | symbol h =>
      cases hr
      exact ⟨e, h, rfl, fun _ ho => .inl ho⟩
    | _ => cases hr
  | @condition _ text _ _ h =>
    cases h with
    | symbol h =>
      cases hr
      refine ⟨_, h, rfl, fun o ho => ?_⟩
      rcases List.mem_append.1 ho with ho | ho
      · exact .inl ho
      · rw [List.mem_singleton.1 ho]
        exact .inr ⟨text, rfl⟩
    | _ => cases hr
  | _ => cases hr

/-- A name is bound where it stands, or to what a lookup from around it finds. -/
theorem bindingAt_eq (hp : p.Numbered) (hd : p.Drafted d) (hs : s ∈ p.sites)
    (hr : s.reference? = some ref) :
    (∃ f, d.bindingAt p ref.node.id = some f ∧
      (d.entry s.id).slots .decl = some (.set (.decl f.declaration)) ∧
      (d.entry s.id).slots .scope = some (.set (.scope f.scope)) ∧
      d.VariableIn {m | m < ref.node.id.index} f.declaration) ∨
    (∃ scope, d.Opens s.setting.home scope ∧
      d.tables.scopes.lookup scope ref.name = .ok (d.bindingAt p ref.node.id) ∧
      (d.entry s.id).slots .decl = none ∧ (d.entry s.id).slots .scope = none ∧
      ∀ f, d.bindingAt p ref.node.id = some f →
        d.VariableIn {m | ref.node.id.index < m} f.declaration) := by
  have hid := Site.id_of_reference? hr
  have hsite : p.siteAt ref.node.id = some s := hid ▸ hp.siteAt_eq hs
  obtain ⟨e, he, hslots, _⟩ := reference_leaves hd hs hr
  rw [← hid] at hsite ⊢
  cases he with
  | @early _ f _ _ h =>
    have hdecl : (d.entry s.id).slots .decl = some (.set (.decl f.declaration)) := by simp [hslots]
    have hscope : (d.entry s.id).slots .scope = some (.set (.scope f.scope)) := by simp [hslots]
    refine .inl ⟨f, ?_, hdecl, hscope, hid ▸ h⟩
    simp [Draft.bindingAt, hsite, hr, Attributes.decl?_eq_some.2 hdecl,
      Attributes.scope?_eq_some.2 hscope]
  | @late scope hopen h =>
    have hdecl : (d.entry s.id).slots .decl = none := by simp [hslots]
    have hscope : (d.entry s.id).slots .scope = none := by simp [hslots]
    have hunbound : d.attributes.decl? (.declOf s.id) = none := by
      have hslot : d.attributes.slot? (.declOf s.id) = none := hdecl
      simp [Attributes.decl?, Attributes.get?, hslot]
    obtain ⟨r, hsearch, hfinds⟩ :=
      ScopeTable.search_finds hd.sound.rooted (ScopeTable.binds ref.name) hopen.2 hopen.2
    have hlookup : d.tables.scopes.lookup scope ref.name = .ok r := hsearch
    have hbinding : d.bindingAt p s.id = r := by
      simp [Draft.bindingAt, hsite, hr, hunbound, Attributes.scope?_eq_some.2 hopen.1, hlookup,
        Except.toOption]
    refine .inr ⟨scope, hopen, hbinding ▸ hlookup, hdecl, hscope, fun f hf => hid ▸ h f ?_⟩
    exact hf ▸ hbinding ▸ hfinds

theorem decl_of_reference (n : NodeId) : (d.names p).decl n = (d.bindingAt p n).map (·.declaration) :=
  rfl

theorem scope_of_reference (hp : p.Numbered) (hs : s ∈ p.sites) (hr : s.reference? = some ref) :
    (d.names p).scope ref.node.id = (d.bindingAt p ref.node.id).map (·.scope) := by
  have hsite : p.siteAt ref.node.id = some s := Site.id_of_reference? hr ▸ hp.siteAt_eq hs
  simp [Draft.names, hsite, hr]

theorem scope_of_other (hp : p.Numbered) (hs : s ∈ p.sites) (hr : s.reference? = none) :
    (d.names p).scope s.id = d.attributes.scope? (.scopeOf s.id) := by
  simp [Draft.names, hp.siteAt_eq hs, hr]

theorem scope_of_opens (hp : p.Numbered) (hd : p.Drafted d) {scope : ScopeId}
    (h : d.Opens n scope) : (d.names p).scope n = some scope := by
  have hscope : d.attributes.scope? (.scopeOf n) = some scope := Attributes.scope?_eq_some.2 h.1
  cases hsite : p.siteAt n with
  | none => simp [Draft.names, hsite, hscope]
  | some s =>
    obtain ⟨hs, rfl⟩ := mem_of_siteAt hsite
    cases hr : s.reference? with
    | none => rw [scope_of_other hp hs hr, hscope]
    | some ref =>
      have hslot : (d.entry s.id).slots .scope = some (.set (.scope scope)) := h.1
      rcases bindingAt_eq hp hd hs hr with ⟨f, hf, _, hfs, _⟩ | ⟨_, _, _, _, hnone, _⟩
      · rw [Site.id_of_reference? hr, scope_of_reference hp hs hr, hf]
        rw [hfs] at hslot
        cases hslot
        rfl
      · rw [hnone] at hslot
        cases hslot

/-- A lookup from an open scope succeeds, and finds declarations of the table. -/
theorem lookup_eq (hp : p.Numbered) (hd : p.Drafted d) {scope : ScopeId} (h : d.Opens n scope)
    (name : String) : d.tables.scopes.lookup scope name = .ok ((d.names p).lookup n name) ∧
      ∀ f, (d.names p).lookup n name = some f → f.declaration.index < d.size := by
  obtain ⟨r, hsearch, hfinds⟩ :=
    ScopeTable.search_finds hd.sound.rooted (ScopeTable.binds name) h.2 h.2
  have hlookup : d.tables.scopes.lookup scope name = .ok r := hsearch
  have hr : (d.names p).lookup n name = r := by
    have htables : (d.names p).tables = d.tables := rfl
    simp [Names.lookup, scope_of_opens hp hd h, htables, hlookup, Except.toOption]
  rw [hr]
  refine ⟨hlookup, fun f hf => ?_⟩
  obtain ⟨sc, hsc, hmem⟩ := ScopeTable.mem_of_finds hfinds hf
  exact hd.sound.bound _ sc hsc _ hmem

theorem referenceType_unbound (h : d.bindingAt p ref.node.id = none) :
    (d.names p).referenceType ref = none := by
  simp [Names.referenceType, decl_of_reference, h]

theorem referenceType_early {f : Binding} (hf : d.bindingAt p ref.node.id = some f)
    (h : d.VariableIn {m | m < ref.node.id.index} f.declaration) :
    (d.names p).referenceType ref = (d.names p).declarationType f.declaration := by
  obtain ⟨x, hx, hv⟩ := h
  have hitem : (d.names p).tables.declarations.items[f.declaration.index]? = some x := hx
  have hbehind : ¬(x.kind = .variable ∧ x.node.any (ref.node.id.index < ·.index)) := by
    rintro ⟨hk, hany⟩
    obtain ⟨m, hm, hlt⟩ := hv hk
    have hlt' : m.index < ref.node.id.index := hlt
    simp [hm] at hany
    omega
  simp [Names.referenceType, decl_of_reference, hf, hitem, hbehind]

theorem referenceType_late {f : Binding} {x : Declaration} (hf : d.bindingAt p ref.node.id = some f)
    (h : d.VariableIn {m | ref.node.id.index < m} f.declaration)
    (hx : d.tables.declarations.items[f.declaration.index]? = some x) :
    (d.names p).referenceType ref =
      if x.kind = .variable then none else (d.names p).declarationType f.declaration := by
  have hitem : (d.names p).tables.declarations.items[f.declaration.index]? = some x := hx
  obtain ⟨x', hx', hv⟩ := h
  obtain rfl : x = x' := by rw [hx] at hx'; exact Option.some.inj hx'
  by_cases hk : x.kind = .variable
  · obtain ⟨m, hm, hlt⟩ := hv hk
    have hlt' : ref.node.id.index < m.index := hlt
    simp [Names.referenceType, decl_of_reference, hf, hitem, hk, hm, hlt']
  · simp [Names.referenceType, decl_of_reference, hf, hitem, hk]

/-- Each declaration is built in or was made at a site. -/
theorem declaration_cases (hd : p.Drafted d) (hid : id.index < d.size) :
    (∃ b, Builtin.all[id.index]? = some b ∧ d.HasBuiltin id.index b) ∨
      ∃ s ∈ p.sites, id ∈ (d.entry s.id).declared := by
  obtain ⟨x, hx⟩ := Declarations.exists_item hid
  cases hn : x.node with
  | none =>
    have hlt := hd.sound.placed _ x hx hn
    exact .inl ⟨_, List.getElem?_eq_getElem hlt, hd.builtins _ _ (List.getElem?_eq_getElem hlt)⟩
  | some n =>
    have hmem : id ∈ (d.entry n).declared := Declarations.mem_idsAt.2 ⟨x, hx, hn⟩
    by_cases hsite : ∃ s ∈ p.sites, s.id = n
    · obtain ⟨s, hs, rfl⟩ := hsite
      exact .inr ⟨s, hs, hmem⟩
    · by_cases hown : n = p.node.id
      · rw [hown, hd.own] at hmem
        cases hmem
      · rw [hd.only n hown (by simpa using hsite)] at hmem
        cases hmem

theorem not_builtin (hd : p.Drafted d) {x : Declaration}
    (hx : d.tables.declarations.items[id.index]? = some x) (hn : x.node = some n) :
    Builtin.all[id.index]? = none := by
  cases hb : Builtin.all[id.index]? with
  | none => rfl
  | some b =>
    obtain ⟨y, hy, hnone, _⟩ := (hd.builtins _ b hb).item
    rw [hx, Option.some.injEq] at hy
    rw [← hy, hn] at hnone
    cases hnone

/-- A type that is declared at a node introduces a type at once; other declarations there introduce
none, and their type is found later. -/
inductive Declares (d : Draft) (N : Names) (n : NodeId) (id : DeclId) : Prop
  | known {name kind} {t : Ty} (h : d.Introduces n name kind (Draft.typed .type) (Draft.typed t) id)
      (type : N.typeAt n = some .type) (introduced : d.tables.introduced id = some t)
  | later {name kind} {o : Obligation} (h : d.Introduces n name kind none none id)
      (value : kind.isType = false) (introduced : d.tables.introduced id = none)
      (owed : o ∈ (d.entry n).obligations) (output : .typeOfDecl id ∈ o.goal.outputs o.node)

section Introduced

variable {name : String} {kind : DeclarationKind} {type declared : Option Slot}

theorem introduced_none (hd : p.Drafted d) (h : d.Introduces n name kind type declared id)
    (hk : kind.isType = false) : d.tables.introduced id = none := by
  obtain ⟨x, hx, _, hn, hkind⟩ := h.item
  have hx' : x.kind.isType = false := by rw [← DeclarationKind.isType_blank, hkind, hk]
  have hnone := not_builtin hd hx hn
  cases hxk : x.kind with
  | struct | cls | typeParameter =>
    rw [hxk] at hx'
    cases hx'
  | _ => simp [Tables.introduced, hx, hxk, hnone]

theorem introduced_struct (h : d.Introduces n name (.struct []) type declared id) :
    d.tables.introduced id = some (.composite .struct ⟨id, name⟩) := by
  obtain ⟨x, hx, rfl, _, hkind⟩ := h.item
  obtain ⟨fields, hxk⟩ := DeclarationKind.exists_struct_of_blank hkind
  simp [Tables.introduced, hx, hxk]

theorem introduced_cls {last : DeclId} (h : d.Introduces n name (.cls {}) type declared id)
    (hlast : (d.entry n).declared.getLast? = some last) :
    d.tables.introduced id = some (.composite .cls ⟨last, name⟩) := by
  obtain ⟨x, hx, rfl, hn, hkind⟩ := h.item
  obtain ⟨info, hxk⟩ := DeclarationKind.exists_cls_of_blank hkind
  have hfor : d.tables.declarations.forNode? n = some last := by
    rw [Declarations.forNode?_eq]
    exact hlast
  simp [Tables.introduced, hx, hxk, hn, hfor]

theorem introduced_typeParameter (h : d.Introduces n name .typeParameter type declared id) :
    d.tables.introduced id = some (.placeholder ⟨id, name⟩) := by
  obtain ⟨x, hx, rfl, _, hkind⟩ := h.item
  simp [Tables.introduced, hx, DeclarationKind.eq_typeParameter_of_blank hkind]

/-- What is found later is owed first at the node. -/
theorem declares_later (hd : p.Drafted d) {o : Obligation} {rest : List Obligation}
    (h : d.Introduces n name kind none none id) (hk : kind.isType = false)
    (ho : (d.entry n).obligations = o :: rest) (hout : o.goal.outputs o.node = [.typeOfDecl id]) :
    Declares d (d.names p) n id :=
  .later h hk (introduced_none hd h hk) (ho ▸ List.mem_cons_self)
    (hout ▸ List.mem_cons_self)

end Introduced

theorem declares_at_stmt (hp : p.Numbered) (hd : p.Drafted d) {st : Setting} {x : Stmt}
    (hs : ⟨st, .stmt x⟩ ∈ p.sites) (hid : id ∈ (d.entry x.id).declared)
    (hl : x.Leaves d st (d.entry x.id)) : Declares d (d.names p) x.id id := by
  have hsite : (d.names p).site x.id = some ⟨st, .stmt x⟩ := hp.siteAt_eq hs
  generalize he : d.entry x.id = e at hl hid
  have hobligations := congrArg Entry.obligations he
  have hdeclared := congrArg Entry.declared he
  cases hl with
  | block =>
    unfold Entry.ofBlock at hid
    split at hid <;> cases hid
  | ret =>
    unfold Entry.ofReturn at hid
    split at hid <;> cases hid
  | ifElse =>
    unfold Entry.ofBranches at hid
    split at hid <;> cases hid
  | ifThen | loop | action => cases hid
  | «variable» h | field h | function h | template h =>
    obtain rfl : id = _ := by simpa using hid
    exact declares_later hd h rfl hobligations rfl
  | struct h =>
    obtain rfl : id = _ := by simpa using hid
    exact .known h (by simp [Names.typeAt, hsite]) (introduced_struct h)
  | cls h =>
    obtain rfl : id = _ := by simpa using hid
    exact .known h (by simp [Names.typeAt, hsite]) (introduced_cls h (congrArg List.getLast? hdeclared))
  | subclass h =>
    have hmem := h id (by simpa using hid)
    exact .known hmem (by simp [Names.typeAt, hsite])
      (introduced_cls hmem (congrArg List.getLast? hdeclared))

theorem declares_at (hp : p.Numbered) (hd : p.Drafted d) (hs : s ∈ p.sites)
    (hid : id ∈ (d.entry s.id).declared) : Declares d (d.names p) s.id id := by
  have hl := hd.leaves s hs
  have hsite : (d.names p).site s.id = some s := hp.siteAt_eq hs
  generalize he : d.entry s.id = e at hl hid
  have hobligations := congrArg Entry.obligations he
  cases hl with
  | typeName | containerType => cases hid
  | reference h => cases h <;> cases hid
  | expr _ h => cases h with
    | symbol h => cases h <;> cases hid
    | _ => cases hid
  | condition h => cases h with
    | symbol h => cases h <;> cases hid
    | _ => cases hid
  | field h | parameter h =>
    obtain rfl : id = _ := by simpa using hid
    exact declares_later hd h rfl hobligations rfl
  | typeParameter h =>
    obtain rfl : id = _ := by simpa using hid
    exact .known h (by simp [Names.typeAt, hsite]) (introduced_typeParameter h)
  | body =>
    unfold Entry.ofBlock at hid
    split at hid <;> cases hid
  | stmt h => exact declares_at_stmt hp hd hs (he ▸ hid) (he ▸ h)

theorem declarationType_at (h : id ∈ (d.entry n).declared) :
    (d.names p).declarationType id = (d.names p).typeAt n := by
  obtain ⟨x, hx, hn⟩ := Declarations.mem_idsAt.1 h
  have hitem : (d.names p).tables.declarations.items[id.index]? = some x := hx
  simp [Names.declarationType, hitem, hn]

theorem declarationType_builtin {b : Builtin} (hb : Builtin.all[id.index]? = some b)
    (h : d.HasBuiltin id.index b) : (d.names p).declarationType id = some b.type := by
  obtain ⟨x, hx, hn, _⟩ := h.item
  have hitem : (d.names p).tables.declarations.items[id.index]? = some x := hx
  simp [Names.declarationType, hitem, hn, hb]

theorem introduced_builtin {b : Builtin} (hb : Builtin.all[id.index]? = some b)
    (h : d.HasBuiltin id.index b) : d.tables.introduced id = b.declared := by
  obtain ⟨x, hx, _, hk⟩ := h.item
  have hkind := Builtin.kind_of_all b (List.mem_of_getElem? hb)
  rw [← hk] at hkind
  cases hxk : x.kind with
  | builtinType | builtinVariable | builtinFunction | modifier =>
    simp [Tables.introduced, hx, hxk, hb]
  | _ => simp [hxk, DeclarationKind.blank] at hkind

theorem within_declaration (hp : p.Numbered) (hd : p.Drafted d) {κ : AttributeKind} {slot : Slot}
    (h : d.attributes.slot? ⟨.decl id, κ⟩ = some slot) :
    (d.names p).solution ⟨.decl id, κ⟩ = some slot := by
  have htables : (d.names p).tables = d.tables := rfl
  have hid : id.index < d.size := by
    by_contra hge
    rw [hd.sound.unwritten id (by omega) κ] at h
    cases h
  rcases declaration_cases hd hid with ⟨b, hb, hbuiltin⟩ | ⟨s, hs, hmem⟩
  · rw [hbuiltin.slots κ] at h
    cases κ with
    | type =>
      cases h
      simp [Names.solution, declarationType_builtin hb hbuiltin, Slot.of]
    | declared => simpa [Names.solution, htables, introduced_builtin hb hbuiltin] using h
    | _ => cases h
  · cases declares_at hp hd hs hmem with
    | known hi htype hintroduced =>
      rw [hi.slots κ] at h
      cases κ with
      | type =>
        cases h
        simp [Names.solution, declarationType_at hmem, htype, Slot.of]
      | declared =>
        cases h
        simp [Names.solution, htables, hintroduced]
      | _ => cases h
    | later hi =>
      rw [hi.slots κ] at h
      cases κ <;> cases h

/-- Every declaration has a type, or a rule that finds one. -/
theorem supplies_typeOfDecl (hp : p.Numbered) (hd : p.Drafted d) (hid : id.index < d.size) :
    d.state.Supplies (.typeOfDecl id) := by
  rcases declaration_cases hd hid with ⟨b, _, hbuiltin⟩ | ⟨s, hs, hmem⟩
  · exact supplies_of_slot (hbuiltin.slots .type)
  · cases declares_at hp hd hs hmem with
    | known hi => exact supplies_of_slot (hi.slots .type)
    | later _ _ _ howed hout => exact supplies_of_owed howed hout

theorem supplies_declaredBy (hp : p.Numbered) (hd : p.Drafted d) {t : Ty}
    (h : d.tables.introduced id = some t) : d.state.Supplies (.declaredBy id) := by
  obtain ⟨x, hx, _⟩ := Option.bind_eq_some_iff.1 h
  have hid := Declarations.lt_size_of_getElem? hx
  rcases declaration_cases hd hid with ⟨b, hb, hbuiltin⟩ | ⟨s, hs, hmem⟩
  · have hdeclared : b.declared = some t := by rw [← introduced_builtin hb hbuiltin, h]
    have hslot : d.attributes.slot? (.declaredBy id) = some (.set (.type t)) :=
      (hbuiltin.slots .declared).trans (by simp [hdeclared])
    exact supplies_of_slot hslot
  · cases declares_at hp hd hs hmem with
    | known hi => exact supplies_of_slot (hi.slots .declared)
    | later _ _ hintroduced =>
      rw [h] at hintroduced
      cases hintroduced

theorem introduced_of_isType (hp : p.Numbered) (hd : p.Drafted d) {x : Declaration}
    (hx : d.tables.declarations.items[id.index]? = some x) (hk : x.kind.isType = true) :
    ∃ t, d.tables.introduced id = some t := by
  have hid := Declarations.lt_size_of_getElem? hx
  rcases declaration_cases hd hid with ⟨b, hb, hbuiltin⟩ | ⟨s, hs, hmem⟩
  · obtain ⟨y, hy, _, hyk⟩ := hbuiltin.item
    rw [hx, Option.some.injEq] at hy
    subst hy
    rw [introduced_builtin hb hbuiltin, ← Option.isSome_iff_exists,
      Builtin.isSome_declared b (List.mem_of_getElem? hb), ← hyk, DeclarationKind.isType_blank, hk]
  · cases declares_at hp hd hs hmem with
    | known _ _ hintroduced => exact ⟨_, hintroduced⟩
    | later hi hvalue =>
      obtain ⟨y, hy, _, _, hyk⟩ := hi.item
      rw [hx, Option.some.injEq] at hy
      subst hy
      rw [← hyk, DeclarationKind.isType_blank, hk] at hvalue
      cases hvalue

section Nodes

variable {N : Names} {st : Setting} {κ : AttributeKind} {slot : Slot} {e : Entry}

theorem siteSlot_decl (hr : s.reference? = some ref) :
    N.siteSlot s .decl = some (.of .decl (N.decl ref.node.id)) := by
  simp [Names.siteSlot, hr]

theorem siteSlot_chosen {role : Role} {x : Expr} (hr : Site.reference? ⟨st, .expr role x⟩ = none) :
    N.siteSlot ⟨st, .expr role x⟩ .decl = (N.chosen st.home x).map fun id => .set (.decl id) := by
  simp [Names.siteSlot, hr]

theorem siteSlot_scope (hr : s.reference? = some ref) :
    N.siteSlot s .scope = some (.of .scope (N.scope ref.node.id)) := by
  simp [Names.siteSlot, hr]

theorem within_reference (hp : p.Numbered) (hd : p.Drafted d) (hs : s ∈ p.sites)
    (hr : s.reference? = some ref) (h : (d.entry s.id).slots κ = some slot) :
    (d.names p).siteSlot s κ = some slot := by
  cases κ with
  | decl =>
    rcases bindingAt_eq hp hd hs hr with ⟨f, hf, hdecl, _⟩ | ⟨_, _, _, hdecl, _⟩
    · rw [hdecl] at h
      cases h
      rw [siteSlot_decl hr, decl_of_reference, hf]
      rfl
    · rw [hdecl] at h
      cases h
  | scope =>
    rcases bindingAt_eq hp hd hs hr with ⟨f, hf, _, hscope, _⟩ | ⟨_, _, _, _, hscope, _⟩
    · rw [hscope] at h
      cases h
      rw [siteSlot_scope hr, scope_of_reference hp hs hr, hf]
      rfl
    · rw [hscope] at h
      cases h
  | _ =>
    obtain ⟨e, he, hslots, _⟩ := reference_leaves hd hs hr
    rw [hslots] at h
    cases he <;> simp at h

theorem within_scope (hp : p.Numbered) (hs : s ∈ p.sites) (hr : s.reference? = none)
    {scope : ScopeId} (h : (d.entry s.id).slots .scope = some (.set (.scope scope))) :
    (d.names p).siteSlot s .scope = some (.set (.scope scope)) := by
  have hscope : (d.names p).scope s.id = some scope := by
    rw [scope_of_other hp hs hr]
    exact Attributes.scope?_eq_some.2 h
  simp [Names.siteSlot, hr, hscope]

theorem within_expr {role role' : Role} {x : Expr} (hx : Site.reference? ⟨st, .expr role x⟩ = none)
    (hrole : N.expectation st.home role = N.expectation st.home role')
    (hl : x.Leaves d st role' e) (h : e.slots κ = some slot) :
    N.siteSlot ⟨st, .expr role x⟩ κ = some slot := by
  cases hl with
  | symbol => cases hx
  | emptyFree =>
    cases κ with
    | type =>
      obtain rfl : Slot.failed = slot := by simpa using h
      have hnone : N.expectation st.home .free = none := rfl
      simp [Names.siteSlot, Names.typeIn, hrole, hnone, Names.type, Slot.of]
    | _ => simp at h
  | int | float | string | not =>
    cases κ with
    | type =>
      obtain rfl : Slot.set _ = slot := by simpa using h
      simp [Names.siteSlot, Names.typeIn, Names.type, Slot.of]
    | _ => simp at h
  | equality hf | comparison hf | logic hf =>
    cases κ with
    | type =>
      obtain rfl : Slot.set _ = slot := by simpa using h
      simp [Names.siteSlot, Names.typeIn, Names.type, Slot.of, hf]
    | _ => simp at h
  | _ => simp at h

theorem slots_ofBlock {scope : ScopeId} {node : Node} {body : List Stmt}
    (h : (Entry.ofBlock scope node body).slots κ = some slot) :
    κ = .scope ∧ slot = .set (.scope scope) ∨
      κ = .returns ∧ slot = .set (.flag (Stmt.bodyReturns body)) := by
  unfold Entry.ofBlock at h
  split at h
  · next hnil =>
    have hnone : body.any Stmt.isReturnContainer = false := by
      simpa [List.filter_eq_nil_iff] using hnil
    cases κ <;> simp at h
    · exact .inl ⟨rfl, h.symm⟩
    · exact .inr ⟨rfl, by simp [Stmt.bodyReturns, hnone, h]⟩
  · cases κ <;> simp at h
    exact .inl ⟨rfl, h.symm⟩

theorem within_stmt (hp : p.Numbered) {x : Stmt} (hs : ⟨st, .stmt x⟩ ∈ p.sites)
    (hl : x.Leaves d st (d.entry x.id)) (h : (d.entry x.id).slots κ = some slot) :
    (d.names p).siteSlot ⟨st, .stmt x⟩ κ = some slot := by
  have hscope : ∀ scope, (d.entry x.id).slots .scope = some (.set (.scope scope)) → _ :=
    fun scope => within_scope hp hs rfl
  generalize he : d.entry x.id = e at hl h hscope
  cases hl with
  | block =>
    rcases slots_ofBlock h with ⟨rfl, rfl⟩ | ⟨rfl, rfl⟩
    · exact hscope _ h
    · simp [Names.siteSlot, Stmt.isReturnContainer, Stmt.returns, Stmt.bodyReturns]
  | ret =>
    unfold Entry.ofReturn at h
    cases κ with
    | returns =>
      obtain rfl : Slot.set (.flag true) = slot := by split at h <;> simpa using h
      simp [Names.siteSlot, Stmt.isReturnContainer, Stmt.returns]
    | _ => split at h <;> simp at h
  | ifThen =>
    cases κ with
    | returns =>
      obtain rfl : Slot.set (.flag false) = slot := by simpa using h
      simp [Names.siteSlot, Stmt.isReturnContainer, Stmt.returns]
    | _ => simp at h
  | @ifElse node c thenBody elseBody =>
    unfold Entry.ofBranches at h
    split at h
    · simp at h
    · next hnone =>
      have hreturns : (Stmt.ifElse node c thenBody elseBody).returns = false := by
        rw [Stmt.returns, Bool.eq_false_iff.2 hnone]
        rfl
      cases κ with
      | returns =>
        obtain rfl : Slot.set (.flag false) = slot := by simpa using h
        simp [Names.siteSlot, Stmt.isReturnContainer, hreturns]
      | _ => simp at h
  | function | cls | subclass | template =>
    cases κ with
    | scope =>
      obtain rfl : Slot.set _ = slot := by simpa using h
      exact hscope _ h
    | _ => simp at h
  | _ => simp at h

theorem within_site (hp : p.Numbered) (hd : p.Drafted d) (hs : s ∈ p.sites)
    (h : (d.entry s.id).slots κ = some slot) : (d.names p).siteSlot s κ = some slot := by
  cases hr : s.reference? with
  | some ref => exact within_reference hp hd hs hr h
  | none =>
    have hl := hd.leaves s hs
    have hscope : ∀ scope, (d.entry s.id).slots .scope = some (.set (.scope scope)) → _ :=
      fun scope => within_scope hp hs hr
    generalize he : d.entry s.id = e at hl h hscope
    cases hl with
    | reference => cases hr
    | expr _ hl => exact within_expr hr rfl hl h
    | condition hl =>
      refine within_expr hr ?_ hl h
      rfl
    | body =>
      rcases slots_ofBlock h with ⟨rfl, rfl⟩ | ⟨rfl, rfl⟩
      · exact hscope _ h
      · rfl
    | stmt hl => exact within_stmt hp hs (he ▸ hl) (he ▸ h)
    | _ => simp at h

end Nodes

/-- All that a draft knows of a program is as the solution says. -/
theorem within (hp : p.Numbered) (hd : p.Drafted d) :
    d.attributes.Within (d.names p).solution := by
  rintro ⟨n | id, κ⟩ slot h
  · by_cases hsite : ∃ s ∈ p.sites, s.id = n
    · obtain ⟨s, hs, rfl⟩ := hsite
      rw [solution_site hp hs]
      exact within_site hp hd hs h
    · have hentry : (d.entry n).slots κ = some slot := h
      by_cases hown : n = p.node.id
      · have hnone : p.siteAt n = none := by
          simpa [siteAt, List.find?_eq_none] using hsite
        have hscope : (d.names p).scope n = d.attributes.scope? (.scopeOf n) := by
          simp [Draft.names, hnone]
        rw [hown, hd.own] at hentry
        cases κ with
        | scope =>
          obtain rfl : Slot.set _ = slot := by simpa using hentry
          have hsite' : (d.names p).site n = none := hnone
          simp [Names.solution, hsite', hscope, Attributes.scope?_eq_some.2 h]
        | _ => simp at hentry
      · rw [hd.only n hown (by simpa using hsite)] at hentry
        cases hentry
  · exact within_declaration hp hd h

/-- What is to be found for a site is known or owed there. -/
theorem supplies_site (hd : p.Drafted d) (hs : s ∈ p.sites) {κ : AttributeKind}
    (hκ : κ ∈ s.attributes) : d.state.Supplies ⟨.node s.id, κ⟩ := by
  rcases (hd.leaves s hs).finds hκ with ⟨slot, hslot⟩ | ⟨o, ho, hout⟩
  · exact supplies_of_slot hslot
  · exact supplies_of_owed ho hout

end Program.Drafted

end ScriptAnalysis
