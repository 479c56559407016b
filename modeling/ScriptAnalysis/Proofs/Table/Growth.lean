import Mathlib.Tactic.Common
import ScriptAnalysis.Table.Basic

/-!
Growth of the tables. Every scope is opened below an earlier one, so a search outwards always ends.
Later bindings stand before earlier ones of their scope: a search in a grown table gives what it gave
before, or something that was bound since (`finds_lookup_of_extends`).
-/
namespace ScriptAnalysis

theorem mem_of_lookup {name : String} {d : DeclId} {bindings : List (String × DeclId)}
    (h : bindings.lookup name = some d) : (name, d) ∈ bindings := by
  obtain ⟨before, after, rfl, _⟩ := List.lookup_eq_some_iff.1 h
  simp

namespace ScopeTable

variable {t u v : ScopeTable} {α : Type} {visit : ScopeId → Scope → Option α}

theorem get_eq_ok {id : ScopeId} {s : Scope} : t.get id = .ok s ↔ t.scopes[id.index]? = some s := by
  unfold get
  cases t.scopes[id.index]? <;> simp

/-- There is a scope, and every scope that has a parent was opened after it. -/
def Rooted (t : ScopeTable) : Prop :=
  0 < t.size ∧ ∀ (i : Nat) (s : Scope), t.scopes[i]? = some s →
    ∀ p : ScopeId, s.parent = some p → p.index < i

inductive Finds (t : ScopeTable) (visit : ScopeId → Scope → Option α) : ScopeId → Option α → Prop
  | here {id s a} (hs : t.scopes[id.index]? = some s) (ha : visit id s = some a) :
      Finds t visit id (some a)
  | top {id s} (hs : t.scopes[id.index]? = some s) (hn : visit id s = none)
      (hp : s.parent = none) : Finds t visit id none
  | up {id s p r} (hs : t.scopes[id.index]? = some s) (hn : visit id s = none)
      (hp : s.parent = some p) (h : Finds t visit p r) : Finds t visit id r

theorem exists_scope {i : Nat} (h : i < t.size) : ∃ s, t.scopes[i]? = some s :=
  ⟨t.scopes[i], Array.getElem?_eq_getElem h⟩

theorem lt_size_of_getElem? {i : Nat} {s : Scope} (h : t.scopes[i]? = some s) : i < t.size :=
  (Array.getElem?_eq_some_iff.1 h).1

theorem search_finds (ht : t.Rooted) (visit : ScopeId → Scope → Option α) {steps : Nat}
    {id : ScopeId} (hsteps : id.index < steps) (hid : id.index < t.size) :
    ∃ r, t.search visit steps id = .ok r ∧ Finds t visit id r := by
  induction steps generalizing id with
  | zero => omega
  | succ steps ih =>
    obtain ⟨s, hs⟩ := exists_scope hid
    have hget : t.get id = .ok s := get_eq_ok.2 hs
    cases hv : visit id s with
    | some a =>
      refine ⟨some a, ?_, .here hs hv⟩
      simp [search, hget, hv, bind, Except.bind, pure, Except.pure]
    | none =>
      cases hp : s.parent with
      | none =>
        refine ⟨none, ?_, .top hs hv hp⟩
        simp [search, hget, hv, hp, bind, Except.bind, pure, Except.pure]
      | some p =>
        have hlt : p.index < id.index := ht.2 _ s hs p hp
        have hsteps' : p.index < steps := by omega
        obtain ⟨r, hr, hf⟩ := ih hsteps' (by omega)
        refine ⟨r, ?_, .up hs hv hp hf⟩
        simp [search, hget, hv, hp, hr, bind, Except.bind]

theorem Finds.unique {id : ScopeId} {r r' : Option α} (h : Finds t visit id r)
    (h' : Finds t visit id r') : r = r' := by
  induction h with
  | here hs ha =>
    cases h' with
    | here hs' ha' => rw [hs] at hs'; cases hs'; rw [ha] at ha'; exact ha'
    | top hs' hn' _ => rw [hs] at hs'; cases hs'; rw [ha] at hn'; cases hn'
    | up hs' hn' _ _ => rw [hs] at hs'; cases hs'; rw [ha] at hn'; cases hn'
  | top hs hn hp =>
    cases h' with
    | here hs' ha' => rw [hs] at hs'; cases hs'; rw [hn] at ha'; cases ha'
    | top _ _ _ => rfl
    | up hs' _ hp' _ => rw [hs] at hs'; cases hs'; rw [hp] at hp'; cases hp'
  | up hs hn hp _ ih =>
    cases h' with
    | here hs' ha' => rw [hs] at hs'; cases hs'; rw [hn] at ha'; cases ha'
    | top hs' _ hp' => rw [hs] at hs'; cases hs'; rw [hp] at hp'; cases hp'
    | up hs' _ hp' h' => rw [hs] at hs'; cases hs'; rw [hp] at hp'; cases hp'; exact ih h'

theorem search_eq_iff (ht : t.Rooted) {id : ScopeId} (hid : id.index < t.size) {r : Option α} :
    t.search visit t.size id = .ok r ↔ Finds t visit id r := by
  obtain ⟨r', hr', hf⟩ := search_finds ht visit hid hid
  constructor
  · intro h
    rw [hr'] at h
    cases h
    exact hf
  · intro h
    rw [hr', hf.unique h]

def binds (name : String) (here : ScopeId) (s : Scope) : Option Binding :=
  (s.get? name).map (⟨·, here⟩)

def owner (_ : ScopeId) (s : Scope) : Option (Option DeclId) := ScopeKind.owner? s.kind

theorem enclosingFunction_eq (ht : t.Rooted) {id : ScopeId} (hid : id.index < t.size)
    {r : Option (Option DeclId)} (h : Finds t owner id r) : t.enclosingFunction id = .ok r.join := by
  have hs : t.search owner t.size id = .ok r := (search_eq_iff ht hid).2 h
  show (do return (← t.search owner t.size id).join : Except Fault (Option DeclId)) = .ok r.join
  rw [hs]
  rfl

theorem mem_of_finds {id : ScopeId} {name : String} {r : Option Binding}
    (h : Finds t (binds name) id r) {f : Binding} (hf : r = some f) :
    ∃ s, t.scopes[f.scope.index]? = some s ∧ (name, f.declaration) ∈ s.bindings := by
  induction h with
  | @here id s a hs ha =>
    obtain rfl : a = f := Option.some.inj hf
    obtain ⟨d, hd, rfl⟩ := Option.map_eq_some_iff.1 ha
    exact ⟨s, hs, mem_of_lookup hd⟩
  | top _ _ _ => cases hf
  | up _ _ _ _ ih => exact ih hf

/-- The second table has the scopes of the first with the same parents and kinds, and in each of them
the same bindings behind new ones. All declarations that are bound anew are as stated. -/
structure Extends (P : DeclId → Prop) (t u : ScopeTable) : Prop where
  scope : ∀ (i : Nat) (s : Scope), t.scopes[i]? = some s →
    ∃ s' : Scope, u.scopes[i]? = some s' ∧ s'.parent = s.parent ∧ s'.kind = s.kind ∧
      ∃ new, s'.bindings = new ++ s.bindings ∧ ∀ b ∈ new, P b.2
  opened : ∀ (i : Nat) (s' : Scope), u.scopes[i]? = some s' → t.size ≤ i → ∀ b ∈ s'.bindings, P b.2

variable {P Q : DeclId → Prop}

theorem Extends.refl (P : DeclId → Prop) (t : ScopeTable) : t.Extends P t where
  scope _ s hs := ⟨s, hs, rfl, rfl, [], rfl, by simp⟩
  opened i s hs hi := absurd (lt_size_of_getElem? hs) (Nat.not_lt.2 hi)

theorem Extends.trans (h : t.Extends P u) (h' : u.Extends Q v) (hP : ∀ d, P d → Q d) :
    t.Extends Q v where
  scope i s hs := by
    obtain ⟨s₁, hs₁, hp₁, hk₁, new₁, hb₁, hn₁⟩ := h.scope i s hs
    obtain ⟨s₂, hs₂, hp₂, hk₂, new₂, hb₂, hn₂⟩ := h'.scope i s₁ hs₁
    refine ⟨s₂, hs₂, hp₂.trans hp₁, hk₂.trans hk₁, new₂ ++ new₁, ?_, ?_⟩
    · rw [hb₂, hb₁, List.append_assoc]
    · intro b hb
      rcases List.mem_append.1 hb with hb | hb
      · exact hn₂ b hb
      · exact hP _ (hn₁ b hb)
  opened i s₂ hs₂ hi b hb := by
    by_cases hlt : i < u.size
    · obtain ⟨s₁, hs₁⟩ := exists_scope hlt
      obtain ⟨s', hs', _, _, new, hnew, hn⟩ := h'.scope i s₁ hs₁
      obtain rfl : s' = s₂ := by rw [hs'] at hs₂; exact Option.some.inj hs₂
      rw [hnew] at hb
      rcases List.mem_append.1 hb with hb | hb
      · exact hn b hb
      · exact hP _ (h.opened i s₁ hs₁ hi b hb)
    · exact h'.opened i s₂ hs₂ (Nat.not_lt.1 hlt) b hb

/-- A binding of the second table is one of the first or new. -/
theorem Extends.binding (h : t.Extends P u) {i : Nat} {s' : Scope} (hs' : u.scopes[i]? = some s')
    {b : String × DeclId} (hb : b ∈ s'.bindings) :
    P b.2 ∨ ∃ s, t.scopes[i]? = some s ∧ b ∈ s.bindings := by
  by_cases hi : i < t.size
  · obtain ⟨s, hs⟩ := exists_scope hi
    obtain ⟨s₁, hs₁, _, _, new, hnew, hn⟩ := h.scope i s hs
    obtain rfl : s₁ = s' := by rw [hs₁] at hs'; exact Option.some.inj hs'
    rw [hnew] at hb
    rcases List.mem_append.1 hb with hb | hb
    · exact .inl (hn b hb)
    · exact .inr ⟨s, hs, hb⟩
  · exact .inl (h.opened i s' hs' (Nat.not_lt.1 hi) b hb)

theorem Extends.size_le (h : t.Extends P u) : t.size ≤ u.size := by
  by_contra hlt
  obtain ⟨s, hs⟩ := exists_scope (Nat.not_le.1 hlt)
  obtain ⟨s', hs', _⟩ := h.scope _ s hs
  exact absurd (lt_size_of_getElem? hs') (by simp)

/-- The function that a scope belongs to stays the same. -/
theorem Finds.owner_of_extends (h : t.Extends P u) {id : ScopeId} {r : Option (Option DeclId)}
    (hf : Finds t owner id r) : Finds u owner id r := by
  induction hf with
  | @here id s a hs ha =>
    obtain ⟨s', hs', _, hk, _⟩ := h.scope _ s hs
    exact .here hs' (by rw [owner, hk]; exact ha)
  | @top id s hs hn hp =>
    obtain ⟨s', hs', hp', hk, _⟩ := h.scope _ s hs
    exact .top hs' (by rw [owner, hk]; exact hn) (hp'.trans hp)
  | @up id s p r hs hn hp _ ih =>
    obtain ⟨s', hs', hp', hk, _⟩ := h.scope _ s hs
    exact .up hs' (by rw [owner, hk]; exact hn) (hp'.trans hp) ih

/-- What a name stands for in the grown table was bound since, or is what it stood for before. -/
theorem finds_lookup_of_extends (ht : t.Rooted) (h : t.Extends P u) {id : ScopeId} {name : String}
    {r : Option Binding} (hf : Finds u (binds name) id r) (hid : id.index < t.size) {f : Binding}
    (hr : r = some f) : P f.declaration ∨ Finds t (binds name) id (some f) := by
  induction hf with
  | @here id s' a hs' ha =>
    obtain rfl : a = f := Option.some.inj hr
    obtain ⟨s, hs⟩ := exists_scope hid
    obtain ⟨s₁, hs₁, _, _, new, hb, hn⟩ := h.scope _ s hs
    obtain rfl : s₁ = s' := by rw [hs₁] at hs'; exact Option.some.inj hs'
    obtain ⟨d, hd, rfl⟩ := Option.map_eq_some_iff.1 ha
    rw [Scope.get?, hb, List.lookup_append] at hd
    cases hl : new.lookup name with
    | some e =>
      rw [hl] at hd
      obtain rfl : e = d := Option.some.inj hd
      exact .inl (hn _ (mem_of_lookup hl))
    | none =>
      rw [hl, Option.none_or] at hd
      exact .inr (.here hs (by simp [binds, Scope.get?, hd]))
  | top _ _ _ => cases hr
  | @up id s' p r hs' hn' hp' _ ih =>
    obtain ⟨s, hs⟩ := exists_scope hid
    obtain ⟨s₁, hs₁, hp, _, new, hb, hn⟩ := h.scope _ s hs
    obtain rfl : s₁ = s' := by rw [hs₁] at hs'; exact Option.some.inj hs'
    have hparent : s.parent = some p := hp ▸ hp'
    have hlt : p.index < id.index := ht.2 _ s hs p hparent
    have hnone : binds name id s = none := by
      simp only [binds, Scope.get?, Option.map_eq_none_iff, hb, List.lookup_append,
        Option.or_eq_none_iff] at hn' ⊢
      exact hn'.2
    rcases ih (by omega) hr with hnew | hold
    · exact .inl hnew
    · exact .inr (.up hs hnone hparent hold)

theorem extends_push (parent : ScopeId) (kind : ScopeKind) :
    t.Extends P (t.push parent kind).1 where
  scope i s hs := by
    have hi : i < t.scopes.size := lt_size_of_getElem? hs
    refine ⟨s, ?_, rfl, rfl, [], rfl, by simp⟩
    simp only [push, Array.getElem?_push]
    rw [if_neg (by omega)]
    exact hs
  opened i s hs hi b hb := by
    simp only [push, Array.getElem?_push] at hs
    split at hs
    · cases hs
      simp at hb
    · exact absurd (lt_size_of_getElem? hs) (Nat.not_lt.2 hi)

theorem Rooted.push (ht : t.Rooted) {parent : ScopeId} (hp : parent.index < t.size)
    (kind : ScopeKind) : (t.push parent kind).1.Rooted := by
  refine ⟨by simp [ScopeTable.push, size], fun i s hs p hsp => ?_⟩
  simp only [ScopeTable.push, Array.getElem?_push] at hs
  split at hs
  · next hi =>
    cases hs
    cases hsp
    exact hi ▸ hp
  · exact ht.2 i s hs p hsp

theorem push_getElem? (parent : ScopeId) (kind : ScopeKind) :
    (t.push parent kind).1.scopes[t.size]? = some { parent := some parent, kind } := by
  simp [push, size]

theorem mem_scopes_push {parent : ScopeId} {kind : ScopeKind} {i : Nat} {s : Scope}
    (h : (t.push parent kind).1.scopes[i]? = some s) :
    t.scopes[i]? = some s ∨ i = t.size ∧ s = { parent := some parent, kind } := by
  simp only [push, Array.getElem?_push] at h
  split at h
  · next hi => exact .inr ⟨hi, (Option.some.inj h).symm⟩
  · exact .inl h

/-- The second table is the first with one binding more in one scope. -/
def Binds (t : ScopeTable) (id : ScopeId) (name : String) (d : DeclId) (u : ScopeTable) : Prop :=
  ∃ s : Scope, t.scopes[id.index]? = some s ∧ u.size = t.size ∧ ∀ i : Nat, u.scopes[i]? =
    if i = id.index then some { s with bindings := (name, d) :: s.bindings } else t.scopes[i]?

theorem declare_eq_ok {id : ScopeId} (hid : id.index < t.size) (name : String) (d : DeclId) :
    ∃ u, t.declare id name d = .ok u ∧ t.Binds id name d u := by
  obtain ⟨s, hs⟩ := exists_scope hid
  have hlt : id.index < t.scopes.size := hid
  refine ⟨⟨t.scopes.setIfInBounds id.index { s with bindings := (name, d) :: s.bindings }⟩, ?_,
    s, hs, by simp [size], fun i => ?_⟩
  · simp [declare, get_eq_ok.2 hs, bind, Except.bind, pure, Except.pure]
  · simp only [Array.getElem?_setIfInBounds, hlt, if_true, eq_comm]

theorem Binds.extends {id : ScopeId} {name : String} {d : DeclId} (h : t.Binds id name d u)
    (hd : P d) : t.Extends P u := by
  obtain ⟨s, hs, hsize, hu⟩ := h
  refine ⟨fun i s' hs' => ?_, fun i s' hs' hi => ?_⟩
  · by_cases hi : i = id.index
    · subst hi
      obtain rfl : s = s' := by rw [hs] at hs'; exact Option.some.inj hs'
      exact ⟨{ s with bindings := (name, d) :: s.bindings }, by rw [hu, if_pos rfl], rfl, rfl,
        [(name, d)], rfl, by simpa using hd⟩
    · exact ⟨s', by rw [hu, if_neg hi]; exact hs', rfl, rfl, [], rfl, by simp⟩
  · have hlt := lt_size_of_getElem? hs'
    omega

theorem Binds.rooted {id : ScopeId} {name : String} {d : DeclId} (h : t.Binds id name d u)
    (ht : t.Rooted) : u.Rooted := by
  obtain ⟨s, hs, hsize, hu⟩ := h
  refine ⟨hsize ▸ ht.1, fun i s' hs' p hp => ?_⟩
  rw [hu] at hs'
  split at hs'
  · next hi =>
    subst hi
    cases hs'
    exact ht.2 _ s hs p hp
  · exact ht.2 i s' hs' p hp

/-- A scope of the second table has the kind it had, and binds what it bound or the new name. -/
theorem Binds.scope {id : ScopeId} {name : String} {d : DeclId} (h : t.Binds id name d u) {i : Nat}
    {s' : Scope} (hs' : u.scopes[i]? = some s') :
    ∃ s, t.scopes[i]? = some s ∧ s'.kind = s.kind ∧ ∀ b ∈ s'.bindings, b ∈ s.bindings ∨ b.2 = d := by
  obtain ⟨s, hs, _, hu⟩ := h
  rw [hu] at hs'
  split at hs'
  · next hi =>
    subst hi
    cases hs'
    refine ⟨s, hs, rfl, fun b hb => ?_⟩
    rcases List.mem_cons.1 hb with rfl | hb
    · exact .inr rfl
    · exact .inl hb
  · exact ⟨s', hs', rfl, fun b hb => .inl hb⟩

end ScopeTable

namespace DeclarationKind

/-- A kind without what is filled in after the declaration is made. -/
def blank : DeclarationKind → DeclarationKind
  | .function info => .function { result := info.result }
  | .struct _ => .struct []
  | .cls _ => .cls {}
  | .template info => .template { result := info.result }
  | kind => kind

theorem isType_blank (k : DeclarationKind) : k.blank.isType = k.isType := by cases k <;> rfl

theorem result?_blank (k : DeclarationKind) : k.blank.result? = k.result? := by cases k <;> rfl

theorem eq_variable_of_blank {k : DeclarationKind} (h : k.blank = .variable) : k = .variable := by
  cases k <;> first | rfl | cases h

theorem eq_typeParameter_of_blank {k : DeclarationKind} (h : k.blank = .typeParameter) :
    k = .typeParameter := by
  cases k <;> first | rfl | cases h

theorem exists_struct_of_blank {k : DeclarationKind} (h : k.blank = .struct []) :
    ∃ fields, k = .struct fields := by
  cases k with
  | struct fields => exact ⟨fields, rfl⟩
  | _ => cases h

theorem exists_cls_of_blank {k : DeclarationKind} (h : k.blank = .cls {}) : ∃ info, k = .cls info := by
  cases k with
  | cls info => exact ⟨info, rfl⟩
  | _ => cases h

def mentions : DeclarationKind → List DeclId
  | .function info => info.parameters
  | .struct fields => fields
  | .cls info => info.ownMembers ++ info.members ++ info.superclasses
  | .template info => info.typeParameters ++ info.parameters
  | _ => []

end DeclarationKind

namespace Declarations

variable {t u v : Declarations}

theorem get_eq_ok {id : DeclId} {x : Declaration} :
    t.get id = .ok x ↔ t.items[id.index]? = some x := by
  unfold get
  cases t.items[id.index]? <;> simp

theorem exists_item {i : Nat} (h : i < t.size) : ∃ x, t.items[i]? = some x :=
  ⟨t.items[i], Array.getElem?_eq_getElem h⟩

theorem lt_size_of_getElem? {i : Nat} {x : Declaration} (h : t.items[i]? = some x) : i < t.size :=
  (Array.getElem?_eq_some_iff.1 h).1

/-- The declarations that a node introduced, in the order they were made. -/
def idsAt (t : Declarations) (n : NodeId) : List DeclId :=
  ((t.items.toList.map Declaration.node).zipIdx.filter (·.1 = some n)).map (⟨·.2⟩)

theorem mem_idsAt {n : NodeId} {id : DeclId} :
    id ∈ t.idsAt n ↔ ∃ x, t.items[id.index]? = some x ∧ x.node = some n := by
  simp only [idsAt, List.mem_map, List.mem_filter, Prod.exists, List.mk_mem_zipIdx_iff_getElem?,
    List.getElem?_map, Array.getElem?_toList, Option.map_eq_some_iff, decide_eq_true_eq]
  constructor
  · rintro ⟨_, i, ⟨⟨x, hx, rfl⟩, hn⟩, rfl⟩
    exact ⟨x, hx, hn⟩
  · rintro ⟨x, hx, hn⟩
    exact ⟨_, id.index, ⟨⟨x, hx, rfl⟩, hn⟩, rfl⟩

theorem forNode?_eq (n : NodeId) : t.forNode? n = (t.idsAt n).getLast? := by
  simp only [forNode?, idsAt, List.zipIdx_map, List.filter_map, List.getLast?_map]
  rw [List.getLast?_eq_head?_reverse, ← List.filter_reverse, List.head?_filter, Option.map_map]
  rfl

theorem idsAt_add (x : Declaration) (n : NodeId) :
    (t.add x).1.idsAt n = t.idsAt n ++ if x.node = some n then [⟨t.size⟩] else [] := by
  simp only [add, idsAt, size, Array.toList_push, List.map_append, List.zipIdx_append,
    List.filter_append, List.map_cons, List.map_nil, List.zipIdx_singleton, List.length_map,
    Array.length_toList, Nat.zero_add]
  by_cases h : x.node = some n <;> simp [h]

theorem add_getElem? (x : Declaration) (i : Nat) :
    (t.add x).1.items[i]? = if i = t.size then some x else t.items[i]? :=
  Array.getElem?_push

theorem size_add (x : Declaration) : (t.add x).1.size = t.size + 1 := by simp [add, size]

/-- The second table is the first with one declaration changed. -/
def Changes (t : Declarations) (id : DeclId) (f : Declaration → Declaration) (u : Declarations) :
    Prop :=
  ∃ x : Declaration, t.items[id.index]? = some x ∧ u.size = t.size ∧
    ∀ i : Nat, u.items[i]? = if i = id.index then some (f x) else t.items[i]?

theorem modify_eq_ok {id : DeclId} (hid : id.index < t.size) (f : Declaration → Declaration) :
    ∃ u, t.modify id f = .ok u ∧ t.Changes id f u := by
  obtain ⟨x, hx⟩ := exists_item hid
  have hlt : id.index < t.items.size := hid
  refine ⟨⟨t.items.setIfInBounds id.index (f x)⟩, ?_, x, hx, by simp [size], fun i => ?_⟩
  · simp [modify, get_eq_ok.2 hx, bind, Except.bind, pure, Except.pure]
  · simp only [Array.getElem?_setIfInBounds, hlt, if_true, eq_comm]

theorem Changes.idsAt {id : DeclId} {f : Declaration → Declaration} (h : t.Changes id f u)
    (hf : ∀ x, (f x).node = x.node) (n : NodeId) : u.idsAt n = t.idsAt n := by
  obtain ⟨x, hx, _, hu⟩ := h
  have hnodes : u.items.toList.map Declaration.node = t.items.toList.map Declaration.node := by
    apply List.ext_getElem?
    intro i
    simp only [List.getElem?_map, Array.getElem?_toList, hu]
    split
    · next hi => simp [hi, hx, hf]
    · rfl
  rw [Declarations.idsAt, hnodes, Declarations.idsAt]

/-- The second table has the declarations of the first, with names, nodes and kinds as they were. -/
def Extends (t u : Declarations) : Prop :=
  ∀ (i : Nat) (x : Declaration), t.items[i]? = some x → ∃ x' : Declaration,
    u.items[i]? = some x' ∧ x'.name = x.name ∧ x'.node = x.node ∧ x'.kind.blank = x.kind.blank

theorem Extends.refl (t : Declarations) : t.Extends t := fun _ x hx => ⟨x, hx, rfl, rfl, rfl⟩

theorem Extends.trans (h : t.Extends u) (h' : u.Extends v) : t.Extends v := by
  intro i x hx
  obtain ⟨x₁, hx₁, hn₁, hd₁, hk₁⟩ := h i x hx
  obtain ⟨x₂, hx₂, hn₂, hd₂, hk₂⟩ := h' i x₁ hx₁
  exact ⟨x₂, hx₂, hn₂.trans hn₁, hd₂.trans hd₁, hk₂.trans hk₁⟩

theorem Extends.size_le (h : t.Extends u) : t.size ≤ u.size := by
  by_contra hlt
  obtain ⟨x, hx⟩ := exists_item (Nat.not_le.1 hlt)
  obtain ⟨x', hx', _⟩ := h _ x hx
  exact absurd (lt_size_of_getElem? hx') (by simp)

theorem extends_add (x : Declaration) : t.Extends (t.add x).1 := by
  intro i y hy
  have hi : i < t.size := lt_size_of_getElem? hy
  exact ⟨y, by rw [add_getElem?, if_neg (by omega)]; exact hy, rfl, rfl, rfl⟩

theorem Changes.extends {id : DeclId} {f : Declaration → Declaration} (h : t.Changes id f u)
    (hname : ∀ x, (f x).name = x.name) (hnode : ∀ x, (f x).node = x.node)
    (hkind : ∀ x, t.items[id.index]? = some x → (f x).kind.blank = x.kind.blank) : t.Extends u := by
  obtain ⟨x, hx, _, hu⟩ := h
  intro i y hy
  by_cases hi : i = id.index
  · subst hi
    obtain rfl : x = y := by rw [hx] at hy; exact Option.some.inj hy
    exact ⟨f x, by rw [hu, if_pos rfl], hname x, hnode x, hkind x hx⟩
  · exact ⟨y, by rw [hu, if_neg hi]; exact hy, rfl, rfl, rfl⟩

end Declarations

theorem Signatures.eq_of_register {t : Signatures} {s u : Signature} {d id : DeclId}
    (h : (t.register s d).get? u = some id) : (u = s ∧ id = d) ∨ t.get? u = some id := by
  rw [get?_register] at h
  split at h
  · next hs => exact .inl ⟨hs.symm, (Option.some.inj h).symm⟩
  · exact .inr h

end ScriptAnalysis
