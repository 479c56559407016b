import ScriptAnalysis.Proofs.Tree.Nesting
import ScriptAnalysis.Proofs.Typing.Walk.Head
import ScriptAnalysis.Proofs.Typing.Walk.Moment

/-!
The scopes that a walk opens. They are opened in the order of the text, one for each statement that
opens a scope, below the scope of the nearest opener around it (`Draft.Unfolds`); nothing else opens
a scope (`Walk.Does.unfolds`). The sites that a walk has yet to come to have no scope (`Draft.Ahead`).
-/
namespace ScriptAnalysis

/-- A scope of the kind belongs to the opener: it names a declaration that the opener introduced. -/
def Opener.Owns (o : Opener) (d : Draft) (kind : ScopeKind) : Prop :=
  match o.kind with
  | .block => kind = .block
  | .function | .template => ∃ id ∈ d.tables.declarations.idsAt o.node, kind = .function id
  | .cls => ∃ id ∈ d.tables.declarations.idsAt o.node, kind = .cls id

namespace Draft

variable {d d₁ d₂ : Draft} {top : NodeId} {around : List Opener} {o : Opener} {i : Nat}
  {l m : List (List Opener × Opener)}

structure Lays (d : Draft) (top : NodeId) (i : Nat) (x : List Opener × Opener) : Prop where
  node : d.Opens x.2.node ⟨i⟩
  body : d.Opens x.2.body ⟨i⟩
  scope : ∃ s parent, d.tables.scopes.scopes[i]? = some s ∧ s.parent = some parent ∧
    d.Opens (Opener.home top x.1) parent ∧ x.2.Owns d s.kind

structure Unfolds (top : NodeId) (d d' : Draft) (l : List (List Opener × Opener)) : Prop where
  slots : d.attributes.Grows d'.attributes
  scopes : d.tables.scopes.Extends (fun _ => True) d'.tables.scopes
  nodes : ∀ n, ∀ id ∈ d.tables.declarations.idsAt n, id ∈ d'.tables.declarations.idsAt n
  size : d'.tables.scopes.size = d.tables.scopes.size + l.length
  lays : ∀ i x, l[i]? = some x → d'.Lays top (d.tables.scopes.size + i) x

namespace Unfolds

theorem opens {n : NodeId} {scope : ScopeId} (h : d.Unfolds top d₁ l) (hn : d.Opens n scope) :
    d₁.Opens n scope :=
  ⟨h.slots _ _ hn.1, Nat.lt_of_lt_of_le hn.2 h.scopes.size_le⟩

theorem owns {kind : ScopeKind} (h : d.Unfolds top d₁ l) (ho : o.Owns d kind) : o.Owns d₁ kind := by
  revert ho
  unfold Opener.Owns
  cases o.kind with
  | block => exact id
  | function | template | cls =>
    rintro ⟨id, hid, hkind⟩
    exact ⟨id, h.nodes _ id hid, hkind⟩

theorem keeps {x : List Opener × Opener} (h : d.Unfolds top d₁ l) (hx : d.Lays top i x) :
    d₁.Lays top i x where
  node := h.opens hx.node
  body := h.opens hx.body
  scope := by
    obtain ⟨s, parent, hs, hparent, hhome, howns⟩ := hx.scope
    obtain ⟨s', hs', hparent', hkind, -⟩ := h.scopes.scope i s hs
    exact ⟨s', parent, hs', hparent'.trans hparent, h.opens hhome, hkind ▸ h.owns howns⟩

/-- A draft that comes after another without a scope opened since. -/
theorem of_flat (slots : d.attributes.Grows d₁.attributes)
    (scopes : d.tables.scopes.Extends (fun _ => True) d₁.tables.scopes)
    (nodes : ∀ n, ∀ id ∈ d.tables.declarations.idsAt n, id ∈ d₁.tables.declarations.idsAt n)
    (size : d₁.tables.scopes.size = d.tables.scopes.size) : d.Unfolds top d₁ [] :=
  ⟨slots, scopes, nodes, size, by simp⟩

theorem refl (d : Draft) : d.Unfolds top d [] := of_flat (.refl _) (.refl _ _) (fun _ _ h => h) rfl

theorem append (h : d.Unfolds top d₁ l) (h' : d₁.Unfolds top d₂ m) : d.Unfolds top d₂ (l ++ m) where
  slots := h.slots.trans h'.slots
  scopes := h.scopes.trans h'.scopes fun _ _ => trivial
  nodes n id hid := h'.nodes n id (h.nodes n id hid)
  size := by rw [h'.size, h.size, List.length_append, Nat.add_assoc]
  lays i x hx := by
    by_cases hi : i < l.length
    · rw [List.getElem?_append_left hi] at hx
      exact h'.keeps (h.lays i x hx)
    · rw [List.getElem?_append_right (Nat.not_lt.1 hi)] at hx
      have hlays := h'.lays _ x hx
      rw [h.size, Nat.add_assoc, Nat.add_sub_cancel' (Nat.not_lt.1 hi)] at hlays
      exact hlays

theorem flat (h : d.Unfolds top d₁ []) (h' : d₁.Unfolds top d₂ m) : d.Unfolds top d₂ m := h.append h'

theorem rest (h : d.Unfolds top d₁ l) (h' : d₁.Unfolds top d₂ []) : d.Unfolds top d₂ l := by
  have happend := h.append h'
  rwa [List.append_nil] at happend

theorem put (a : Attribute) (v : Value) : d.Unfolds top (d.put a v) [] :=
  of_flat (d.attributes.grows_set a v) (.refl _ _) (fun _ _ h => h) rfl

end Unfolds

/-- A scope is opened, and then set at the node of its opener. -/
theorem unfolds_open {scope : ScopeId} {kind : ScopeKind} (hscope : d.Opens (Opener.home top around) scope)
    (h : (d.opening scope kind).Unfolds top d₁ []) (howns : o.Owns d₁ kind)
    (hfresh : d₁.attributes.slot? (.scopeOf o.node) = none) :
    d.Unfolds top (d₁.put (.scopeOf o.node) (.scope ⟨d.tables.scopes.size⟩))
      [(around, { o with body := o.node })] := by
  have hpushed : (d.opening scope kind).tables.scopes.size = d.tables.scopes.size + 1 := by
    simp [opening, ScopeTable.push, ScopeTable.size]
  have hput := h.flat (.put (.scopeOf o.node) (.scope ⟨d.tables.scopes.size⟩))
  have hsize : d₁.tables.scopes.size = d.tables.scopes.size + 1 := h.size.trans hpushed
  have hopens : (d₁.put (.scopeOf o.node) (.scope ⟨d.tables.scopes.size⟩)).Opens o.node
      ⟨d.tables.scopes.size⟩ :=
    opens_put hfresh (by show d.tables.scopes.size < _; omega)
  have hhome : (d.opening scope kind).Opens (Opener.home top around) scope :=
    ⟨hscope.1, by have := hscope.2; omega⟩
  have hpush : d.tables.scopes.Extends (fun _ => True) (d.opening scope kind).tables.scopes :=
    ScopeTable.extends_push scope kind
  refine ⟨hput.slots, hpush.trans hput.scopes fun _ _ => trivial, hput.nodes,
    hput.size.trans hpushed, ?_⟩
  intro i x hx
  obtain ⟨rfl, rfl⟩ : i = 0 ∧ x = (around, { o with body := o.node }) := by
    cases i with
    | zero => exact ⟨rfl, (by simpa using hx.symm)⟩
    | succ i => simp at hx
  obtain ⟨s, hs, hparent, hkind, -⟩ := hput.scopes.scope _ _
    (ScopeTable.push_getElem? (t := d.tables.scopes) scope kind)
  exact ⟨hopens, hopens, s, scope, hs, hparent, hput.opens hhome, hkind ▸ howns⟩

/-- The body of an opener gets the scope of the opener. -/
theorem Unfolds.enter {n : NodeId} (h : d.Unfolds top d₁ [(around, { o with body := o.node })])
    (hbody : o.body = n) (hfresh : d₁.attributes.slot? (.scopeOf n) = none) :
    d.Unfolds top (d₁.put (.scopeOf n) (.scope ⟨d.tables.scopes.size⟩)) [(around, o)] := by
  have hput := h.rest (.put (.scopeOf n) (.scope ⟨d.tables.scopes.size⟩))
  refine { hput with lays := ?_ }
  intro i x hx
  obtain ⟨rfl, rfl⟩ : i = 0 ∧ x = (around, o) := by
    cases i with
    | zero => exact ⟨rfl, (by simpa using hx.symm)⟩
    | succ i => simp at hx
  have hlays := hput.lays 0 _ rfl
  have hsize : d₁.tables.scopes.size = d.tables.scopes.size + 1 := h.size
  refine ⟨hlays.node, ?_, hlays.scope⟩
  simp only [hbody]
  exact opens_put hfresh (by show d.tables.scopes.size < _; omega)

end Draft

theorem Change.Makes.unfolds {c : Change} {d d' : Draft} {top : NodeId} (h : c.Makes d d') (hc : c.Flat) :
    d.Unfolds top d' [] := by
  cases h with
  | write => exact .of_flat (d.attributes.grows_write _ _) (.refl _ _) (fun _ _ h => h) rfl
  | owe | tell | listing => exact .of_flat (.refl _) (.refl _ _) (fun _ _ h => h) rfl
  | opening => exact hc.elim
  | binding h =>
    refine .of_flat (.refl _) (ScopeTable.extends_of_declare h) (fun _ _ h => h) ?_
    obtain ⟨s, hs, rfl⟩ := exists_of_do h
    simp [Draft.withScopes, ScopeTable.size]
  | declaring =>
    refine .of_flat (.refl _) (.refl _ _) (fun n id hid => ?_) rfl
    show id ∈ (d.tables.declarations.add _).1.idsAt n
    rw [Declarations.idsAt_add]
    exact List.mem_append_left _ hid
  | @modifying _ _ f t h =>
    refine .of_flat (.refl _) (.refl _ _) (fun n id hid => ?_) rfl
    obtain ⟨x, hx, -⟩ := exists_of_do h
    obtain ⟨t', ht', hchanges⟩ :=
      Declarations.modify_eq_ok (Declarations.lt_size_of_getElem? (Declarations.get_eq_ok.1 hx)) f
    rw [h] at ht'
    cases ht'
    show id ∈ t.idsAt n
    rwa [hchanges.idsAt hc]

theorem Walk.Does.unfolds {α : Type} {m : Walk α} {a : α} {d d' : Draft} {top : NodeId}
    (hm : Does Change.Flat m) (h : m d = .ok a d') : d.Unfolds top d' [] :=
  hm.keeps .refl .flat (fun hc hmakes => hmakes.unfolds hc) h

/-- No scope is known yet for the sites. -/
def Draft.Fresh (d : Draft) (l : List Site) : Prop :=
  ∀ s ∈ l, d.attributes.slot? (.scopeOf s.id) = none

open Site (Distinct)

variable {d d' : Draft} {l m whole : List Site}

theorem distinct_append : Distinct (l ++ m) ↔
    Distinct l ∧ Distinct m ∧ ∀ s ∈ l, ∀ t ∈ m, s.id ≠ t.id := List.pairwise_append

/-- What is fresh stays so while other sites are walked. -/
theorem Draft.Fresh.later (h : d.Fresh m) (hlater : d.Later l d') (hne : ∀ s ∈ l, ∀ t ∈ m, s.id ≠ t.id) :
    d'.Fresh m := by
  intro t ht
  rw [hlater.bindings t.id .scope rfl fun s hs => hne s hs t ht]
  exact h t ht

structure Draft.Ahead (d : Draft) (whole l : List Site) : Prop where
  within : l ⊆ whole
  distinct : Distinct l
  fresh : d.Fresh l

namespace Draft.Ahead

theorem left (h : d.Ahead whole (l ++ m)) : d.Ahead whole l :=
  ⟨fun _ hs => h.within (List.mem_append_left _ hs), (distinct_append.1 h.distinct).1,
    fun s hs => h.fresh s (List.mem_append_left _ hs)⟩

theorem right (h : d.Ahead whole (l ++ m)) : d.Ahead whole m :=
  ⟨fun _ hs => h.within (List.mem_append_right _ hs), (distinct_append.1 h.distinct).2.1,
    fun s hs => h.fresh s (List.mem_append_right _ hs)⟩

/-- The first sites have been walked. -/
theorem past (h : d.Ahead whole (l ++ m)) (hlater : d.Later l d') : d'.Ahead whole m :=
  ⟨h.right.within, h.right.distinct, h.right.fresh.later hlater (distinct_append.1 h.distinct).2.2⟩

/-- The last sites have been walked. -/
theorem before (h : d.Ahead whole (l ++ m)) (hlater : d.Later m d') : d'.Ahead whole l :=
  ⟨h.left.within, h.left.distinct, h.left.fresh.later hlater fun s hs t ht =>
    ((distinct_append.1 h.distinct).2.2 t ht s hs).symm⟩

end Draft.Ahead

end ScriptAnalysis
