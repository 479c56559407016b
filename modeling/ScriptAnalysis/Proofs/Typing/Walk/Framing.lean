import ScriptAnalysis.Proofs.Tree.SelfLike
import ScriptAnalysis.Proofs.Typing.Walk.Relaid

/-!
What a walk leaves alone. A walk over statements adds declarations, but those that were there stay as they
were, and the new ones are at its own nodes (`Walk.spares_of_sim`). It is the coupling of a walk with
itself.
-/
namespace ScriptAnalysis

/-- The nodes of a tree that are in a set, each related to itself. -/
def Placing.among (S : NodeId → Prop) : Placing where
  place n n' := n = n' ∧ S n.id
  opener n n' := n = n' ∧ S n.id
  place_id h := congrArg Node.id h.1
  opener_id h := congrArg Node.id h.1

theorem Site.allowed_among {S : NodeId → Prop} {s : Site} (hS : S s.id) : s.Allowed (.among S) :=
  s.allowed_of ⟨rfl, hS⟩ ⟨rfl, hS⟩ (fun _ => ⟨rfl, hS⟩) (fun _ => trivial) fun _ => trivial

def Declarations.NamedAt (t : Declarations) (id : DeclId) (name : String) : Prop :=
  ∃ x, t.items[id.index]? = some x ∧ x.name = name

/-- The second draft comes after the first. Declarations at other nodes than those around are unchanged, and
new declarations are at nodes in `S`. -/
structure Draft.Spares (around : List NodeId) (S : NodeId → Prop) (d d' : Draft) : Prop where
  items : ∀ (i : Nat) (x : Declaration), d.tables.declarations.items[i]? = some x →
    (∀ n ∈ around, x.node ≠ some n) → d'.tables.declarations.items[i]? = some x
  declarations : d.tables.declarations.Extends d'.tables.declarations
  nodes : ∀ (i : Nat) (x : Declaration), d'.tables.declarations.items[i]? = some x → d.size ≤ i →
    ∃ n, x.node = some n ∧ S n
  diagnostics : d.diagnostics ⊆ d'.diagnostics

def Draft.Named (d : Draft) : Prop :=
  ∀ (i : Nat) (s : Scope), d.tables.scopes.scopes[i]? = some s → ∀ b ∈ s.bindings,
    d.tables.declarations.NamedAt b.2 b.1

namespace Draft.Spares

variable {S : NodeId → Prop} {around : List NodeId} {base d d' : Draft}

theorem of_subset (ht : d'.tables.declarations = d.tables.declarations)
    (hx : d.diagnostics ⊆ d'.diagnostics) (around : List NodeId) : d.Spares around S d' where
  items _ _ hx _ := ht ▸ hx
  declarations := ht ▸ .refl _
  nodes _ _ hx hi := absurd (Declarations.lt_size_of_getElem? (ht ▸ hx)) (Nat.not_lt.2 hi)
  diagnostics := hx

theorem of_eq (ht : d'.tables = d.tables) (hx : d'.diagnostics = d.diagnostics)
    (around : List NodeId) : d.Spares around S d' :=
  .of_subset (congrArg Tables.declarations ht) (hx ▸ List.Subset.refl _) around

theorem trans (h : base.Spares around S d) (h' : d.Spares around S d') : base.Spares around S d' where
  items i x hx hout := h'.items i x (h.items i x hx hout) hout
  declarations := h.declarations.trans h'.declarations
  nodes i x hx hi := by
    by_cases hlt : i < d.size
    · obtain ⟨y, hy⟩ := Declarations.exists_item hlt
      obtain ⟨z, hz, _, hnode, _⟩ := h'.declarations i y hy
      obtain rfl : z = x := Option.some.inj (hz.symm.trans hx)
      rw [hnode]
      exact h.nodes i y hy hi
    · exact h'.nodes i x hx (Nat.not_lt.1 hlt)
  diagnostics := fun _ hx => h'.diagnostics (h.diagnostics hx)

theorem and_then (h : base.Spares around S d) (ht : d'.tables.declarations = d.tables.declarations)
    (hx : d.diagnostics ⊆ d'.diagnostics) : base.Spares around S d' :=
  h.trans (.of_subset ht hx around)

theorem size_le (h : base.Spares around S d) : base.size ≤ d.size := by
  by_contra hlt
  obtain ⟨x, hx⟩ := Declarations.exists_item (Nat.not_le.1 hlt)
  obtain ⟨_, hx', _⟩ := h.declarations _ x hx
  exact absurd (Declarations.lt_size_of_getElem? hx') (Nat.lt_irrefl _)

theorem declaring (h : base.Spares around S d) {x : Declaration} {n : NodeId} (hx : x.node = some n)
    (hn : S n) : base.Spares around S (d.declaring x) := by
  have hget : ∀ i : Nat, (d.declaring x).tables.declarations.items[i]? =
      if i = d.size then some x else d.tables.declarations.items[i]? := Declarations.add_getElem? x
  refine h.trans ⟨fun i y hy _ => ?_, Declarations.extends_add x, fun i y hy hi => ?_, List.Subset.refl _⟩
  · have hlt : i < d.size := Declarations.lt_size_of_getElem? hy
    rw [hget, if_neg hlt.ne]
    exact hy
  · rw [hget] at hy
    split at hy
    · cases hy
      exact ⟨n, hx, hn⟩
    · exact absurd (Declarations.lt_size_of_getElem? hy) (Nat.not_lt.2 hi)

/-- A change to a declaration that was not there at first. -/
theorem changing {id : DeclId} {f : Declaration → Declaration} {t : Declarations}
    (h : base.Spares [] S d) (ht : d.tables.declarations.Changes id f t) (hid : base.size ≤ id.index)
    (hf : ∀ x, (f x).node = x.node) : base.Spares [] S (d.withDeclarations t) := by
  obtain ⟨x, hx, _, hu⟩ := ht
  have hitems : ∀ (i : Nat) (y : Declaration), base.tables.declarations.items[i]? = some y →
      t.items[i]? = some y := by
    intro i y hy
    have hlt : i < base.size := Declarations.lt_size_of_getElem? hy
    rw [hu, if_neg (by omega)]
    exact h.items i y hy (by simp)
  refine ⟨fun i y hy _ => hitems i y hy, fun i y hy => ⟨y, hitems i y hy, rfl, rfl, rfl⟩,
    fun i y hy hi => ?_, h.diagnostics⟩
  simp only [withDeclarations, hu] at hy
  split at hy
  · next hi' =>
    cases hy
    obtain ⟨n, hn, hS⟩ := h.nodes _ x hx (hi' ▸ hi)
    exact ⟨n, (hf x).trans hn, hS⟩
  · exact h.nodes i y hy hi

end Draft.Spares

theorem ScopeTable.mem_of_search {t : ScopeTable} {name : String} {steps : Nat} {id : ScopeId} {b : Binding}
    (h : t.search (binds name) steps id = .ok (some b)) :
    ∃ s, t.scopes[b.scope.index]? = some s ∧ (name, b.declaration) ∈ s.bindings := by
  induction steps generalizing id with
  | zero => cases h
  | succ steps ih =>
    rw [search] at h
    cases hs : t.get id with
    | error f =>
      rw [hs] at h
      cases h
    | ok s =>
      rw [hs] at h
      simp only [bind, Except.bind] at h
      split at h
      · next hvisit =>
        cases h
        obtain ⟨i, hi, rfl⟩ := Option.map_eq_some_iff.1 hvisit
        exact ⟨s, get_eq_ok.1 hs, mem_of_lookup hi⟩
      · cases h
      · exact ih h

theorem ScopeTable.binds_of_declare {t u : ScopeTable} {id : ScopeId} {name : String} {d : DeclId}
    (h : t.declare id name d = .ok u) : t.Binds id name d u := by
  obtain ⟨s, hs, _⟩ := exists_of_do h
  obtain ⟨u', hu', hbinds⟩ := declare_eq_ok (lt_size_of_getElem? (get_eq_ok.1 hs)) name d
  rw [h] at hu'
  cases hu'
  exact hbinds

theorem Declarations.changes_of_modify {t u : Declarations} {id : DeclId} {f : Declaration → Declaration}
    (h : t.modify id f = .ok u) : t.Changes id f u := by
  obtain ⟨x, hx, _⟩ := exists_of_do h
  obtain ⟨u', hu', hchanges⟩ := modify_eq_ok (lt_size_of_getElem? (get_eq_ok.1 hx)) f
  rw [h] at hu'
  cases hu'
  exact hchanges

namespace Declarations.NamedAt

variable {t u : Declarations} {id : DeclId} {name : String}

theorem add (h : t.NamedAt id name) (x : Declaration) : (t.add x).1.NamedAt id name := by
  obtain ⟨y, hy, hname⟩ := h
  have hi := lt_size_of_getElem? hy
  exact ⟨y, by rw [add_getElem?, if_neg (by omega)]; exact hy, hname⟩

theorem change {i : DeclId} {f : Declaration → Declaration} (h : t.NamedAt id name)
    (hu : t.Changes i f u) (hf : ∀ x, (f x).name = x.name) : u.NamedAt id name := by
  obtain ⟨y, hy, hname⟩ := h
  obtain ⟨x, hx, _, hu⟩ := hu
  by_cases hi : id.index = i.index
  · obtain rfl : x = y := by rw [← hi, hy] at hx; exact (Option.some.inj hx).symm
    exact ⟨f x, by rw [hu, if_pos hi], (hf x).trans hname⟩
  · exact ⟨y, by rw [hu, if_neg hi]; exact hy, hname⟩

end Declarations.NamedAt

namespace Draft.Named

variable {d : Draft}

theorem opening (h : d.Named) (parent : ScopeId) (kind : ScopeKind) : (d.opening parent kind).Named := by
  intro i s hs b hb
  rcases ScopeTable.mem_scopes_push hs with hs | ⟨_, rfl⟩
  · exact h i s hs b hb
  · simp at hb

theorem binding {s : ScopeId} {name : String} {id : DeclId} {t : ScopeTable} (h : d.Named)
    (ht : d.tables.scopes.Binds s name id t) (hid : d.tables.declarations.NamedAt id name) :
    (d.withScopes t).Named := by
  obtain ⟨x, hx, _, hu⟩ := ht
  intro i y hy b hb
  simp only [withScopes, hu] at hy
  split at hy
  · cases hy
    rcases List.mem_cons.1 hb with rfl | hb
    · exact hid
    · exact h _ x hx b hb
  · exact h i y hy b hb

/-- What is found under a name is declared under it. -/
theorem lookup (h : d.Named) {s : ScopeId} {name : String} {b : Binding}
    (hb : d.tables.scopes.lookup s name = .ok (some b)) :
    d.tables.declarations.NamedAt b.declaration name := by
  obtain ⟨x, hx, hmem⟩ := ScopeTable.mem_of_search hb
  exact h _ x hx _ hmem

end Draft.Named

namespace Coupling

variable {S : NodeId → Prop} {base d : Draft} {F : List (String × DeclId)}

structure Reached (S : NodeId → Prop) (base : Draft) (F : List (String × DeclId)) (d : Draft) : Prop where
  spares : base.Spares [] S d
  named : d.Named
  made : ∀ x ∈ F, base.size ≤ x.2.index ∧ d.tables.declarations.NamedAt x.2 x.1

def beside (S : NodeId → Prop) (base : Draft) : Coupling := fun F d d' => d = d' ∧ Reached S base F d

/-- A step that leaves the scopes and declarations as they are. -/
theorem Reached.and_then {d' : Draft} (h : Reached S base F d) (hs : d'.tables.scopes = d.tables.scopes)
    (ht : d'.tables.declarations = d.tables.declarations) (hx : d.diagnostics ⊆ d'.diagnostics) :
    Reached S base F d' where
  spares := h.spares.and_then ht hx
  named := by simpa only [Draft.Named, hs, ht] using h.named
  made := by simpa only [ht] using h.made

theorem beside_lawful (S : NodeId → Prop) (base : Draft) : (beside S base).Lawful (.among S) where
  scopes h := by rw [h.1]
  declarations h := by rw [h.1]
  forget _ h := ⟨h.1, h.2.spares, h.2.named, fun y hy => h.2.made y (.tail _ hy)⟩
  write f h := by
    obtain ⟨rfl, h⟩ := h
    exact ⟨rfl, h.and_then rfl rfl (List.Subset.refl _)⟩
  tell cause h hn := by
    obtain ⟨rfl, h⟩ := h
    cases hn.1
    exact ⟨rfl, h.and_then rfl rfl (List.subset_append_left _ _)⟩
  owe {F d d' n n' g g'} h ho := by
    obtain ⟨rfl, h⟩ := h
    obtain ⟨rfl, rfl⟩ : n = n' ∧ g = g' := by
      cases ho with
      | place hn hg => exact ⟨hn.1, hg.eq And.left⟩
      | block hn => exact ⟨hn.1, rfl⟩
    exact ⟨rfl, h.and_then rfl rfl (List.Subset.refl _)⟩
  opening s k h := by
    obtain ⟨rfl, h⟩ := h
    exact ⟨rfl, h.spares.and_then rfl (List.Subset.refl _), h.named.opening s k, h.made⟩
  bind h hi ht := by
    obtain ⟨rfl, h⟩ := h
    exact ⟨rfl, h.spares.and_then rfl (List.Subset.refl _),
      h.named.binding (ScopeTable.binds_of_declare ht) (h.made _ hi).2, h.made⟩
  declaring {F d d' n n'} name k h hn := by
    obtain ⟨rfl, h⟩ := h
    cases hn.1
    refine ⟨rfl, h.spares.declaring rfl hn.2, fun i s hs b hb => (h.named i s hs b hb).add _, fun x hx => ?_⟩
    rcases List.mem_cons.1 hx with rfl | hx
    · exact ⟨h.spares.size_le, .ofNode n name k, (Declarations.add_getElem? _ _).trans (if_pos rfl), rfl⟩
    · exact ⟨(h.made x hx).1, (h.made x hx).2.add _⟩
  listing sig i h := by
    obtain ⟨rfl, h⟩ := h
    exact ⟨rfl, h.and_then rfl rfl (List.Subset.refl _)⟩
  modify name h hi hf ht ht' := by
    obtain ⟨rfl, h⟩ := h
    cases ht.symm.trans ht'
    have hchanges := Declarations.changes_of_modify ht
    exact ⟨rfl, h.spares.changing hchanges (h.made _ hi).1 hf.node,
      fun i s hs b hb => (h.named i s hs b hb).change hchanges hf.name,
      fun x hx => ⟨(h.made x hx).1, (h.made x hx).2.change hchanges hf.name⟩⟩

end Coupling

namespace Walk

variable {S : NodeId → Prop} {d d' : Draft}

/-- What is kept beside itself is spared: a walk changes no declaration that was there. -/
theorem spares_of_sim {α : Type} {m : Walk α} {a : α} (hm : (Coupling.beside S d).Sim [] m m)
    (hd : d.Named) (h : m d = .ok a d') : d.Spares [] S d' ∧ d'.Named := by
  obtain ⟨_, _, _, hreached⟩ := hm d d a d' ⟨rfl, .of_eq rfl rfl [], hd, by simp⟩ h
  exact ⟨hreached.spares, hreached.named⟩

theorem named_builtin {b : Builtin} (hd : d.Named) (h : Builtin.declare b d = .ok () d') : d'.Named := by
  obtain ⟨_, _, hdeclare, h⟩ := bind_eq_ok.1 h
  cases hdeclare
  obtain ⟨_, _, hbind, h⟩ := bind_eq_ok.1 h
  obtain ⟨t, ht, rfl⟩ := bindName_eq_ok hbind
  obtain ⟨_, _, hset, h⟩ := bind_eq_ok.1 h
  cases hset
  let x : Declaration := { name := b.name, kind := b.kind, node := none, span := .null }
  have hadd : (d.declaring x).Named := fun i s hs b hb => (hd i s hs b hb).add x
  have hbound : ((d.declaring x).withScopes t).Named := by
    refine hadd.binding (ScopeTable.binds_of_declare ht) ⟨x, ?_, rfl⟩
    exact (Declarations.add_getElem? x d.size).trans (if_pos rfl)
  cases hdeclared : b.declared <;> simp only [hdeclared] at h <;> cases h <;> exact hbound

/-- The built-in names are bound to declarations of these names. -/
theorem named_declareAll (h : Builtin.declareAll {} = .ok () d') : d'.Named := by
  have hrest : ∀ (bs : List Builtin) {d : Draft}, d.Named → bs.forM Builtin.declare d = .ok () d' →
      d'.Named := by
    intro bs
    induction bs with
    | nil =>
      intro d hd h
      cases h
      exact hd
    | cons b bs ih =>
      intro d hd h
      obtain ⟨_, d₁, hfirst, h⟩ := bind_eq_ok.1 h
      exact ih (named_builtin hd hfirst) h
  refine hrest Builtin.all (fun i s hs b hb => ?_) h
  cases i with
  | zero =>
    cases hs
    cases hb
  | succ i => simp [ScopeTable.initial] at hs
end Walk

end ScriptAnalysis
