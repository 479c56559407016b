import ScriptAnalysis.Proofs.Table.Growth

/-!
Chains of scopes. From a scope one goes outwards through parents; the nearest binding of a name is the one
in the first scope on the way that binds it (`ScopeTable.Nearest`). A search finds it if there is one
(`nearest_of_finds`, `unbound_of_finds`), and the chain stays the same when the table grows.
-/
namespace ScriptAnalysis.ScopeTable

inductive Outward (t : ScopeTable) : ScopeId → ScopeId → Prop
  | refl (id : ScopeId) : Outward t id id
  | up {id p g : ScopeId} {s : Scope} (hs : t.scopes[id.index]? = some s) (hp : s.parent = some p)
      (h : Outward t p g) : Outward t id g

def BindsTo (t : ScopeTable) (g : ScopeId) (name : String) (id : DeclId) : Prop :=
  ∃ s, t.scopes[g.index]? = some s ∧ s.get? name = some id

/-- No scope on the chain from a scope outwards binds a name. -/
def Unbound (t : ScopeTable) (scope : ScopeId) (name : String) : Prop :=
  ∀ g id, t.Outward scope g → ¬t.BindsTo g name id

structure Nearest (t : ScopeTable) (scope : ScopeId) (name : String) (f : Binding) : Prop where
  outward : t.Outward scope f.scope
  binds : t.BindsTo f.scope name f.declaration
  first : ∀ g id, t.Outward scope g → t.BindsTo g name id → t.Outward f.scope g

structure Visible (t : ScopeTable) (scope : ScopeId) (name : String) (f : Binding) : Prop where
  outward : t.Outward scope f.scope
  bound : ∃ s, t.scopes[f.scope.index]? = some s ∧ (name, f.declaration) ∈ s.bindings

variable {t u : ScopeTable} {scope g : ScopeId} {name : String} {f f' : Binding}

theorem Outward.le (ht : t.Rooted) (h : t.Outward scope g) : g.index ≤ scope.index := by
  induction h with
  | refl => exact Nat.le_refl _
  | up hs hp _ ih =>
    have hlt := ht.2 _ _ hs _ hp
    omega

theorem Nearest.not_unbound (h : t.Nearest scope name f) : ¬t.Unbound scope name :=
  fun hnone => hnone _ _ h.outward h.binds

theorem Nearest.unique (ht : t.Rooted) (h : t.Nearest scope name f) (h' : t.Nearest scope name f') :
    f = f' := by
  have hle := (h.first _ _ h'.outward h'.binds).le ht
  have hge := (h'.first _ _ h.outward h.binds).le ht
  obtain ⟨s, hs, hd⟩ := h.binds
  obtain ⟨s', hs', hd'⟩ := h'.binds
  obtain ⟨d, ⟨i⟩⟩ := f
  obtain ⟨d', ⟨i'⟩⟩ := f'
  obtain rfl : i = i' := Nat.le_antisymm hge hle
  obtain rfl : s = s' := Option.some.inj (hs.symm.trans hs')
  obtain rfl : d = d' := Option.some.inj (hd.symm.trans hd')
  rfl

theorem binds_eq_none {s : Scope} : binds name scope s = none ↔ s.get? name = none := by
  simp [binds]

/-- A scope that does not bind the name is not the one that is looked for. -/
theorem not_bindsTo {s : Scope} (hs : t.scopes[scope.index]? = some s) (hn : binds name scope s = none)
    (id : DeclId) : ¬t.BindsTo scope name id := by
  rintro ⟨s', hs', hd⟩
  obtain rfl : s = s' := Option.some.inj (hs.symm.trans hs')
  rw [binds_eq_none.1 hn] at hd
  cases hd

theorem unbound_of_finds (h : Finds t (binds name) scope none) : t.Unbound scope name := by
  generalize hr : (none : Option Binding) = r at h
  induction h with
  | here => cases hr
  | @top id s hs hn hp =>
    intro g d hout
    cases hout with
    | refl => exact not_bindsTo hs hn d
    | up hs' hp' _ =>
      obtain rfl : s = _ := Option.some.inj (hs.symm.trans hs')
      rw [hp] at hp'
      cases hp'
  | @up id s p r hs hn hp _ ih =>
    intro g d hout
    cases hout with
    | refl => exact not_bindsTo hs hn d
    | up hs' hp' hout =>
      obtain rfl : s = _ := Option.some.inj (hs.symm.trans hs')
      rw [hp] at hp'
      cases hp'
      exact ih hr g d hout

theorem nearest_of_finds (h : Finds t (binds name) scope (some f)) : t.Nearest scope name f := by
  generalize hr : some f = r at h
  induction h with
  | @here id s a hs ha =>
    cases hr
    obtain ⟨d, hd, rfl⟩ := Option.map_eq_some_iff.1 ha
    exact ⟨.refl id, ⟨s, hs, hd⟩, fun _ _ hout _ => hout⟩
  | top => cases hr
  | @up id s p r hs hn hp _ ih =>
    have hnearest := ih hr
    refine ⟨.up hs hp hnearest.outward, hnearest.binds, fun g d hout hb => ?_⟩
    cases hout with
    | refl => exact absurd hb (not_bindsTo hs hn d)
    | up hs' hp' hout =>
      obtain rfl : s = _ := Option.some.inj (hs.symm.trans hs')
      rw [hp] at hp'
      cases hp'
      exact hnearest.first g d hout hb

theorem visible_of_finds (h : Finds t (binds name) scope (some f)) : t.Visible scope name f :=
  ⟨(nearest_of_finds h).outward, mem_of_finds h rfl⟩

/-- A lookup that succeeds found what there is to find. -/
theorem finds_of_search {α : Type} {visit : ScopeId → Scope → Option α} {steps : Nat} {r : Option α}
    (h : t.search visit steps scope = .ok r) : Finds t visit scope r := by
  induction steps generalizing scope with
  | zero => cases h
  | succ steps ih =>
    rw [search] at h
    cases hget : t.get scope with
    | error e =>
      rw [hget] at h
      cases h
    | ok s =>
      have hs := get_eq_ok.1 hget
      rw [hget] at h
      cases hv : visit scope s with
      | some a =>
        simp only [hv, bind, Except.bind, pure, Except.pure, Except.ok.injEq] at h
        exact h ▸ .here hs hv
      | none =>
        cases hp : s.parent with
        | none =>
          simp only [hv, hp, bind, Except.bind, pure, Except.pure, Except.ok.injEq] at h
          exact h ▸ .top hs hv hp
        | some p =>
          simp only [hv, hp, bind, Except.bind] at h
          exact .up hs hv hp (ih h)

section Growth

variable {P : DeclId → Prop}

theorem Outward.of_extends (h : t.Extends P u) (hout : t.Outward scope g) : u.Outward scope g := by
  induction hout with
  | refl => exact .refl _
  | up hs hp _ ih =>
    obtain ⟨s', hs', hp', _⟩ := h.scope _ _ hs
    exact .up hs' (hp'.trans hp) ih

theorem Visible.of_extends (h : t.Extends P u) (hf : t.Visible scope name f) : u.Visible scope name f := by
  obtain ⟨s, hs, hmem⟩ := hf.bound
  obtain ⟨s', hs', _, _, new, hnew, _⟩ := h.scope _ s hs
  exact ⟨hf.outward.of_extends h, s', hs', hnew ▸ List.mem_append_right new hmem⟩

/-- A name that is bound in a scope stays bound there, to the same declaration or a later one. -/
theorem BindsTo.of_extends (h : t.Extends P u) {id : DeclId} (hb : t.BindsTo g name id) :
    ∃ id', u.BindsTo g name id' := by
  obtain ⟨s, hs, hd⟩ := hb
  obtain ⟨s', hs', _, _, new, hnew, _⟩ := h.scope _ s hs
  refine ⟨((new.lookup name).or (some id)).getD id, s', hs', ?_⟩
  rw [Scope.get?] at hd ⊢
  rw [hnew, List.lookup_append, hd]
  cases new.lookup name <;> rfl

/-- A name that is not bound in the end has not been bound before. -/
theorem Unbound.of_extends (h : t.Extends P u) (hu : u.Unbound scope name) :
    t.Unbound scope name := by
  intro g id hout hb
  obtain ⟨id', hb'⟩ := hb.of_extends h
  exact hu g id' (hout.of_extends h) hb'

end Growth

end ScriptAnalysis.ScopeTable
