import Mathlib.Order.Interval.Set.Basic
import ScriptAnalysis.Proofs.Propagation.Conformance
import ScriptAnalysis.Proofs.Typing.Entry
import ScriptAnalysis.Typing.Builtin

/-!
Growth of drafts. A step of a walk adds to a draft, keeps it sound, and changes what the draft says of
few nodes: `Draft.Grown` names these nodes, the nodes of the variables that the step binds, and how
many declarations keep their attributes.
-/
namespace ScriptAnalysis.Draft

variable {d d' d₁ d₂ : Draft} {V V' N N' : Set Nat} {k : Nat}

def VariableIn (d : Draft) (V : Set Nat) (id : DeclId) : Prop :=
  ∃ x, d.tables.declarations.items[id.index]? = some x ∧
    (x.kind = .variable → ∃ m, x.node = some m ∧ m.index ∈ V)

theorem VariableIn.lt_size {id : DeclId} (h : d.VariableIn V id) : id.index < d.size := by
  obtain ⟨x, hx, _⟩ := h
  exact Declarations.lt_size_of_getElem? hx

theorem VariableIn.mono {id : DeclId} (h : d.VariableIn V id)
    (hd : d.tables.declarations.Extends d'.tables.declarations) (hV : V ⊆ V') :
    d'.VariableIn V' id := by
  obtain ⟨x, hx, hv⟩ := h
  obtain ⟨x', hx', _, hnode, hkind⟩ := hd _ x hx
  refine ⟨x', hx', fun hk => ?_⟩
  rw [hk] at hkind
  obtain ⟨m, hm, hmV⟩ := hv (DeclarationKind.eq_variable_of_blank hkind.symm)
  exact ⟨m, hnode.trans hm, hV hmV⟩

def InTable (t : ScopeTable) : Value → Prop
  | .scope id => id.index < t.size
  | _ => True

theorem InTable.mono {t u : ScopeTable} {v : Value} (h : InTable t v) (hle : t.size ≤ u.size) :
    InTable u v := by
  cases v with
  | scope id => exact Nat.lt_of_lt_of_le h hle
  | _ => trivial

structure Sound (d : Draft) : Prop where
  rooted : d.tables.scopes.Rooted
  bound : ∀ (i : Nat) (s : Scope), d.tables.scopes.scopes[i]? = some s →
    ∀ b ∈ s.bindings, b.2.index < d.size
  owners : ∀ (i : Nat) (s : Scope), d.tables.scopes.scopes[i]? = some s →
    ∀ id, s.kind = .function id → id.index < d.size
  mentions : ∀ (i : Nat) (x : Declaration), d.tables.declarations.items[i]? = some x →
    ∀ id ∈ x.kind.mentions, id.index < d.size
  signatures : ∀ s id, d.tables.signatures.get? s = some id → id.index < d.size
  placed : ∀ (i : Nat) (x : Declaration), d.tables.declarations.items[i]? = some x →
    x.node = none → i < Builtin.all.length
  stored : ∀ (n : NodeId) (κ : AttributeKind) (v : Value),
    d.attributes.slot? ⟨.node n, κ⟩ = some (.set v) → InTable d.tables.scopes v
  unwritten : ∀ id : DeclId, d.size ≤ id.index → ∀ κ, d.attributes.slot? ⟨.decl id, κ⟩ = none
  tells : ∀ a, d.attributes.isFailed a = true → d.diagnostics ≠ []
  causes : ∀ x ∈ d.diagnostics, x.cause.isStuck = false

/-- The second draft is sound and has all that the first has. Variables bound anew are of nodes in
`V`, what is said of nodes outside `N` is the same, and the first `k` declarations have the same
attributes. -/
structure Grown (V N : Set Nat) (k : Nat) (d d' : Draft) : Prop where
  sound : d'.Sound
  slots : d.attributes.Grows d'.attributes
  scopes : d.tables.scopes.Extends (d'.VariableIn V) d'.tables.scopes
  declarations : d.tables.declarations.Extends d'.tables.declarations
  kept : ∀ id : DeclId, id.index < k → ∀ κ,
    d'.attributes.slot? ⟨.decl id, κ⟩ = d.attributes.slot? ⟨.decl id, κ⟩
  frame : ∀ n : NodeId, n.index ∉ N → d'.entry n = d.entry n

theorem Grown.refl (h : d.Sound) : Grown V N k d d :=
  ⟨h, .refl _, .refl _ _, .refl _, fun _ _ _ => rfl, fun _ _ => rfl⟩

theorem Grown.trans (h : Grown V N k d d₁) (h' : Grown V N k d₁ d₂) : Grown V N k d d₂ where
  sound := h'.sound
  slots := h.slots.trans h'.slots
  scopes := h.scopes.trans h'.scopes fun _ hid => hid.mono h'.declarations subset_rfl
  declarations := h.declarations.trans h'.declarations
  kept id hid κ := (h'.kept id hid κ).trans (h.kept id hid κ)
  frame n hn := (h'.frame n hn).trans (h.frame n hn)

theorem Grown.weaken (h : Grown V N k d d') {k' : Nat} (hV : V ⊆ V') (hN : N ⊆ N') (hk : k' ≤ k) :
    Grown V' N' k' d d' where
  sound := h.sound
  slots := h.slots
  scopes := (ScopeTable.Extends.refl (d'.VariableIn V) _).trans
    (h.scopes.trans (.refl (d'.VariableIn V') _) fun _ hid => hid.mono (.refl _) hV)
    fun _ hid => hid.mono (.refl _) hV
  declarations := h.declarations
  kept id hid := h.kept id (Nat.lt_of_lt_of_le hid hk)
  frame n hn := h.frame n fun hm => hn (hN hm)

theorem Grown.size_le (h : Grown V N k d d') : d.size ≤ d'.size := h.declarations.size_le

section Steps

theorem grown_put (h : d.Sound) {n : NodeId} (hn : n.index ∈ N) (κ : AttributeKind) {v : Value}
    (hv : InTable d.tables.scopes v) : Grown V N k d (d.put ⟨.node n, κ⟩ v) where
  sound := { h with
    stored := fun m κ' w hw => by
      simp only [put, Attributes.slot?_set] at hw
      split at hw
      · next heq =>
        cases hold : d.attributes.slot? ⟨.node n, κ⟩ with
        | none =>
          rw [hold] at hw
          cases hw
          exact hv
        | some old =>
          rw [hold] at hw
          cases hw
          exact h.stored n κ w hold
      · exact h.stored m κ' w hw
    unwritten := fun id hid κ' => by simpa [put, Attributes.slot?_set] using h.unwritten id hid κ'
    tells := fun a ha => h.tells a (by simpa [put, Attributes.isFailed_set] using ha) }
  slots := Attributes.grows_set _ _ _
  scopes := .refl _ _
  declarations := .refl _
  kept id _ κ' := by simp [put, Attributes.slot?_set]
  frame m hm := by
    have hne : n ≠ m := fun he => hm (he ▸ hn)
    rw [entry_put, if_neg hne]

theorem grown_put_decl (h : d.Sound) {id : DeclId} (hk : k ≤ id.index) (hid : id.index < d.size)
    (κ : AttributeKind) (v : Value) : Grown V N k d (d.put ⟨.decl id, κ⟩ v) where
  sound := { h with
    stored := fun n κ' w hw => h.stored n κ' w (by simpa [put, Attributes.slot?_set] using hw)
    unwritten := fun id' hid' κ' => by
      have hne : id ≠ id' := fun he => absurd hid (Nat.not_lt.2 (he ▸ hid'))
      simpa [put, Attributes.slot?_set, hne] using h.unwritten id' hid' κ'
    tells := fun a ha => h.tells a (by simpa [put, Attributes.isFailed_set] using ha) }
  slots := Attributes.grows_set _ _ _
  scopes := .refl _ _
  declarations := .refl _
  kept id' hid' κ' := by
    have hne : id ≠ id' := fun he => absurd hid' (Nat.not_lt.2 (he ▸ hk))
    simp [put, Attributes.slot?_set, hne]
  frame m _ := entry_put_decl d id κ v m

theorem Sound.tell (h : d.Sound) {found : Diagnostic} (hc : found.cause.isStuck = false) :
    (d.tell found).Sound :=
  { h with
    tells := fun a ha => by simp [Draft.tell]
    causes := fun x hx => by
      rcases List.mem_append.1 hx with hx | hx
      · exact h.causes x hx
      · rw [List.mem_singleton.1 hx]
        exact hc }

theorem grown_tell (h : d.Sound) {found : Diagnostic} (hc : found.cause.isStuck = false)
    (hg : found.cause.isGap = false) : Grown V N k d (d.tell found) where
  sound := h.tell hc
  slots := .refl _
  scopes := .refl _ _
  declarations := .refl _
  kept _ _ _ := rfl
  frame m _ := d.entry_tell hg m

theorem grown_refuse (h : d.Sound) {found : Diagnostic} (hc : found.cause.isStuck = false)
    {n : NodeId} (hf : found.node = some n) (hg : found.cause.isGap = true) (hn : n.index ∈ N)
    (κ : AttributeKind) : Grown V N k d (d.refuse found ⟨.node n, κ⟩) where
  sound := { h.tell hc with
    stored := fun m κ' w hw => by
      simp only [refuse, Attributes.slot?_fail] at hw
      split at hw
      · cases hold : d.attributes.slot? ⟨.node n, κ⟩ with
        | none =>
          rw [hold] at hw
          cases hw
        | some old =>
          rw [hold] at hw
          cases hw
          exact h.stored n κ w hold
      · exact h.stored m κ' w hw
    unwritten := fun id hid κ' => by
      simpa [refuse, Attributes.slot?_fail] using h.unwritten id hid κ'
    tells := fun a ha => by simp [refuse] }
  slots := Attributes.grows_fail _ _
  scopes := .refl _ _
  declarations := .refl _
  kept id _ κ' := by simp [refuse, Attributes.slot?_fail]
  frame m hm := by
    have hne : n ≠ m := fun he => hm (he ▸ hn)
    rw [entry_refuse d hf hg, if_neg hne]

theorem grown_owe (h : d.Sound) {node : Node} (hn : node.id.index ∈ N) (goal : Goal) :
    Grown V N k d (d.owe node goal) where
  sound := { h with }
  slots := .refl _
  scopes := .refl _ _
  declarations := .refl _
  kept _ _ _ := rfl
  frame m hm := by
    have hne : node.id ≠ m := fun he => hm (he ▸ hn)
    rw [entry_owe, if_neg hne]

theorem grown_listing (h : d.Sound) {id : DeclId} (hid : id.index < d.size) (s : Signature) :
    Grown V N k d (d.listing s id) where
  sound := { h with
    signatures := fun u i hi => by
      rcases Signatures.eq_of_register hi with ⟨_, rfl⟩ | hi
      · exact hid
      · exact h.signatures u i hi }
  slots := .refl _
  scopes := .refl _ _
  declarations := .refl _
  kept _ _ _ := rfl
  frame _ _ := rfl

theorem grown_opening (h : d.Sound) {parent : ScopeId} (hp : parent.index < d.tables.scopes.size)
    {kind : ScopeKind} (hkind : ∀ id, kind = .function id → id.index < d.size) :
    Grown V N k d (d.opening parent kind) where
  sound := { h with
    rooted := h.rooted.push hp kind
    stored := fun n κ v hv => (h.stored n κ v hv).mono
      (ScopeTable.extends_push (P := fun _ => True) parent kind).size_le
    bound := fun i s hs b hb => by
      rcases ScopeTable.mem_scopes_push hs with hs | ⟨_, rfl⟩
      · exact h.bound i s hs b hb
      · simp at hb
    owners := fun i s hs id hid => by
      rcases ScopeTable.mem_scopes_push hs with hs | ⟨_, rfl⟩
      · exact h.owners i s hs id hid
      · exact hkind id hid }
  slots := .refl _
  scopes := ScopeTable.extends_push parent kind
  declarations := .refl _
  kept _ _ _ := rfl
  frame _ _ := rfl

theorem grown_withScopes (h : d.Sound) {scope : ScopeId} {name : String} {id : DeclId}
    {scopes : ScopeTable} (hb : d.tables.scopes.Binds scope name id scopes)
    (hid : d.VariableIn V id) : Grown V N k d (d.withScopes scopes) where
  sound := { h with
    rooted := hb.rooted h.rooted
    stored := fun n κ v hv => (h.stored n κ v hv).mono (hb.extends (P := fun _ => True) trivial).size_le
    bound := fun i s' hs' b hb' => by
      obtain ⟨s, hs, _, hbindings⟩ := hb.scope hs'
      rcases hbindings b hb' with hold | hnew
      · exact h.bound i s hs b hold
      · exact hnew ▸ hid.lt_size
    owners := fun i s' hs' id' hid' => by
      obtain ⟨s, hs, hkind, _⟩ := hb.scope hs'
      exact h.owners i s hs id' (hkind ▸ hid') }
  slots := .refl _
  scopes := hb.extends hid
  declarations := .refl _
  kept _ _ _ := rfl
  frame _ _ := rfl

theorem grown_declaring (h : d.Sound) {x : Declaration}
    (hnode : ∀ m, x.node = some m → m.index ∈ N)
    (hmentions : ∀ id ∈ x.kind.mentions, id.index < d.size)
    (hplaced : x.node = none → d.size < Builtin.all.length) :
    Grown V N k d (d.declaring x) := by
  have hsize : (d.declaring x).size = d.size + 1 := Declarations.size_add x
  have hlt : ∀ {id : DeclId}, id.index < d.size → id.index < (d.declaring x).size := by omega
  refine ⟨{ h with
    bound := fun i s hs b hb => hlt (h.bound i s hs b hb)
    owners := fun i s hs id hid => hlt (h.owners i s hs id hid)
    mentions := fun i y hy id hid => ?_
    signatures := fun s i hi => hlt (h.signatures s i hi)
    placed := fun i y hy hnone => ?_
    unwritten := fun id hid => h.unwritten id (by omega) }, .refl _, .refl _ _,
    Declarations.extends_add x, fun _ _ _ => rfl, fun m hm => ?_⟩
  · have hget := Declarations.add_getElem? (t := d.tables.declarations) x i
    simp only [declaring] at hy
    rw [hget] at hy
    split at hy
    · cases hy
      exact hlt (hmentions id hid)
    · exact hlt (h.mentions i y hy id hid)
  · have hget := Declarations.add_getElem? (t := d.tables.declarations) x i
    simp only [declaring] at hy
    rw [hget] at hy
    split at hy
    · next hi =>
      cases hy
      exact hi ▸ hplaced hnone
    · exact h.placed i y hy hnone
  · have hne : x.node ≠ some m := fun he => hm (hnode m he)
    rw [entry_declaring, if_neg hne]

theorem grown_withDeclarations (h : d.Sound) {id : DeclId} {f : Declaration → Declaration}
    {declarations : Declarations} (hc : d.tables.declarations.Changes id f declarations)
    (hname : ∀ x, (f x).name = x.name) (hnode : ∀ x, (f x).node = x.node)
    (hkind : ∀ x, d.tables.declarations.items[id.index]? = some x →
      (f x).kind.blank = x.kind.blank)
    (hmentions : ∀ x, d.tables.declarations.items[id.index]? = some x →
      ∀ i ∈ (f x).kind.mentions, i.index < d.size) :
    Grown V N k d (d.withDeclarations declarations) := by
  have hc' := hc
  obtain ⟨x, hx, hsz, hu⟩ := hc'
  have hsize : (d.withDeclarations declarations).size = d.size := hsz
  refine ⟨{ h with
    bound := fun i s hs b hb => hsize ▸ h.bound i s hs b hb
    owners := fun i s hs id hid => hsize ▸ h.owners i s hs id hid
    mentions := fun i y hy id hid => ?_
    signatures := fun s i hi => hsize ▸ h.signatures s i hi
    placed := fun i y hy hnone => ?_
    unwritten := fun id hid => h.unwritten id (hsize ▸ hid) }, .refl _, .refl _ _,
    hc.extends hname hnode hkind, fun _ _ _ => rfl, fun m _ => ?_⟩
  · rw [hsize]
    simp only [withDeclarations] at hy
    rw [hu] at hy
    split at hy
    · cases hy
      exact hmentions x hx id hid
    · exact h.mentions i y hy id hid
  · simp only [withDeclarations] at hy
    rw [hu] at hy
    split at hy
    · next hi =>
      cases hy
      exact hi ▸ h.placed _ x hx ((hnode x).symm.trans hnone)
    · exact h.placed i y hy hnone
  · ext1
    · rfl
    · exact hc.idsAt hnode m
    · rfl
    · rfl

end Steps

structure Ready (N : Set Nat) (d : Draft) : Prop where
  sound : d.Sound
  fresh : ∀ n : NodeId, n.index ∈ N → d.entry n = {}
  before : ∀ (i : Nat) (s : Scope), d.tables.scopes.scopes[i]? = some s →
    ∀ b ∈ s.bindings, d.VariableIn {m | ∀ n ∈ N, m < n} b.2

theorem Ready.mono (h : d.Ready N) (hN : N' ⊆ N) : d.Ready N' where
  sound := h.sound
  fresh n hn := h.fresh n (hN hn)
  before i s hs b hb := (h.before i s hs b hb).mono (.refl _) fun _ hm n hn => hm n (hN hn)

/-- A draft stays ready for nodes that a step says nothing of and that come behind the variables it
binds. -/
theorem Ready.step {M : Set Nat} (h : d.Ready N) (g : Grown V N' k d d') (hM : M ⊆ N)
    (hV : ∀ m ∈ V, ∀ n ∈ M, m < n) (hN : ∀ n ∈ M, n ∉ N') : d'.Ready M where
  sound := g.sound
  fresh n hn := (g.frame n (hN _ hn)).trans (h.fresh n (hM hn))
  before i s' hs' b hb := by
    rcases g.scopes.binding hs' hb with hnew | ⟨s, hs, hb⟩
    · exact hnew.mono (.refl _) hV
    · exact (h.before i s hs b hb).mono g.declarations fun _ hm n hn => hm n (hM hn)

end ScriptAnalysis.Draft
