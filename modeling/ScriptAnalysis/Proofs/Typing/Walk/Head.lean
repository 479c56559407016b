import ScriptAnalysis.Proofs.Typing.Walk.Expr

/-!
The walk over names with written types and over the heads of constructs. A construct touches its own node
before and after its parts (`Underway`); the steps that declare its name carry the declaration along
(`Draft.Owned`).
-/
namespace ScriptAnalysis

open Set (Ico)

namespace Draft

variable {d d' d₀ : Draft} {V N : Set Nat} {k : Nat} {n : NodeId} {name : String} {kind : DeclarationKind}
  {type declared : Option Slot} {id : DeclId} {e e' : Entry}

theorem introduces_declaring (h : d.Sound) (x : Declaration) (hn : x.node = some n) :
    (d.declaring x).Introduces n x.name x.kind.blank none none ⟨d.size⟩ where
  item := ⟨x, by
    have hx := Declarations.add_getElem? (t := d.tables.declarations) x d.tables.declarations.size
    rw [if_pos rfl] at hx
    exact hx, rfl, hn, rfl⟩
  slots κ := by
    have hκ : d.attributes.slot? ⟨.decl ⟨d.size⟩, κ⟩ = none := h.unwritten _ (Nat.le_refl _) κ
    cases κ <;> exact hκ

namespace Introduces

theorem put_type (h : d.Introduces n name kind none declared id) (t : Ty) :
    (d.put (.typeOfDecl id) (.type t)).Introduces n name kind (typed t) declared id where
  item := h.item
  slots κ := by
    have hκ := h.slots κ
    cases κ <;> simp_all [put, Attributes.slot?_set, h.slots .type]

theorem put_declared (h : d.Introduces n name kind type none id) (t : Ty) :
    (d.put (.declaredBy id) (.type t)).Introduces n name kind type (typed t) id where
  item := h.item
  slots κ := by
    have hκ := h.slots κ
    cases κ <;> simp_all [put, Attributes.slot?_set, h.slots .declared]

/-- Both declarations of a class get the type that the second introduces. -/
theorem put_class {written effective : DeclId} (hid : id = written ∨ id = effective)
    (h : d.Introduces n name kind none none id) (t : Ty) :
    ((((d.put (.typeOfDecl written) (.type .type)).put (.declaredBy written) (.type t)).put
      (.typeOfDecl effective) (.type .type)).put (.declaredBy effective) (.type t)).Introduces
        n name kind (typed .type) (typed t) id where
  item := h.item
  slots κ := by
    have htype := h.slots .type
    have hdeclared := h.slots .declared
    have hκ := h.slots κ
    rcases hid with rfl | rfl <;> cases κ <;> simp_all [put, Attributes.slot?_set]
    all_goals split <;> simp_all

theorem mem_idsAt (h : d.Introduces n name kind type declared id) : id ∈ d.tables.declarations.idsAt n := by
  obtain ⟨x, hx, _, hn, _⟩ := h.item
  exact Declarations.mem_idsAt.2 ⟨x, hx, hn⟩

/-- A declaration that is no variable may be bound at any time. -/
theorem variableIn (h : d.Introduces n name kind type declared id) (hV : kind = .variable → n.index ∈ V) :
    d.VariableIn V id := by
  obtain ⟨x, hx, _, hn, hk⟩ := h.item
  exact ⟨x, hx, fun hv => ⟨n, hn, hV (by rw [← hk, hv]; rfl)⟩⟩

theorem later (h : d.Introduces n name kind type declared id) (g : Grown V N d.size d d') :
    d'.Introduces n name kind type declared id :=
  h.mono g h.lt_size

/-- The scope of the body of a function or template is where its head says. -/
theorem setting {inner : ScopeId} {result : TypeExpr} (h : d.Introduces n name kind type declared id)
    (hk : kind.result? = some result.id) (ho : d.Opens n inner)
    (hf : d.tables.scopes.Finds ScopeTable.owner inner (some (some id))) : d.At ⟨n, some result⟩ inner := by
  obtain ⟨x, hx, _, _, hblank⟩ := h.item
  refine ⟨ho, _, hf, x, result, hx, rfl, ?_⟩
  rw [← DeclarationKind.result?_blank, hblank, hk]

end Introduces

/-- A node that had no scope opens the one it is given. -/
theorem opens_put {inner : ScopeId} (hn : (d.entry n).slots .scope = none)
    (hi : inner.index < d.tables.scopes.size) : (d.put (.scopeOf n) (.scope inner)).Opens n inner := by
  have hslot : d.attributes.slot? (.scopeOf n) = none := hn
  exact ⟨by simp [put, Attributes.slot?_set, hslot], hi⟩

/-- A block belongs to the function that its parent belongs to. -/
theorem finds_owner_opening {scope : ScopeId} {r : Option (Option DeclId)}
    (h : d.tables.scopes.Finds ScopeTable.owner scope r) :
    (d.opening scope .block).tables.scopes.Finds ScopeTable.owner ⟨d.tables.scopes.size⟩ r :=
  .up (ScopeTable.push_getElem? scope .block) rfl rfl
    (h.owner_of_extends (ScopeTable.extends_push (P := fun _ => True) scope .block))

theorem lt_size_opening (parent : ScopeId) (kind : ScopeKind) :
    d.tables.scopes.size < (d.opening parent kind).tables.scopes.size := by
  simp [opening, ScopeTable.push, ScopeTable.size]

/-- A declaration of the construct itself gets an attribute. -/
theorem Steps.putDecl (t : d₀.Steps n e d) (hk : d₀.size ≤ id.index) (hid : id.index < d.size)
    (κ : AttributeKind) (v : Value) : d₀.Steps n e (d.put ⟨.decl id, κ⟩ v) :=
  t.step (grown_put_decl t.grown.sound hk hid κ v) (by rw [entry_put_decl, t.entry])

structure Owned (d₀ : Draft) (n : NodeId) (e : Entry) (name : String) (kind : DeclarationKind)
    (type declared : Option Slot) (id : DeclId) (d : Draft) : Prop extends d₀.Steps n e d where
  own : d.Introduces n name kind type declared id
  le : d₀.size ≤ id.index

namespace Owned

theorem next (t : d₀.Owned n e name kind type declared id d) (g : ∀ k, Grown ∅ {n.index} k d d')
    (he : d'.entry n = e') : d₀.Owned n e' name kind type declared id d' :=
  ⟨t.toSteps.step (g _) he, t.own.later (g _), t.le⟩

theorem owe {node : Node} (t : d₀.Owned node.id e name kind type declared id d) (goal : Goal) :
    d₀.Owned node.id (e.owing ⟨node, goal⟩) name kind type declared id (d.owe node goal) :=
  t.next (fun _ => grown_owe t.grown.sound (Set.mem_singleton _) goal) (t.toSteps.owe goal).entry

theorem put (t : d₀.Owned n e name kind type declared id d) (κ : AttributeKind) {v : Value}
    (hv : InTable d.tables.scopes v) :
    d₀.Owned n (e.put κ (.set v)) name kind type declared id (d.put ⟨.node n, κ⟩ v) :=
  t.next (fun _ => grown_put t.grown.sound (Set.mem_singleton _) κ hv) (t.toSteps.put κ hv).entry

theorem putType (t : d₀.Owned n e name kind none declared id d) (u : Ty) :
    d₀.Owned n e name kind (typed u) declared id (d.put (.typeOfDecl id) (.type u)) :=
  ⟨t.toSteps.putDecl t.le t.own.lt_size .type _, t.own.put_type u, t.le⟩

theorem putDeclared (t : d₀.Owned n e name kind type none id d) (u : Ty) :
    d₀.Owned n e name kind type (typed u) id (d.put (.declaredBy id) (.type u)) :=
  ⟨t.toSteps.putDecl t.le t.own.lt_size .declared _, t.own.put_declared u, t.le⟩

end Owned

end Draft

namespace Walk

open Draft

variable {d d₀ : Draft} {lo mid hi : Nat} {st : Setting} {scope : ScopeId} {e : Entry}

section Heads

variable {node : Node} {name : String} {kind : DeclarationKind} {type declared : Option Slot} {id : DeclId}

theorem reaches_declared (node : Node) (name : String) {Q : DeclId → Draft → Prop}
    (t : d₀.Steps node.id e d) (hmentions : ∀ id ∈ kind.mentions, id.index < d.size)
    (h : ∀ d', d₀.Owned node.id (e.declaring ⟨d.size⟩) name kind.blank none none ⟨d.size⟩ d' → Q ⟨d.size⟩ d') :
    Reaches (declareAt node name kind) d Q := by
  refine reaches_declareAt (h _ ⟨t.step ?_ ?_, introduces_declaring t.grown.sound _ rfl, t.grown.size_le⟩)
  · exact grown_declaring t.grown.sound (fun m hm => Option.some.inj hm ▸ rfl) hmentions (by simp)
  · rw [entry_declaring, if_pos rfl, t.entry]

theorem reaches_bound {Q : Unit → Draft → Prop} (t : d₀.Owned node.id e name kind type declared id d)
    (hvar : kind ≠ .variable) (hs : scope.index < d₀.tables.scopes.size)
    (h : ∀ d', d₀.Owned node.id e name kind type declared id d' → Q () d') :
    Reaches (bindName scope name id) d Q :=
  reaches_bindName (Nat.lt_of_lt_of_le hs t.grown.scopes.size_le) fun _ hb => h _ (t.next (fun _ =>
    grown_withScopes t.grown.sound hb (t.own.variableIn fun h => absurd h hvar)) t.entry)

/-- A construct declares its name and binds it before anything else. -/
theorem reaches_named {β : Type} (node : Node) (name : String) {next : DeclId → Walk β}
    {Q : β → Draft → Prop} (t : d₀.Steps node.id e d) (hmentions : ∀ id ∈ kind.mentions, id.index < d.size)
    (hvar : kind.blank ≠ .variable) (hs : scope.index < d₀.tables.scopes.size)
    (hnext : ∀ d', d₀.Owned node.id (e.declaring ⟨d.size⟩) name kind.blank none none ⟨d.size⟩ d' →
      Reaches (next ⟨d.size⟩) d' Q) :
    Reaches (do
      let id ← declareAt node name kind
      bindName scope name id
      next id) d Q :=
  reaches_bind (reaches_declared node name t hmentions fun _ t₁ => reaches_bind (reaches_bound t₁ hvar hs hnext))

private def bindIf (bound : Bool) (scope : ScopeId) (name : String) (id : DeclId) : Walk Unit :=
  if bound then bindName scope name id else pure ()

/-- A name with a written type that is declared, and bound if asked for. -/
private def typedName (scope : ScopeId) (b : Binder) (kind : DeclarationKind) (bound : Bool) :
    Walk DeclId := do
  typeExpr scope b.type
  let id ← declareAt b.node b.name kind
  bindIf bound scope b.name id
  oblige b.node (.copy (.valueOf b.type.id) (.typeOfDecl id))
  return id

private theorem reaches_typedName (b : Binder) (bound : Bool) {s : Site} (hkind : kind.blank = kind)
    (hvar : kind ≠ .variable) (hmentions : kind.mentions = []) (hs : s.part.node = b.node)
    (ha : Ascending lo hi (b.type.sites st ++ [s])) (hr : d.Ready (Ico lo hi)) (hat : d.At st scope)
    (hleaves : ∀ (d' : Draft) (id : DeclId), d'.Introduces b.node.id b.name kind none none id →
      s.Leaves d' ((({} : Entry).declaring id).owing
        ⟨b.node, .copy (.valueOf b.type.id) (.typeOfDecl id)⟩)) :
    Reaches (typedName scope b kind bound) d fun id d' =>
      Walked (Ico lo hi) d d' (b.type.sites st ++ [s]) ∧
        id ∈ d'.tables.declarations.idsAt b.node.id := by
  obtain ⟨hl, hlt⟩ := ha.of_snoc
  have hid : s.id = b.node.id := congrArg Node.id hs
  refine (walks_typeExpr b.type _ _ _ hl (hr.initial hlt.le) hat).bind fun _ d₁ h₁ => ?_
  have h : Underway lo hi s.id d _ _ {} d₁ := (Underway.start hr hl.le hlt).part h₁ hl (Nat.le_refl _)
  refine reaches_bind (reaches_declared b.node b.name (hid ▸ h.steps) (by simp [hmentions]) fun d₂ t₂ => ?_)
  rw [hkind] at t₂
  have hbind : Reaches (bindIf bound scope b.name ⟨d₁.size⟩) d₂ fun _ =>
      d₁.Owned b.node.id (({} : Entry).declaring ⟨d₁.size⟩) b.name kind none none ⟨d₁.size⟩ := by
    cases bound with
    | false => exact reaches_pure t₂
    | true => exact reaches_bound t₂ hvar (hat.mono h₁.grown).opens.2 fun _ t => t
  refine hbind.bind fun _ d₃ t₃ => reaches_bind (reaches_oblige (reaches_pure ?_))
  have t₄ := t₃.owe (.copy (.valueOf b.type.id) (.typeOfDecl ⟨d₁.size⟩))
  exact ⟨(h.step (hid ▸ t₄.toSteps)).close (hleaves _ _ t₄.own), t₄.own.mem_idsAt⟩

theorem reaches_field (b : Binder) (bound : Bool) {s : Site} (hs : s.part.node = b.node)
    (ha : Ascending lo hi (b.type.sites st ++ [s])) (hr : d.Ready (Ico lo hi)) (hat : d.At st scope)
    (hleaves : ∀ (d' : Draft) (id : DeclId), d'.Introduces b.node.id b.name .field none none id →
      s.Leaves d' ((({} : Entry).declaring id).owing
        ⟨b.node, .copy (.valueOf b.type.id) (.typeOfDecl id)⟩)) :
    Reaches (field scope b bound) d fun id d' =>
      Walked (Ico lo hi) d d' (b.type.sites st ++ [s]) ∧
        id ∈ d'.tables.declarations.idsAt b.node.id := by
  have heq : field scope b bound = typedName scope b .field bound := by cases bound <;> rfl
  rw [heq]
  exact reaches_typedName b bound rfl (by simp) rfl hs ha hr hat hleaves

def WalksBinder (st : Setting) (sort : BinderSort) (scope : ScopeId) (f : Binder → Walk DeclId) : Prop :=
  ∀ (b : Binder) (lo hi : Nat) (d : Draft), Ascending lo hi (b.sites st sort) → d.Ready (Ico lo hi) →
    d.At st scope → Reaches (f b) d fun id d' =>
      Walked (Ico lo hi) d d' (b.sites st sort) ∧ id ∈ d'.tables.declarations.idsAt b.node.id

theorem walksBinder_parameter : WalksBinder st .parameter scope (parameter scope) := fun b _ _ _ ha hr hat =>
  reaches_typedName b true rfl (by simp) rfl rfl ha hr hat fun _ _ h => .parameter h

theorem walksBinder_typeParameter : WalksBinder st .typeParameter scope (typeParameter scope) := by
  intro b lo hi d ha hr hat
  obtain ⟨hl, hlt⟩ := Ascending.of_snoc ha
  refine (walks_typeExpr b.type _ _ _ hl (hr.initial hlt.le) hat).bind fun _ d₁ h₁ => ?_
  have h : Underway lo hi b.node.id d _ _ {} d₁ := (Underway.start hr hl.le hlt).part h₁ hl (Nat.le_refl _)
  refine reaches_named b.node b.name h.steps (by simp [DeclarationKind.mentions])
    (by simp [DeclarationKind.blank]) (hat.mono h₁.grown).opens.2 fun d₂ t₂ => ?_
  refine reaches_bind (reaches_setAttribute (reaches_bind (reaches_setAttribute (reaches_pure ?_))))
  have t₄ := (t₂.putType .type).putDeclared (.placeholder ⟨⟨d₁.size⟩, b.name⟩)
  exact ⟨(h.step t₄.toSteps).close (s := ⟨st, .binder .typeParameter b⟩) (.typeParameter t₄.own), t₄.own.mem_idsAt⟩

/-- A list of names with written types, each walked in turn. -/
theorem reaches_binders {f : Binder → Walk DeclId} {sort : BinderSort} (bs : List Binder)
    (hf : WalksBinder st sort scope f) (ha : Ascending lo hi (Binder.sitesAll st sort bs))
    (hr : d.Ready (Ico lo hi)) (hat : d.At st scope) :
    Reaches (bs.mapM f) d fun ids d' =>
      Walked (Ico lo hi) d d' (Binder.sitesAll st sort bs) ∧
        List.Forall₂ (fun (b : Binder) id => id ∈ d'.tables.declarations.idsAt b.node.id) bs ids := by
  induction bs generalizing lo d with
  | nil => exact reaches_pure ⟨.nil hr.sound, .nil⟩
  | cons b rest ih =>
    obtain ⟨mid, hb, hrest⟩ := Ascending.of_append (l := b.sites st sort) ha
    rw [List.mapM_cons]
    refine (hf b _ _ _ hb (hr.initial hrest.le) hat).bind ?_
    rintro id d₁ ⟨h₁, hid⟩
    refine (ih hrest (hr.next h₁ hb.le (Nat.le_refl _)) (hat.mono h₁.grown)).bind ?_
    rintro ids d₂ ⟨h₂, hids⟩
    exact reaches_pure ⟨h₁.append h₂ hb hrest.le, .cons (mem_idsAt_mono hid h₂.grown) hids⟩

theorem lt_size_of_forall₂ {bs : List Binder} {ids : List DeclId}
    (h : List.Forall₂ (fun (b : Binder) id => id ∈ d.tables.declarations.idsAt b.node.id) bs ids) :
    ∀ id ∈ ids, id.index < d.size := by
  induction h with
  | nil => simp
  | cons hb _ ih =>
    obtain ⟨x, hx, _⟩ := Declarations.mem_idsAt.1 hb
    exact List.forall_mem_cons.2 ⟨Declarations.lt_size_of_getElem? hx, ih⟩

theorem reaches_leaveBlock (node : Node) (body : List Stmt) {inner : ScopeId} {l : List Site}
    (h : Underway lo hi node.id d₀ l mid (({} : Entry).put .scope (.set (.scope inner))) d) :
    Reaches (leaveBlock node body) d fun _ =>
      Underway lo hi node.id d₀ l mid (.ofBlock inner node body) := by
  cases hc : body.filter Stmt.isReturnContainer with
  | nil =>
    simp only [leaveBlock, Entry.ofBlock, hc]
    exact reaches_setAttribute (h.step (h.steps.put .returns trivial))
  | cons first rest =>
    simp only [leaveBlock, Entry.ofBlock, hc]
    exact reaches_oblige (h.step (h.steps.owe _))

theorem walks_variableDecl (b : Binder) (value : Expr) :
    Walks st scope (variableDecl reference scope b value) ((Stmt.variable b value).sites st) := by
  intro lo hi d ha hr hat
  obtain ⟨hparts, hlt⟩ := Ascending.of_snoc ha
  obtain ⟨mid, ht, hv⟩ := hparts.of_append
  refine (walks_typeExpr b.type _ _ _ ht (hr.initial (hv.le.trans hlt.le)) hat).bind fun _ d₁ h₁ => ?_
  have h : Underway lo hi b.node.id d _ _ {} d₁ := (Underway.start hr hparts.le hlt).part h₁ ht hv.le
  refine reaches_bind (reaches_declared b.node b.name h.steps (by simp [DeclarationKind.mentions]) fun d₂ t₂ => ?_)
  have hat₂ := (hat.mono h₁.grown).mono t₂.grown
  refine (reaches_value value hv (h.step t₂.toSteps).ready hat₂ t₂.own.mem_idsAt).bind fun _ d₃ h₃ => ?_
  have hu₃ := (h.step t₂.toSteps).part h₃ hv (Nat.le_refl _)
  have own₃ := t₂.own.later h₃.grown
  refine reaches_bind (reaches_bindName (hat₂.mono h₃.grown).opens.2 fun scopes hb => ?_)
  have g₄ : Grown {b.node.id.index} {b.node.id.index} d₃.size d₃ (d₃.withScopes scopes) :=
    grown_withScopes hu₃.sound hb (own₃.variableIn fun _ => rfl)
  have hu₄ := hu₃.touch g₄ hu₃.entry subset_rfl (Nat.le_refl _) (Nat.le_refl _) fun _ _ => rfl
  have t := (hu₄.steps.owe (.copy (.valueOf b.type.id) (.typeOfDecl ⟨d₁.size⟩))).owe
    (.initializer ⟨d₁.size⟩ b.name value.node)
  exact reaches_bind (reaches_oblige (reaches_oblige ((hu₄.step t).close (s := ⟨st, .stmt (.variable b value)⟩)
    (.stmt (.variable ((own₃.later g₄).later t.grown))))))

private theorem reaches_setBodyScope (inner : ScopeId) (hd : d.Sound) (hid : id.index < d.size) :
    Reaches (modifyDeclaration id fun x => { x with bodyScope := some inner }) d fun _ d' =>
      (∀ k, Grown ∅ ∅ k d d') ∧ d'.tables.scopes = d.tables.scopes := by
  refine reaches_modifyDeclaration hid fun declarations hc => ⟨fun k => ?_, rfl⟩
  exact grown_withDeclarations hd hc (fun _ => rfl) (fun _ => rfl) (fun _ _ => rfl)
    fun x hx i hi => hd.mentions _ x hx i hi

theorem reaches_openBody (node : Node) (result : TypeExpr)
    (t : d₀.Owned node.id e name kind type declared id d) (hk : kind.result? = some result.id)
    (hs : scope.index < d₀.tables.scopes.size) (he : e.slots .scope = none) :
    Reaches (openBody scope node id) d fun inner d' => d'.At ⟨node.id, some result⟩ inner ∧
      d₀.Owned node.id (e.put .scope (.set (.scope inner))) name kind type declared id d' := by
  have hs := Nat.lt_of_lt_of_le hs t.grown.scopes.size_le
  refine reaches_bind (reaches_openScope ?_)
  have t₁ : d₀.Owned node.id e name kind type declared id (d.opening scope (.function id)) :=
    t.next (fun k => grown_opening t.grown.sound hs fun id' h => by cases h; exact t.own.lt_size) t.entry
  refine (reaches_setBodyScope ⟨d.tables.scopes.size⟩ t₁.grown.sound t₁.own.lt_size).bind ?_
  rintro _ d₂ ⟨g₂, hscopes⟩
  have t₂ := t₁.next (fun k => (g₂ k).weaken subset_rfl (Set.empty_subset _) (Nat.le_refl _))
    (((g₂ 0).frame node.id (by simp)).trans t₁.entry)
  have hlt : d.tables.scopes.size < d₂.tables.scopes.size := hscopes ▸ lt_size_opening scope _
  have hfinds : d₂.tables.scopes.Finds ScopeTable.owner ⟨d.tables.scopes.size⟩ (some (some id)) :=
    hscopes ▸ .here (ScopeTable.push_getElem? scope _) rfl
  have t₃ := t₂.put .scope (v := .scope ⟨d.tables.scopes.size⟩) hlt
  exact reaches_bind (reaches_setAttribute (reaches_pure
    ⟨t₃.own.setting hk (opens_put (by rw [t₂.entry, he]) hlt) hfinds, t₃⟩))

structure Headed (lo mid hi : Nat) (d : Draft) (st : Setting) (node : Node) (name : String)
    (kind : DeclarationKind) (goal : DeclId → Goal) (sites : List Site) (inner : ScopeId)
    (d' : Draft) : Prop where
  setting : d'.At st inner
  own : ∃ id, d'.Introduces node.id name kind none none id ∧
    Underway lo hi node.id d sites mid (((({} : Entry).declaring id).put .scope (.set (.scope inner))).owing
      ⟨node, goal id⟩) d'

/-- The parameters of a declaration, once they are known, are in range and do not change its kind. -/
private theorem reaches_fill {n : NodeId} (hd : d.Sound) (hi : d.Introduces n name kind type declared id)
    (filled : DeclarationKind) (hblank : filled.blank = kind)
    (hmentions : ∀ i ∈ filled.mentions, i.index < d.size) :
    Reaches (modifyDeclaration id fun x => { x with kind := filled }) d fun _ d' => ∀ k, Grown ∅ ∅ k d d' := by
  refine reaches_modifyDeclaration hi.lt_size fun declarations hc k => ?_
  refine grown_withDeclarations hd hc (fun _ => rfl) (fun _ => rfl) (fun x hx => ?_) fun x _ => hmentions
  obtain ⟨y, hy, _, _, hk⟩ := hi.item
  obtain rfl : x = y := Option.some.inj (hx.symm.trans hy)
  rw [hk]
  exact hblank

/-- The second half of a head: parameters and result are walked, the declaration gets its parameters, and its
type is left to be found. -/
private theorem reaches_signature {st' : Setting} {sites : List Site} {inner : ScopeId} {first mid : Nat}
    (parameters : List Binder) (result : TypeExpr) (filled : List DeclId → DeclarationKind) (goal : DeclId → Goal)
    (h : Underway lo hi node.id d₀ sites first (({} : Entry).declaring id |>.put .scope (.set (.scope inner))) d)
    (hat : d.At st' inner) (own : d.Introduces node.id name kind none none id)
    (ha : Ascending first mid (Binder.sitesAll st' .parameter parameters ++ result.sites st'))
    (hmid : mid ≤ node.id.index) (hblank : ∀ ids, (filled ids).blank = kind)
    (hmentions : ∀ ids, ∀ i ∈ (filled ids).mentions, i ∈ ids ∨ i.index < d.size) :
    Reaches (do
      let ids ← parameters.mapM (parameter inner)
      typeExpr inner result
      modifyDeclaration id fun x => { x with kind := filled ids }
      oblige node (goal id)
      return inner) d fun inner d' =>
        (∀ n, ∀ i ∈ d.tables.declarations.idsAt n, i ∈ d'.tables.declarations.idsAt n) ∧
        Headed lo mid hi d₀ st' node name kind goal
          (sites ++ (Binder.sitesAll st' .parameter parameters ++ result.sites st')) inner d' := by
  obtain ⟨a, hp, hres⟩ := ha.of_append
  have hle := hres.le.trans hmid
  refine (reaches_binders parameters walksBinder_parameter hp (h.ready.initial hle) hat).bind ?_
  rintro ids d₁ ⟨w₁, hids⟩
  have h₁ := h.part w₁ hp hle
  refine (walks_typeExpr result _ _ _ hres (h₁.ready.initial hmid) (hat.mono w₁.grown)).bind fun _ d₂ w₂ => ?_
  have h₂ := h₁.part w₂ hres hmid
  have own₂ := (own.later w₁.grown).later w₂.grown
  refine (reaches_fill h₂.sound own₂ (filled ids) (hblank ids) fun i hi => ?_).bind fun _ d₃ g₃ => ?_
  · rcases hmentions ids i hi with hi | hi
    · exact Nat.lt_of_lt_of_le (lt_size_of_forall₂ hids i hi) w₂.grown.size_le
    · exact Nat.lt_of_lt_of_le hi (w₁.grown.size_le.trans w₂.grown.size_le)
  have h₃ := h₂.aside (g₃ _)
  have t := h₃.steps.owe (goal id)
  rw [← List.append_assoc]
  refine reaches_bind (reaches_oblige (reaches_pure ⟨fun n i hi => ?_, ?_, id, (own₂.later (g₃ _)).later t.grown,
    h₃.step t⟩))
  · exact mem_idsAt_mono (mem_idsAt_mono (mem_idsAt_mono (mem_idsAt_mono hi w₁.grown) w₂.grown) (g₃ 0)) t.grown
  · exact (((hat.mono w₁.grown).mono w₂.grown).mono (g₃ 0)).mono t.grown

theorem reaches_functionHead (node : Node) (head : FunctionHead) {mid : Nat}
    (ha : Ascending lo mid (Binder.sitesAll (head.setting node) .parameter head.parameters ++
      head.result.sites (head.setting node)))
    (hmid : mid ≤ node.id.index) (hlt : node.id.index < hi) (hr : d.Ready (Ico lo hi))
    (hat : d.At st scope) :
    Reaches (functionHead scope node head) d fun inner d' =>
      Headed lo mid hi d (head.setting node) node head.name
        (.function { result := some head.result.id })
        (fun id => .functionType id head.result.id (head.parameters.map (·.type.id)))
        (Binder.sitesAll (head.setting node) .parameter head.parameters ++
          head.result.sites (head.setting node)) inner d' := by
  have h : Underway lo hi node.id d [] lo {} d := .start hr (ha.le.trans hmid) hlt
  refine reaches_named node head.name h.steps (by simp [DeclarationKind.mentions])
    (by simp [DeclarationKind.blank]) hat.opens.2 fun d₁ t₁ => reaches_bind (reaches_registerSignature ?_)
  refine (reaches_openBody node head.result (t₁.next (fun k => grown_listing t₁.grown.sound
    t₁.own.lt_size _) t₁.entry) rfl hat.opens.2 rfl).bind ?_
  rintro inner d₃ ⟨at₃, t₃⟩
  have hsig := reaches_signature head.parameters head.result (fun ids => .function
    { visibility := head.visibility, parameters := ids, result := some head.result.id })
    (fun id => .functionType id head.result.id (head.parameters.map (·.type.id))) (h.step t₃.toSteps) at₃
    t₃.own ha hmid (fun _ => rfl) fun _ _ => .inl
  exact hsig.mono fun _ _ h => h.2

theorem reaches_templateHead (node : Node) (head : TemplateHead) {mid : Nat}
    (ha : Ascending lo mid (Binder.sitesAll (head.setting node) .typeParameter head.typeParameters ++
      Binder.sitesAll (head.setting node) .parameter head.parameters ++
      head.result.sites (head.setting node)))
    (hmid : mid ≤ node.id.index) (hlt : node.id.index < hi) (hr : d.Ready (Ico lo hi))
    (hat : d.At st scope) :
    Reaches (templateHead scope node head) d fun inner d' => ∃ ids,
      List.Forall₂ (fun (b : Binder) id => id ∈ d'.tables.declarations.idsAt b.node.id)
        head.typeParameters ids ∧
      Headed lo mid hi d (head.setting node) node head.name
        (.template { result := some head.result.id })
        (fun id => .templateType id head.result.id ids (head.parameters.map (·.type.id)))
        (Binder.sitesAll (head.setting node) .typeParameter head.typeParameters ++
          Binder.sitesAll (head.setting node) .parameter head.parameters ++
          head.result.sites (head.setting node)) inner d' := by
  have h : Underway lo hi node.id d [] lo {} d := .start hr (ha.le.trans hmid) hlt
  rw [List.append_assoc] at ha ⊢
  obtain ⟨first, ht, hrest⟩ := ha.of_append
  have hle := hrest.le.trans hmid
  refine reaches_named node head.name h.steps (by simp [DeclarationKind.mentions])
    (by simp [DeclarationKind.blank]) hat.opens.2 fun d₁ t₁ => ?_
  refine (reaches_openBody node head.result t₁ rfl hat.opens.2 rfl).bind ?_
  rintro inner d₂ ⟨at₂, t₂⟩
  have h₂ := h.step t₂.toSteps
  refine (reaches_binders head.typeParameters walksBinder_typeParameter ht (h₂.ready.initial hle) at₂).bind ?_
  rintro typeIds d₃ ⟨w₃, htypes⟩
  have hmentions : ∀ (ids : List DeclId), ∀ i ∈ typeIds ++ ids, i ∈ ids ∨ i.index < d₃.size := by
    intro ids i hi
    exact (List.mem_append.1 hi).symm.imp_right (lt_size_of_forall₂ htypes i)
  have hsig := reaches_signature head.parameters head.result (fun ids => .template
    { typeParameters := typeIds, parameters := ids, result := some head.result.id }) (fun id =>
    .templateType id head.result.id typeIds (head.parameters.map (·.type.id))) (h₂.part w₃ ht hle)
    (at₂.mono w₃.grown) (t₂.own.later w₃.grown) hrest hmid (fun _ => rfl) hmentions
  exact hsig.mono fun _ _ h => ⟨typeIds, htypes.imp fun _ _ hid => h.1 _ _ hid, h.2⟩

theorem walks_struct (node : Node) (name : String) (fields : List Binder) :
    Walks st scope (struct scope node name fields) ((Stmt.struct node name fields).sites st) := by
  intro lo hi d ha hr hat
  obtain ⟨hfields, hlt⟩ := Ascending.of_snoc ha
  have h : Underway lo hi node.id d [] lo {} d := .start hr hfields.le hlt
  refine reaches_named node name h.steps (by simp [DeclarationKind.mentions])
    (by simp [DeclarationKind.blank]) hat.opens.2 fun d₁ t₁ => ?_
  refine reaches_bind (reaches_setAttribute (reaches_bind (reaches_setAttribute ?_)))
  have t₃ := (t₁.putType .type).putDeclared (.composite .struct ⟨⟨d.size⟩, name⟩)
  have h₃ := h.step t₃.toSteps
  refine (reaches_binders fields (fun b _ _ _ hb hrb hatb =>
    reaches_field b false rfl hb hrb hatb fun _ _ h => .field h) hfields h₃.ready (hat.mono t₃.grown)).bind ?_
  rintro ids d₄ ⟨w₄, hids⟩
  have own₄ := t₃.own.later w₄.grown
  refine (reaches_fill w₄.grown.sound own₄ (.struct ids) rfl (lt_size_of_forall₂ hids)).mono fun _ d₅ g₅ => ?_
  exact ((h₃.part w₄ hfields (Nat.le_refl _)).aside (g₅ _)).close (s := ⟨st, .stmt (.struct node name fields)⟩)
    (.stmt (.struct (own₄.later (g₅ _))))

end Heads

/-- Looking a superclass up may report, and gives a declaration that exists. -/
theorem reaches_superclass (node : Node) (s : Superclass) (hd : d.Sound)
    (hs : scope.index < d.tables.scopes.size) :
    Reaches (superclass scope node s) d fun r d' =>
      (∀ k, Grown ∅ ∅ k d d') ∧ ∀ id, r = some id → id.index < d.size := by
  refine reaches_bind (reaches_lookup hd.rooted hs fun r hf => ?_)
  cases r with
  | none => exact reaches_bind (reaches_report (reaches_pure ⟨fun k => grown_tell hd rfl rfl, by simp⟩))
  | some found =>
    obtain ⟨b, hb, hmem⟩ := ScopeTable.mem_of_finds hf rfl
    have hlt : found.declaration.index < d.size := hd.bound _ b hb _ hmem
    obtain ⟨x, hx⟩ := Declarations.exists_item hlt
    refine reaches_bind (reaches_declaration hx ?_)
    dsimp only
    split
    · exact reaches_pure ⟨fun k => .refl hd, fun id hid => Option.some.inj hid ▸ hlt⟩
    · exact reaches_bind (reaches_report (reaches_pure ⟨fun k => grown_tell hd rfl rfl, by simp⟩))

theorem reaches_superclasses (node : Node) (ss : List Superclass) (hd : d.Sound)
    (hs : scope.index < d.tables.scopes.size) :
    Reaches (ss.mapM (superclass scope node)) d fun rs d' =>
      (∀ k, Grown ∅ ∅ k d d') ∧ ∀ i ∈ rs.filterMap id, i.index < d'.size := by
  induction ss generalizing d with
  | nil => exact reaches_pure ⟨fun k => .refl hd, by simp⟩
  | cons s rest ih =>
    rw [List.mapM_cons]
    refine (reaches_superclass node s hd hs).bind ?_
    rintro r d₁ ⟨g₁, hr⟩
    refine (ih (g₁ 0).sound (Nat.lt_of_lt_of_le hs (g₁ 0).scopes.size_le)).bind ?_
    rintro rs d₂ ⟨g₂, hrs⟩
    refine reaches_pure ⟨fun k => (g₁ k).trans (g₂ k), fun i hi => ?_⟩
    cases r with
    | none => exact hrs i (by simpa using hi)
    | some id =>
      rcases List.mem_cons.1 (show i ∈ id :: rs.filterMap _ from hi) with rfl | hi
      · exact Nat.lt_of_lt_of_le (hr i rfl) ((g₁ 0).trans (g₂ 0)).size_le
      · exact hrs i hi

structure ClassHeaded (d : Draft) (node : Node) (head : ClassHead) (c : OpenClass) (d' : Draft) :
    Prop where
  grown : Grown ∅ {node.id.index} d.size d d'
  setting : d'.At ⟨node.id, none⟩ c.scope
  range : ∀ id ∈ c.written :: c.effective :: c.superclasses, id.index < d'.size
  leaves : ∀ (st : Setting) (inner : Node) (body : List Stmt),
    Stmt.Leaves d' st (.cls node head inner body) (d'.entry node.id)

private theorem reaches_openClass (node : Node) (head : ClassHead) {superclasses : List DeclId}
    {written effective : DeclId} (t : d₀.Steps node.id e d) (hs : scope.index < d₀.tables.scopes.size)
    (hsuper : ∀ id ∈ superclasses, id.index < d.size) (hle : ∀ id ∈ [written, effective], d₀.size ≤ id.index)
    (own : ∀ id ∈ [written, effective], d.Introduces node.id head.name (.cls {}) none none id)
    (hscope : e.slots .scope = none)
    (hleaves : ∀ (d' : Draft) (inner : ScopeId) (st : Setting) (block : Node) (body : List Stmt),
      (∀ id ∈ [written, effective], d'.Introduces node.id head.name (.cls {}) (typed .type)
        (typed (.composite .cls ⟨effective, head.name⟩)) id) →
      Stmt.Leaves d' st (.cls node head block body) (e.put .scope (.set (.scope inner)))) :
    Reaches (openClass scope node head superclasses written effective) d
      (ClassHeaded d₀ node head) := by
  have hw := (own written (by simp)).lt_size
  have heff := (own effective (by simp)).lt_size
  have hset : Reaches (do
      for id in [written, effective] do
        setAttribute (.typeOfDecl id) (.type .type)
        setAttribute (.declaredBy id) (.type (.composite .cls ⟨effective, head.name⟩))) d fun _ d₁ =>
      d₀.Steps node.id e d₁ ∧ d.size = d₁.size ∧ ∀ id ∈ [written, effective], d₁.Introduces node.id head.name
        (.cls {}) (typed .type) (typed (.composite .cls ⟨effective, head.name⟩)) id := by
    have hlew := hle written (by simp)
    have hlee := hle effective (by simp)
    simp only [List.forIn_cons, List.forIn_nil, bind_assoc, pure_bind]
    refine reaches_bind (reaches_setAttribute (reaches_bind (reaches_setAttribute (reaches_bind
      (reaches_setAttribute (reaches_bind (reaches_setAttribute (reaches_pure ⟨?_, rfl, fun id hid => ?_⟩))))))))
    · exact (((t.putDecl hlew hw .type _).putDecl hlew hw .declared _).putDecl hlee heff .type _).putDecl hlee heff
        .declared _
    · exact (own id hid).put_class (by simpa using hid) _
  refine hset.bind ?_
  rintro _ d₁ ⟨t₁, hsize, own₁⟩
  rw [hsize] at hsuper
  have hs₁ := Nat.lt_of_lt_of_le hs t₁.grown.scopes.size_le
  refine reaches_bind (reaches_openScope ?_)
  have g₂ : ∀ k, Grown ∅ ∅ k d₁ (d₁.opening scope (.cls effective)) := fun k =>
    grown_opening t₁.grown.sound hs₁ (by simp)
  refine (reaches_setBodyScope _ (g₂ 0).sound (own₁ written (by simp)).lt_size).bind ?_
  rintro _ d₃ ⟨g₃, hscopes₃⟩
  refine (reaches_setBodyScope _ (g₃ 0).sound
    (Nat.lt_of_lt_of_le (own₁ effective (by simp)).lt_size (g₃ 0).size_le)).bind ?_
  rintro _ d₄ ⟨g₄, hscopes₄⟩
  have g : ∀ k, Grown ∅ ∅ k d₁ d₄ := fun k => (g₂ k).trans ((g₃ k).trans (g₄ k))
  have hscopes := hscopes₄.trans hscopes₃
  have hlt : d₁.tables.scopes.size < d₄.tables.scopes.size := hscopes ▸ lt_size_opening scope _
  have t₄ : d₀.Steps node.id e d₄ := t₁.step
    ((g _).weaken subset_rfl (Set.empty_subset _) (Nat.le_refl _)) (((g 0).frame node.id (by simp)).trans t₁.entry)
  have t₅ := t₄.put .scope (v := .scope ⟨d₁.tables.scopes.size⟩) hlt
  have g₅ : ∀ k, Grown ∅ {node.id.index} k d₄ (d₄.put (.scopeOf node.id) (.scope ⟨d₁.tables.scopes.size⟩)) :=
    fun k => grown_put t₄.grown.sound (Set.mem_singleton _) _ hlt
  have own₅ := fun id hid => ((own₁ id hid).later (g _)).later (g₅ _)
  have hfinds : d₄.tables.scopes.Finds ScopeTable.owner ⟨d₁.tables.scopes.size⟩ (some none) :=
    hscopes ▸ .here (ScopeTable.push_getElem? scope _) rfl
  refine reaches_bind (reaches_setAttribute (reaches_pure ⟨t₅.grown,
    ⟨opens_put (by rw [t₄.entry, hscope]) hlt, some none, hfinds, rfl⟩, ?_, fun st block body => ?_⟩))
  · simp only [List.forall_mem_cons]
    exact ⟨(own₅ written (by simp)).lt_size, (own₅ effective (by simp)).lt_size, fun id hid =>
      Nat.lt_of_lt_of_le (hsuper id hid) (g 0).size_le⟩
  · rw [t₅.entry]
    exact hleaves _ _ st block body own₅

theorem reaches_classHead (node : Node) (head : ClassHead) (t : d.Steps node.id {} d)
    (hs : scope.index < d.tables.scopes.size) :
    Reaches (classHead scope node head) d (ClassHeaded d node head) := by
  rw [classHead_eq]
  refine reaches_named node head.name t (by simp [DeclarationKind.mentions])
    (by simp [DeclarationKind.blank]) hs fun d₁ t₁ => ?_
  refine (reaches_superclasses node head.superclasses t₁.grown.sound
    (Nat.lt_of_lt_of_le hs t₁.grown.scopes.size_le)).bind ?_
  rintro found d₂ ⟨g₂, hfound⟩
  have t₂ := t₁.next (fun k => (g₂ k).weaken subset_rfl (Set.empty_subset _) (Nat.le_refl _))
    (((g₂ 0).frame node.id (by simp)).trans t₁.entry)
  have own₂ : d₂.Introduces node.id head.name (.cls {}) none none ⟨d.size⟩ := t₂.own
  split
  · exact reaches_openClass node head t₂.toSteps hs hfound (by simp) (by simpa using own₂) rfl
      fun d' inner st block body h => .cls (h _ (by simp))
  · refine reaches_named node head.name ⟨.refl t₂.grown.sound, t₂.entry⟩ ?_ (by simp [DeclarationKind.blank])
      (Nat.lt_of_lt_of_le hs t₂.grown.scopes.size_le) fun d₃ t₃ => ?_
    · simpa [DeclarationKind.mentions] using hfound
    have hle := t₂.grown.size_le
    refine reaches_openClass node head (t₂.toSteps.step (t₃.grown.weaken subset_rfl subset_rfl hle) t₃.entry) hs
      (fun id hid => Nat.lt_of_lt_of_le (hfound id hid) t₃.grown.size_le) (by simpa using hle) ?_ rfl
      fun d' inner st block body h => .subclass h
    simp only [List.forall_mem_cons]
    exact ⟨own₂.later t₃.grown, t₃.own, by simp⟩

end Walk

end ScriptAnalysis
