import ScriptAnalysis.Proofs.Typing.Walk.Framing

/-!
Where scopes and declarations come from, one case for each form of statement. The scopes of statements are
opened in the order of the text: the scope of an opener is set once, since no node is met twice, and what
opens scopes inside of it finds its scope there. A name is bound, and a function listed, only in the scope
of the surroundings that its declaration stands in, and the fields of a struct stand where the struct does
(`Walk.homes_stmt`). So the scope of a binding tells in which statement its declaration is.
-/
namespace ScriptAnalysis

namespace Draft

/-- A declaration is built in, or at one of the sites, in surroundings that open the scope. -/
def LivesIn (d : Draft) (l : List Site) (id : DeclId) (scope : ScopeId) : Prop :=
  id.index < Builtin.all.length ∨
    ∃ s ∈ l, id ∈ d.tables.declarations.idsAt s.id ∧ d.Opens s.setting.home scope

structure Homed (d : Draft) (l : List Site) : Prop where
  bindings : ∀ (i : Nat) (s : Scope), d.tables.scopes.scopes[i]? = some s → ∀ b ∈ s.bindings,
    d.LivesIn l b.2 ⟨i⟩
  signatures : ∀ s id, d.tables.signatures.get? s = some id → d.LivesIn l id s.scope
  fields : ∀ (i : Nat) (x : Declaration) fs, d.tables.declarations.items[i]? = some x →
    x.kind.fields? = some fs → ∀ f ∈ fs, ∃ scope, d.LivesIn l ⟨i⟩ scope ∧ d.LivesIn l f scope

structure Onward (d d' : Draft) : Prop where
  slots : d.attributes.Grows d'.attributes
  scopes : d.tables.scopes.size ≤ d'.tables.scopes.size
  nodes : ∀ n, ∀ id ∈ d.tables.declarations.idsAt n, id ∈ d'.tables.declarations.idsAt n

variable {d d₁ : Draft} {l : List Site} {id : DeclId} {scope : ScopeId} {top : NodeId}
  {ns : List (List Opener × Opener)}

theorem Onward.livesIn (h : d.Onward d₁) (hid : d.LivesIn l id scope) : d₁.LivesIn l id scope :=
  hid.imp_right fun ⟨s, hs, hmem, hopens⟩ =>
    ⟨s, hs, h.nodes _ _ hmem, h.slots _ _ hopens.1, Nat.lt_of_lt_of_le hopens.2 h.scopes⟩

theorem Unfolds.onward (h : d.Unfolds top d₁ ns) : d.Onward d₁ := ⟨h.slots, h.scopes.size_le, h.nodes⟩

theorem Unfolds.livesIn (h : d.Unfolds top d₁ ns) (hid : d.LivesIn l id scope) : d₁.LivesIn l id scope :=
  h.onward.livesIn hid

namespace Homed

/-- Only what is new has to live somewhere. -/
theorem onward (h : d.Homed l) (ho : d.Onward d₁)
    (bindings : ∀ (i : Nat) (s : Scope), d₁.tables.scopes.scopes[i]? = some s → ∀ b ∈ s.bindings,
      (∃ s₀, d.tables.scopes.scopes[i]? = some s₀ ∧ b ∈ s₀.bindings) ∨ d₁.LivesIn l b.2 ⟨i⟩)
    (signatures : ∀ s id, d₁.tables.signatures.get? s = some id →
      d.tables.signatures.get? s = some id ∨ d₁.LivesIn l id s.scope)
    (fields : ∀ (i : Nat) (x : Declaration) fs, d₁.tables.declarations.items[i]? = some x →
      x.kind.fields? = some fs →
      (∃ y, d.tables.declarations.items[i]? = some y ∧ y.kind.fields? = some fs) ∨
        ∀ f ∈ fs, ∃ scope, d₁.LivesIn l ⟨i⟩ scope ∧ d₁.LivesIn l f scope) : d₁.Homed l where
  bindings i s hs b hb := by
    rcases bindings i s hs b hb with ⟨s₀, hs₀, hb⟩ | hlives
    · exact ho.livesIn (h.bindings i s₀ hs₀ b hb)
    · exact hlives
  signatures s id hid := by
    rcases signatures s id hid with hid | hlives
    · exact ho.livesIn (h.signatures s id hid)
    · exact hlives
  fields i x fs hx hfs f hf := by
    rcases fields i x fs hx hfs with ⟨y, hy, hfs⟩ | hlive
    · obtain ⟨scope, hi, hf⟩ := h.fields i y fs hy hfs f hf
      exact ⟨scope, ho.livesIn hi, ho.livesIn hf⟩
    · exact hlive f hf

theorem still (h : d.Homed l) (ht : d₁.tables = d.tables) (ho : d.Onward d₁) : d₁.Homed l :=
  h.onward ho (fun _ s hs _ hb => .inl ⟨s, ht ▸ hs, hb⟩) (fun _ _ hi => .inl (ht ▸ hi))
    fun _ x _ hx hfs => .inl ⟨x, ht ▸ hx, hfs⟩

theorem put (h : d.Homed l) (a : Attribute) (v : Value) : (d.put a v).Homed l :=
  h.still rfl (Unfolds.put a v : d.Unfolds ⟨0⟩ _ []).onward

theorem opening (h : d.Homed l) (kind : ScopeKind) : (d.opening scope kind).Homed l := by
  have hsize := (ScopeTable.extends_push (P := fun _ => True) (t := d.tables.scopes) scope kind).size_le
  refine h.onward ⟨.refl _, hsize, fun _ _ h => h⟩ (fun i s hs b hb => ?_) (fun _ _ hi => .inl hi)
    fun _ x _ hx hfs => .inl ⟨x, hx, hfs⟩
  rcases ScopeTable.mem_scopes_push hs with hs | ⟨_, rfl⟩
  · exact .inl ⟨s, hs, hb⟩
  · cases hb

/-- A declaration may be changed if its fields, should it get any, live where it does. -/
theorem modifying {f : Declaration → Declaration} {t : Declarations} (h : d.Homed l)
    (ht : d.tables.declarations.modify id f = .ok t) (hnode : ∀ x, (f x).node = x.node)
    (hfields : ∀ x fs, (f x).kind.fields? = some fs →
      x.kind.fields? = some fs ∨ ∃ scope, d.LivesIn l id scope ∧ ∀ g ∈ fs, d.LivesIn l g scope) :
    (d.withDeclarations t).Homed l := by
  have ho := ((Change.Makes.modifying ht).unfolds hnode : d.Unfolds ⟨0⟩ _ []).onward
  refine h.onward ho (fun _ s hs _ hb => .inl ⟨s, hs, hb⟩) (fun _ _ hi => .inl hi) fun i y fs hy hfs => ?_
  obtain ⟨x, hx, _, hu⟩ := Declarations.changes_of_modify ht
  simp only [Draft.withDeclarations, hu] at hy
  split at hy
  · next hi =>
    subst hi
    cases hy
    rcases hfields x fs hfs with hfs | ⟨scope, hi, hall⟩
    · exact .inl ⟨x, hx, hfs⟩
    · exact .inr fun g hg => ⟨scope, ho.livesIn hi, ho.livesIn (hall g hg)⟩
  · exact .inl ⟨y, hy, hfs⟩

end Homed

end Draft

namespace Walk

open Change (still_le_flat quiet_le_still)

variable {α β : Type} {l : List Site} {top : NodeId} {d d' : Draft} {scope : ScopeId} {id : DeclId}
  {ns os : List (List Opener × Opener)}

/-- From a draft on, a walk opens the scopes of the openers in their order, binds, lists and declares things
where they live, and comes to a result. -/
def Homes (l : List Site) (top : NodeId) (d : Draft) (m : Walk α) (ns : List (List Opener × Opener))
    (Q : α → Draft → Prop) : Prop :=
  ∀ a d', m d = .ok a d' → d.Unfolds top d' ns ∧ (d.Homed l → d'.Homed l) ∧ Q a d'

section Homes

variable {m : Walk α} {k : α → Walk β} {Q : α → Draft → Prop} {R : β → Draft → Prop}

theorem Homes.append (hm : Homes l top d m ns Q)
    (hk : ∀ a d₁, d.Unfolds top d₁ ns → Q a d₁ → Homes l top d₁ (k a) os R) :
    Homes l top d (m >>= k) (ns ++ os) R := by
  intro b d' h
  obtain ⟨a, d₁, h₁, h₂⟩ := bind_eq_ok.1 h
  obtain ⟨hunfolds, hhomed, hQ⟩ := hm a d₁ h₁
  obtain ⟨hunfolds', hhomed', hR⟩ := hk a d₁ hunfolds hQ b d' h₂
  exact ⟨hunfolds.append hunfolds', fun hd => hhomed' (hhomed hd), hR⟩

theorem Homes.flat (hm : Homes l top d m [] Q)
    (hk : ∀ a d₁, d.Unfolds top d₁ [] → Q a d₁ → Homes l top d₁ (k a) ns R) :
    Homes l top d (m >>= k) ns R := hm.append hk

theorem Homes.rest (hm : Homes l top d m ns Q)
    (hk : ∀ a d₁, d.Unfolds top d₁ ns → Q a d₁ → Homes l top d₁ (k a) [] R) :
    Homes l top d (m >>= k) ns R := by
  have h := hm.append hk
  rwa [List.append_nil] at h

theorem Homes.mono {Q' : α → Draft → Prop} (hm : Homes l top d m ns Q) (h : ∀ a d', Q a d' → Q' a d') :
    Homes l top d m ns Q' := by
  intro a d' hok
  obtain ⟨hunfolds, hhomed, hQ⟩ := hm a d' hok
  exact ⟨hunfolds, hhomed, h a d' hQ⟩

theorem Homes.adds {l' : List Site} (h : Homes l top d m ns Q) (hm : Adds l' m) :
    Homes l top d m ns fun a d' => Q a d' ∧ d.Later l' d' := by
  intro a d' hok
  obtain ⟨hunfolds, hhomed, hQ⟩ := h a d' hok
  exact ⟨hunfolds, hhomed, hQ, hm.later hok⟩

theorem homes_pure {a : α} (h : Q a d) : Homes l top d (pure a) [] Q := by
  rintro _ _ ⟨⟩
  exact ⟨.refl d, id, h⟩

theorem homes_still (hm : Does Change.Still m) : Homes l top d m [] fun _ _ => True := by
  intro a d' h
  have hunfolds : d.Unfolds top d' [] := (hm.mono still_le_flat).unfolds h
  have ht : d'.tables = d.tables := by
    refine hm.keeps (R := fun d d' => d'.tables = d.tables) (fun _ => rfl) (fun h h' => h'.trans h) ?_ h
    intro c d d' hc hmakes
    cases hmakes <;> first | rfl | exact hc.elim
  exact ⟨hunfolds, fun hd => hd.still ht hunfolds.onward, trivial⟩

theorem homes_oblige (node : Node) (goal : Goal) : Homes l top d (oblige node goal) [] fun _ _ => True :=
  homes_still (does_oblige trivial)

theorem homes_setAttribute (a : Attribute) (v : Value) :
    Homes l top d (setAttribute a v) [] fun _ _ => True :=
  homes_still (does_setAttribute trivial)

theorem homes_typeExpr (scope : ScopeId) (t : TypeExpr) :
    Homes l top d (typeExpr scope t) [] fun _ _ => True :=
  homes_still (does_typeExpr quiet_le_still scope t)

theorem homes_leaveBlock (node : Node) (body : List Stmt) :
    Homes l top d (leaveBlock node body) [] fun _ _ => True :=
  homes_still (does_leaveBlock quiet_le_still node body)

end Homes

section Changes

theorem homes_declareAt {s : Site} {node : Node} {name : String} {kind : DeclarationKind} (hs : s ∈ l)
    (hid : s.id = node.id) (hopens : d.Opens s.setting.home scope)
    (hkind : ∀ fs, kind.fields? = some fs → fs = []) :
    Homes l top d (declareAt node name kind) [] fun id d' => d'.LivesIn l id scope ∧
      id ∈ d'.tables.declarations.idsAt node.id ∧ d'.attributes = d.attributes := by
  rintro _ _ ⟨⟩
  let x : Declaration := { name, kind, node := some node.id, span := node.span }
  have hunfolds : d.Unfolds top (d.declaring x) [] := Change.Makes.unfolds .declaring trivial
  have hmem : (⟨d.size⟩ : DeclId) ∈ (d.declaring x).tables.declarations.idsAt node.id := by
    show _ ∈ (d.tables.declarations.add x).1.idsAt node.id
    rw [Declarations.idsAt_add, if_pos rfl]
    exact List.mem_append_right _ (List.mem_singleton_self _)
  refine ⟨hunfolds, fun hd => hd.onward hunfolds.onward (fun _ s hs _ hb => .inl ⟨s, hs, hb⟩)
    (fun _ _ hi => .inl hi) fun i y fs hy hfs => ?_, .inr ⟨s, hs, by rw [hid]; exact hmem, hunfolds.opens hopens⟩, hmem, rfl⟩
  change (Declarations.add d.tables.declarations _).1.items[i]? = some y at hy
  rw [Declarations.add_getElem?] at hy
  split at hy
  · cases hy
    rw [hkind fs hfs]
    exact .inr fun f hf => nomatch hf
  · exact .inl ⟨y, hy, hfs⟩

theorem homes_bindName (name : String) (hid : d.LivesIn l id scope) :
    Homes l top d (bindName scope name id) [] fun _ d' => d'.attributes = d.attributes := by
  intro a d' h
  obtain ⟨t, ht, rfl⟩ := bindName_eq_ok h
  have hunfolds : d.Unfolds top _ [] := Change.Makes.unfolds (.binding ht) trivial
  refine ⟨hunfolds, fun hd => hd.onward hunfolds.onward (fun i y hy b hb => ?_) (fun _ _ hi => .inl hi)
    fun _ y _ hy hfs => .inl ⟨y, hy, hfs⟩, rfl⟩
  obtain ⟨x, hx, _, hu⟩ := ScopeTable.binds_of_declare ht
  simp only [Draft.withScopes, hu] at hy
  split at hy
  · next hi =>
    cases hy
    rcases List.mem_cons.1 hb with rfl | hb
    · rw [hi]
      exact .inr (hunfolds.livesIn hid)
    · exact .inl ⟨x, hi ▸ hx, hb⟩
  · exact .inl ⟨y, hy, hb⟩

theorem homes_registerSignature (s : Signature) (hid : d.LivesIn l id s.scope) :
    Homes l top d (registerSignature s id) [] fun _ d' => d'.attributes = d.attributes := by
  rintro _ _ ⟨⟩
  have hunfolds : d.Unfolds top (d.listing s id) [] := Change.Makes.unfolds .listing trivial
  refine ⟨hunfolds, fun hd => hd.onward hunfolds.onward (fun _ s hs _ hb => .inl ⟨s, hs, hb⟩)
    (fun u i hi => ?_) fun _ y _ hy hfs => .inl ⟨y, hy, hfs⟩, rfl⟩
  rcases Signatures.eq_of_register hi with ⟨rfl, rfl⟩ | hi
  · exact .inr (hunfolds.livesIn hid)
  · exact .inl hi

theorem homes_modifyDeclaration {f : Declaration → Declaration} (hnode : ∀ x, (f x).node = x.node)
    (hfields : ∀ x fs, (f x).kind.fields? = some fs →
      x.kind.fields? = some fs ∨ ∃ scope, d.LivesIn l id scope ∧ ∀ g ∈ fs, d.LivesIn l g scope) :
    Homes l top d (modifyDeclaration id f) [] fun _ _ => True := by
  intro a d' h
  obtain ⟨t, ht, rfl⟩ := modifyDeclaration_eq_ok h
  exact ⟨(Change.Makes.modifying ht).unfolds hnode, fun hd => hd.modifying ht hnode hfields, trivial⟩

theorem homes_mapM {f : α → Walk β} {P : Draft → Prop} {Q : β → Draft → Prop}
    (hP : ∀ {d d₁ : Draft}, d.Unfolds top d₁ [] → P d → P d₁)
    (hQ : ∀ b (d d₁ : Draft), d.Unfolds top d₁ [] → Q b d → Q b d₁) :
    ∀ {as : List α} {d : Draft}, (∀ a ∈ as, ∀ d, P d → Homes l top d (f a) [] Q) → P d →
      Homes l top d (as.mapM f) [] fun bs d' => ∀ b ∈ bs, Q b d'
  | [], d, _, _ => homes_pure (by simp)
  | a :: as, d, h, hd => by
    rw [List.mapM_cons]
    refine (h a (by simp) d hd).flat fun b d₁ h₁ hb => ?_
    refine (homes_mapM hP hQ (fun a ha => h a (List.mem_cons_of_mem _ ha)) (hP h₁ hd)).flat
      fun bs d₂ h₂ hbs => homes_pure ?_
    simpa using ⟨hQ b _ _ h₂ hb, hbs⟩

end Changes

section Binders

variable {s : Site} {b : Binder}

/-- A written type, and the declaration of the name that it is written for. -/
theorem homes_binder {kind : DeclarationKind} {k : DeclId → Walk β} {R : β → Draft → Prop} (hs : s ∈ l)
    (hid : s.id = b.node.id) (hopens : d.Opens s.setting.home scope) (hkind : kind.fields? = none)
    (hk : ∀ id d', d.Unfolds top d' [] → d'.LivesIn l id scope → Homes l top d' (k id) [] R) :
    Homes l top d (do
      typeExpr scope b.type
      k (← declareAt b.node b.name kind)) [] R := by
  refine (homes_typeExpr scope b.type).flat fun _ d₁ h₁ _ => ?_
  exact (homes_declareAt hs hid (h₁.opens hopens) (by simp [hkind])).flat fun id d₂ h₂ hlives =>
    hk id d₂ (h₁.flat h₂) hlives.1

theorem homes_field (bound : Bool) (hs : s ∈ l) (hid : s.id = b.node.id)
    (hopens : d.Opens s.setting.home scope) :
    Homes l top d (field scope b bound) [] fun id d' => d'.LivesIn l id scope := by
  refine homes_binder hs hid hopens rfl fun id d₁ _ hlives => ?_
  cases bound with
  | false => exact (homes_oblige _ _).flat fun _ d₂ h₂ _ => homes_pure (h₂.livesIn hlives)
  | true =>
    exact (homes_bindName b.name hlives).flat fun _ d₂ h₂ _ =>
      (homes_oblige _ _).flat fun _ d₃ h₃ _ => homes_pure (h₃.livesIn (h₂.livesIn hlives))

theorem homes_parameter (hs : s ∈ l) (hid : s.id = b.node.id) (hopens : d.Opens s.setting.home scope) :
    Homes l top d (parameter scope b) [] fun _ _ => True :=
  homes_binder hs hid hopens rfl fun _ _ _ hlives => (homes_bindName b.name hlives).flat fun _ _ _ _ =>
    (homes_oblige _ _).flat fun _ _ _ _ => homes_pure trivial

theorem homes_typeParameter (hs : s ∈ l) (hid : s.id = b.node.id) (hopens : d.Opens s.setting.home scope) :
    Homes l top d (typeParameter scope b) [] fun _ _ => True :=
  homes_binder hs hid hopens rfl fun _ _ _ hlives => (homes_bindName b.name hlives).flat fun _ _ _ _ =>
    (homes_setAttribute _ _).flat fun _ _ _ _ => (homes_setAttribute _ _).flat fun _ _ _ _ =>
    homes_pure trivial

theorem homes_variableDecl {value : Expr} (hs : s ∈ l) (hid : s.id = b.node.id)
    (hopens : d.Opens s.setting.home scope) :
    Homes l top d (variableDecl reference scope b value) [] fun _ _ => True :=
  homes_binder hs hid hopens rfl fun id _ _ hlives =>
    (homes_still (does_expr scope value (.variable id))).flat fun _ _ h₂ _ =>
    (homes_bindName b.name (h₂.livesIn hlives)).flat fun _ _ _ _ =>
    (homes_oblige _ _).flat fun _ _ _ _ => homes_oblige _ _

/-- Names with written types, each walked in the scope of their surroundings. -/
theorem homes_binders {f : Binder → Walk DeclId} {st : Setting} {sort : BinderSort} {bs : List Binder}
    {Q : DeclId → Draft → Prop} (hQ : ∀ id (d d₁ : Draft), d.Unfolds top d₁ [] → Q id d → Q id d₁)
    (hf : ∀ {d : Draft} {s : Site} {b : Binder}, s ∈ l → s.id = b.node.id → d.Opens s.setting.home scope →
      Homes l top d (f b) [] Q)
    (hl : Binder.sitesAll st sort bs ⊆ l) (hopens : d.Opens st.home scope) :
    Homes l top d (bs.mapM f) [] fun ids d' => ∀ id ∈ ids, Q id d' :=
  homes_mapM (P := (·.Opens st.home scope)) (fun h => h.opens) hQ (fun b hb _ hd =>
    hf (s := ⟨st, .binder sort b⟩) (hl (Binder.mem_sitesAll st sort hb)) rfl hd) hopens

end Binders

section Heads

variable {self : Site} {node : Node} {around : List Opener} {o : Opener}

theorem homes_openBody (hscope : d.Opens (Opener.home top around) scope)
    (hid : id ∈ d.tables.declarations.idsAt node.id) (hkind : o.kind = .function ∨ o.kind = .template)
    (hnode : o.node = node.id) (hfresh : d.attributes.slot? (.scopeOf node.id) = none) :
    Homes l top d (openBody scope node id) [(around, { o with body := o.node })] fun inner _ =>
      inner = ⟨d.tables.scopes.size⟩ := by
  intro inner d' h
  obtain ⟨_, _, hopen, h⟩ := bind_eq_ok.1 h
  cases hopen
  obtain ⟨_, d₂, hmodify, h⟩ := bind_eq_ok.1 h
  obtain ⟨t, ht, rfl⟩ := modifyDeclaration_eq_ok hmodify
  have hflat : Draft.Unfolds top _ _ [] := (Change.Makes.modifying ht).unfolds fun _ => rfl
  cases h
  rw [← hnode] at hid hfresh ⊢
  refine ⟨Draft.unfolds_open hscope hflat ?_ hfresh, fun hd => ?_, rfl⟩
  · have howned := hflat.nodes _ id hid
    unfold Opener.Owns
    rcases hkind with hkind | hkind <;> rw [hkind] <;> exact ⟨id, howned, rfl⟩
  · exact ((hd.opening (.function id)).modifying ht (fun _ => rfl) fun _ _ => .inl).put _ _

theorem homes_functionHead {head : FunctionHead} (block : Node) (hself : self ∈ l) (hid : self.id = node.id)
    (hhome : self.setting.home = Opener.home top around) (hopens : d.Opens (Opener.home top around) scope)
    (hfresh : d.attributes.slot? (.scopeOf node.id) = none)
    (hl : Binder.sitesAll (head.setting node) .parameter head.parameters ⊆ l) :
    Homes l top d (functionHead scope node head)
      [(around, { Opener.ofFunction node head block with body := node.id })] fun inner _ =>
      inner = ⟨d.tables.scopes.size⟩ := by
  refine (homes_declareAt hself hid (hhome ▸ hopens) (by simp [DeclarationKind.fields?])).flat ?_
  rintro id d₁ h₁ ⟨hlives, hmem, hattributes₁⟩
  refine (homes_bindName _ hlives).flat fun _ d₂ h₂ hattributes₂ => ?_
  refine (homes_registerSignature _ (h₂.livesIn hlives)).flat fun _ d₃ h₃ hattributes₃ => ?_
  have hflat := h₁.flat (h₂.flat h₃)
  refine (homes_openBody (o := .ofFunction node head block) (hflat.opens hopens)
    ((h₂.flat h₃).nodes _ _ hmem) (.inl rfl) rfl
    (by rw [hattributes₃, hattributes₂, hattributes₁, hfresh])).rest fun inner d₄ h₄ hinner => ?_
  have hin : d₄.Opens node.id inner := hinner ▸ (h₄.lays 0 _ rfl).node
  refine (homes_binders (Q := fun _ _ => True) (fun _ _ _ _ _ => trivial) homes_parameter hl hin).flat
    fun _ d₅ _ _ => ?_
  refine (homes_typeExpr inner head.result).flat fun _ d₆ _ _ => ?_
  refine (homes_modifyDeclaration ?_ ?_).flat fun _ d₇ _ _ => ?_
  · exact fun _ => rfl
  · intro _ _ hfs
    cases hfs
  exact (homes_oblige _ _).flat fun _ d₈ _ _ => homes_pure (hinner.trans (congrArg ScopeId.mk hflat.size))

theorem homes_templateHead {head : TemplateHead} (block : Node) (hself : self ∈ l) (hid : self.id = node.id)
    (hhome : self.setting.home = Opener.home top around) (hopens : d.Opens (Opener.home top around) scope)
    (hfresh : d.attributes.slot? (.scopeOf node.id) = none)
    (htypes : Binder.sitesAll (head.setting node) .typeParameter head.typeParameters ⊆ l)
    (hl : Binder.sitesAll (head.setting node) .parameter head.parameters ⊆ l) :
    Homes l top d (templateHead scope node head)
      [(around, { Opener.ofTemplate node head block with body := node.id })] fun inner _ =>
      inner = ⟨d.tables.scopes.size⟩ := by
  refine (homes_declareAt hself hid (hhome ▸ hopens) (by simp [DeclarationKind.fields?])).flat ?_
  rintro id d₁ h₁ ⟨hlives, hmem, hattributes₁⟩
  refine (homes_bindName _ hlives).flat fun _ d₂ h₂ hattributes₂ => ?_
  have hflat := h₁.flat h₂
  refine (homes_openBody (o := .ofTemplate node head block) (hflat.opens hopens) (h₂.nodes _ _ hmem)
    (.inr rfl) rfl (by rw [hattributes₂, hattributes₁, hfresh])).rest fun inner d₃ h₃ hinner => ?_
  have hin : d₃.Opens node.id inner := hinner ▸ (h₃.lays 0 _ rfl).node
  refine (homes_binders (Q := fun _ _ => True) (fun _ _ _ _ _ => trivial) homes_typeParameter htypes hin).flat
    fun _ d₄ h₄ _ => ?_
  refine (homes_binders (Q := fun _ _ => True) (fun _ _ _ _ _ => trivial) homes_parameter hl (h₄.opens hin)).flat
    fun _ d₅ _ _ => ?_
  refine (homes_typeExpr inner head.result).flat fun _ d₆ _ _ => ?_
  refine (homes_modifyDeclaration ?_ ?_).flat fun _ d₇ _ _ => ?_
  · exact fun _ => rfl
  · intro _ _ hfs
    cases hfs
  exact (homes_oblige _ _).flat fun _ d₈ _ _ => homes_pure (hinner.trans (congrArg ScopeId.mk hflat.size))

theorem homes_struct {name : String} {fields : List Binder} (hself : self ∈ l) (hid : self.id = node.id)
    (hopens : d.Opens self.setting.home scope) (hl : Binder.sitesAll self.setting .field fields ⊆ l) :
    Homes l top d (struct scope node name fields) [] fun _ _ => True := by
  refine (homes_declareAt hself hid hopens (by simp [DeclarationKind.fields?])).flat ?_
  rintro id d₁ h₁ ⟨hlives, _⟩
  refine (homes_bindName name hlives).flat fun _ d₂ h₂ _ => ?_
  refine (homes_setAttribute _ _).flat fun _ d₃ h₃ _ => ?_
  refine (homes_setAttribute _ _).flat fun _ d₄ h₄ _ => ?_
  have hflat := h₂.flat (h₃.flat h₄)
  refine (homes_binders (Q := fun id d => d.LivesIn l id scope) (fun _ _ _ h => h.livesIn) (homes_field false) hl
    ((h₁.flat hflat).opens hopens)).flat fun ids d₅ h₅ hids => ?_
  refine homes_modifyDeclaration (fun _ => rfl) fun x fs hfs => ?_
  cases hfs
  exact .inr ⟨scope, (hflat.flat h₅).livesIn hlives, hids⟩

theorem homes_openClass {head : ClassHead} {written effective : DeclId} {superclasses : List DeclId}
    (block : Node) (hscope : d.Opens (Opener.home top around) scope)
    (hid : effective ∈ d.tables.declarations.idsAt node.id)
    (hfresh : d.attributes.slot? (.scopeOf node.id) = none) :
    Homes l top d (openClass scope node head superclasses written effective)
      [(around, { Opener.ofClass node block with body := node.id })] fun c _ =>
      c.scope = ⟨d.tables.scopes.size⟩ := by
  have hset : Homes l top d (do
      for id in [written, effective] do
        setAttribute (.typeOfDecl id) (.type .type)
        setAttribute (.declaredBy id) (.type (.composite .cls ⟨effective, head.name⟩))) []
      fun _ d' => d.Later [] d' := by
    simp only [List.forIn_cons, List.forIn_nil, bind_assoc, pure_bind]
    refine (Homes.adds (homes_still ?_) ?_).mono fun _ _ h => h.2
    · exact (does_setAttribute trivial).bind fun _ => (does_setAttribute trivial).bind fun _ =>
        (does_setAttribute trivial).bind fun _ => (does_setAttribute trivial).bind fun _ => does_pure _
    · exact (adds_setAttribute _ _ rfl).bind fun _ => (adds_setAttribute _ _ rfl).bind fun _ =>
        (adds_setAttribute _ _ rfl).bind fun _ => (adds_setAttribute _ _ rfl).bind fun _ => does_pure _
  refine hset.flat fun _ d₁ h₁ hlater => ?_
  intro c d' h
  obtain ⟨_, _, hopen, h⟩ := bind_eq_ok.1 h
  cases hopen
  obtain ⟨_, d₂, hwritten, h⟩ := bind_eq_ok.1 h
  obtain ⟨t, ht, rfl⟩ := modifyDeclaration_eq_ok hwritten
  obtain ⟨_, d₃, heffective, h⟩ := bind_eq_ok.1 h
  obtain ⟨u, hu, rfl⟩ := modifyDeclaration_eq_ok heffective
  have hopened := ((Change.Makes.modifying ht).unfolds fun _ => rfl : Draft.Unfolds top _ _ []).flat
    ((Change.Makes.modifying hu).unfolds fun _ => rfl)
  cases h
  refine ⟨Draft.unfolds_open (o := .ofClass node block) (h₁.opens hscope) hopened
    ⟨effective, hopened.nodes _ _ (h₁.nodes _ _ hid), rfl⟩ ?_, fun hd => ?_, congrArg ScopeId.mk h₁.size⟩
  · exact (hlater.bindings node.id .scope rfl (by simp)).trans hfresh
  · exact (((hd.opening (.cls effective)).modifying ht (fun _ => rfl) fun _ _ => .inl).modifying hu
      (fun _ => rfl) fun _ _ => .inl).put _ _

theorem homes_superclasses {sups : List Superclass} : Homes l top d (sups.mapM (superclass scope node)) []
    fun _ d' => d'.attributes = d.attributes := by
  have htell : Does (fun c => ∃ x, c = .tell x) (sups.mapM (superclass scope node)) :=
    does_mapM (fun _ => does_superclass scope fun _ _ _ => ⟨_, rfl⟩) sups
  intro a d' h
  have hstill : Homes l top d _ [] _ := homes_still (htell.mono fun _ ⟨_, hc⟩ => hc ▸ trivial)
  obtain ⟨hunfolds, hhomed, _⟩ := hstill a d' h
  refine ⟨hunfolds, hhomed, htell.keeps (R := fun d d' => d'.attributes = d.attributes) (fun _ => rfl)
    (fun h h' => h'.trans h) ?_ h⟩
  rintro _ _ _ ⟨x, rfl⟩ ⟨⟩
  rfl

theorem homes_classHead {head : ClassHead} (block : Node) (hself : self ∈ l) (hid : self.id = node.id)
    (hhome : self.setting.home = Opener.home top around) (hopens : d.Opens (Opener.home top around) scope)
    (hfresh : d.attributes.slot? (.scopeOf node.id) = none) :
    Homes l top d (classHead scope node head)
      [(around, { Opener.ofClass node block with body := node.id })] fun c _ =>
      c.scope = ⟨d.tables.scopes.size⟩ := by
  rw [classHead_eq]
  refine (homes_declareAt hself hid (hhome ▸ hopens) (by simp [DeclarationKind.fields?])).flat ?_
  rintro written d₁ h₁ ⟨hlives, hmem, hattributes₁⟩
  refine (homes_bindName _ hlives).flat fun _ d₂ h₂ hattributes₂ => ?_
  refine homes_superclasses.flat fun found d₃ h₃ hattributes₃ => ?_
  have hflat := h₁.flat (h₂.flat h₃)
  have hunset : d₃.attributes.slot? (.scopeOf node.id) = none := by
    rw [hattributes₃, hattributes₂, hattributes₁, hfresh]
  split
  · exact (homes_openClass block (hflat.opens hopens) ((h₂.flat h₃).nodes _ _ hmem) hunset).mono
      fun c _ hc => hc.trans (congrArg ScopeId.mk hflat.size)
  · refine (homes_declareAt hself hid (hhome ▸ hflat.opens hopens) (by simp [DeclarationKind.fields?])).flat ?_
    rintro effective d₄ h₄ ⟨hlives', hmem', hattributes₄⟩
    refine (homes_bindName _ hlives').flat fun _ d₅ h₅ hattributes₅ => ?_
    have hflat' := hflat.flat (h₄.flat h₅)
    exact (homes_openClass block (hflat'.opens hopens) (h₅.nodes _ _ hmem')
      (by rw [hattributes₅, hattributes₄, hunset])).mono
      fun c _ hc => hc.trans (congrArg ScopeId.mk hflat'.size)

theorem homes_setMembers (id : DeclId) (own members : List DeclId) :
    Homes l top d (setMembers id own members) [] fun _ _ => True := by
  refine homes_modifyDeclaration (fun x => ?_) fun x fs hfs => ?_
  · split <;> rfl
  · split at hfs
    · cases hfs
    · exact .inl hfs

theorem homes_classMembers (c : OpenClass) (body : List Stmt) :
    Homes l top d (classMembers c body) [] fun _ _ => True := by
  refine (homes_still does_get).flat fun _ _ _ _ => ?_
  refine (homes_still (does_mapM (fun id => ?_) _)).flat fun _ _ _ _ => ?_
  · exact (does_declaration id).bind fun _ => does_pure _
  · exact (homes_setMembers _ _ _).flat fun _ _ _ _ => homes_setMembers _ _ _

end Heads

section Bodies

variable {sites : List Site} {block : Node} {body : List Stmt} {around : List Opener} {o : Opener}

theorem homes_condition (st : Setting) (scope : ScopeId) (e : Expr) (word : String) :
    Homes l top d (condition reference scope e word) [] fun _ d' =>
      d.Later (e.sites st (.condition word)) d' :=
  ((homes_still (does_condition scope e word)).adds
    (breaks_condition (n := st.home) e word scope).adds).mono fun _ _ h => h.2

/-- An opener with a head, its body, and what is done at its end. The sites are those in the body. -/
theorem homes_opener (self entry : Site) {head : Walk α} (scopeOf : α → ScopeId) {rest : α → Walk Unit}
    (hhead : Homes l top d head [(around, { o with body := o.node })] fun a _ =>
      scopeOf a = ⟨d.tables.scopes.size⟩)
    (hadds : Adds [self] head) (h : d.Ahead l (sites ++ [entry] ++ [self])) (hentry : o.body = entry.id)
    (hblock : entry.id = block.id)
    (ih : ∀ {inner : ScopeId} {d : Draft}, d.Opens o.node inner → d.Ahead l sites →
      Homes l top d (stmts reference inner body) ns fun _ _ => True)
    (hrest : ∀ a {d : Draft}, Homes l top d (rest a) [] fun _ _ => True) :
    Homes l top d (head >>= fun a => do
      enterBlock (scopeOf a) block
      stmts reference (scopeOf a) body
      leaveBlock block body
      rest a) ((around, o) :: ns) fun _ _ => True := by
  intro a d' hok
  obtain ⟨a, d₁, hok₁, hok⟩ := bind_eq_ok.1 hok
  obtain ⟨hunfolds, hhomed, hscope⟩ := hhead a d₁ hok₁
  have h₁ := h.before (hadds.later hok₁)
  obtain ⟨_, _, henter, hok⟩ := bind_eq_ok.1 hok
  have h₂ := h₁.before ((adds_enterBlock (scopeOf a) (List.mem_singleton_self entry) hblock.symm).later henter)
  cases henter
  have hentered : d.Unfolds top (d₁.put (.scopeOf block.id) (.scope (scopeOf a))) [(around, o)] := by
    rw [hscope]
    exact hunfolds.enter (hentry.trans hblock) (hblock ▸ h₁.right.fresh entry (List.mem_singleton_self _))
  have hopens : (d₁.put (.scopeOf block.id) (.scope (scopeOf a))).Opens o.node (scopeOf a) :=
    hscope ▸ (hentered.lays 0 _ rfl).node
  obtain ⟨hbody, hhomed', _⟩ := ((ih hopens h₂).rest
    fun _ _ _ _ => (homes_leaveBlock block body).flat fun _ _ _ _ => hrest a) () d' hok
  exact ⟨hentered.append hbody, fun hd => hhomed' ((hhomed hd).put _ _), trivial⟩

end Bodies

mutual

/-- A walk over a statement opens the scopes of the openers in it, and binds and lists things where they
live. -/
theorem homes_stmt : ∀ (x : Stmt) (around : List Opener) (st : Setting) {scope : ScopeId} {d : Draft},
    st.home = Opener.home top around → d.Opens (Opener.home top around) scope → d.Ahead l (x.sites st) →
    Homes l top d (stmt reference scope x) (Nested.openings (x.nested around)) fun _ _ => True
  | .block node body, around, st, scope, d, hhome, hopens, h => by
    rw [Stmt.nested, openings_cons_some rfl]
    rw [Stmt.sites] at h
    intro a d' hok
    obtain ⟨_, _, hopen, hok⟩ := bind_eq_ok.1 hok
    cases hopen
    have hunset := h.right.fresh _ (List.mem_singleton_self _)
    replace h : (d.opening scope .block).Ahead l _ := ⟨h.within, h.distinct, h.fresh⟩
    obtain ⟨_, _, henter, hok⟩ := bind_eq_ok.1 hok
    have h₁ := h.before ((adds_enterBlock _ (List.mem_singleton_self _) rfl).later henter)
    cases henter
    have hopened : d.Unfolds top _ [(around, Opener.ofBlock node)] :=
      Draft.unfolds_open (o := .ofBlock node) hopens (.refl (d.opening scope .block)) rfl hunset
    obtain ⟨hwalk, hhomed, _⟩ := ((homes_stmts body (.ofBlock node :: around) ⟨node.id, st.result⟩ rfl
      (hopened.lays 0 _ rfl).node h₁).rest fun _ _ _ _ => homes_leaveBlock node body) () d' hok
    exact ⟨hopened.append hwalk, fun hd => hhomed ((hd.opening .block).put _ _), trivial⟩
  | .function node head inner body, around, st, scope, d, hhome, hopens, h => by
    rw [Stmt.nested, openings_cons_some rfl]
    have hself := Stmt.mem_sites st (.function node head inner body)
    exact homes_opener (o := .ofFunction node head inner) ⟨st, .stmt (.function node head inner body)⟩
      ⟨head.setting node, .body inner body⟩ id
      (homes_functionHead inner (h.within hself) rfl hhome hopens (h.fresh _ hself) h.left.left.left.left.within)
      (adds_functionHead scope (List.mem_singleton_self _) rfl head)
      (by simp only [Stmt.sites, List.append_assoc] at h ⊢; exact h.right.right) rfl rfl
      (fun hin => homes_stmts body _ (head.setting node) rfl hin) fun _ => homes_oblige _ _
  | .template node head inner body, around, st, scope, d, hhome, hopens, h => by
    rw [Stmt.nested, openings_cons_some rfl]
    have hself := Stmt.mem_sites st (.template node head inner body)
    have hhead := h.left.left.left.left
    exact homes_opener (o := .ofTemplate node head inner) ⟨st, .stmt (.template node head inner body)⟩
      ⟨head.setting node, .body inner body⟩ id
      (homes_templateHead inner (h.within hself) rfl hhome hopens (h.fresh _ hself) hhead.left.within
        hhead.right.within)
      (adds_templateHead scope (List.mem_singleton_self _) rfl head)
      (by simp only [Stmt.sites, List.append_assoc] at h ⊢; exact h.right.right.right) rfl rfl
      (fun hin => homes_stmts body _ (head.setting node) rfl hin) fun _ => homes_oblige _ _
  | .cls node head inner body, around, st, scope, d, hhome, hopens, h => by
    rw [Stmt.nested, openings_cons_some rfl]
    have hself := Stmt.mem_sites st (.cls node head inner body)
    exact homes_opener (o := .ofClass node inner) ⟨st, .stmt (.cls node head inner body)⟩
      ⟨⟨node.id, none⟩, .body inner body⟩ OpenClass.scope
      (homes_classHead inner (h.within hself) rfl hhome hopens (h.fresh _ hself))
      (adds_classHead scope (List.mem_singleton_self _) (Site.finds_class st inner body) rfl head) h rfl rfl
      (fun hin => homes_stmts body _ ⟨node.id, none⟩ rfl hin) fun c => homes_classMembers c body
  | .ifThen node e thenBody, around, st, scope, d, hhome, hopens, h => by
    rw [Stmt.nested, openings_cons_none rfl]
    refine (homes_condition st scope e "If").flat fun _ d₁ h₁ hlater => ?_
    exact (homes_stmt thenBody around st hhome (h₁.opens hopens) (h.left.past hlater)).rest
      fun _ _ _ _ => homes_setAttribute _ _
  | .ifElse node e thenBody elseBody, around, st, scope, d, hhome, hopens, h => by
    rw [Stmt.nested, openings_cons_none rfl, openings_append]
    simp only [Stmt.sites, List.append_assoc] at h
    refine (homes_condition st scope e "If").flat fun _ d₁ h₁ hlater => ?_
    replace h := h.past hlater
    refine ((homes_stmt thenBody around st hhome (h₁.opens hopens) h.left).adds
      (breaks_stmt (n := node.id) thenBody st scope).adds).append fun _ d₂ h₂ ⟨_, hlater'⟩ => ?_
    refine (homes_stmt elseBody around st hhome ((h₁.flat h₂).opens hopens)
      (h.past hlater').left).rest fun _ _ _ _ => ?_
    split
    · exact homes_oblige _ _
    · exact homes_setAttribute _ _
  | .loop node e body, around, st, scope, d, hhome, hopens, h => by
    rw [Stmt.nested, openings_cons_none rfl]
    refine (homes_condition st scope e "While").flat fun _ d₁ h₁ hlater => ?_
    exact homes_stmt body around st hhome (h₁.opens hopens) (h.left.past hlater)
  | .variable b value, _, st, scope, d, hhome, hopens, h =>
    homes_variableDecl (h.within (Stmt.mem_sites st (.variable b value))) rfl (hhome ▸ hopens)
  | .field b, _, st, scope, d, hhome, hopens, h =>
    (homes_field true (h.within (Stmt.mem_sites st (.field b))) rfl (hhome ▸ hopens)).flat
      fun _ _ _ _ => homes_pure trivial
  | .struct node name fields, _, st, scope, d, hhome, hopens, h =>
    homes_struct (h.within (Stmt.mem_sites st (.struct node name fields))) rfl (hhome ▸ hopens) h.left.within
  | .ret node value, _, _, scope, _, _, _, _ => homes_still (does_ret scope node value)
  | .action _ e, _, _, scope, _, _, _, _ => homes_still (does_expr scope e .free)

theorem homes_stmts : ∀ (body : List Stmt) (around : List Opener) (st : Setting) {scope : ScopeId}
    {d : Draft}, st.home = Opener.home top around → d.Opens (Opener.home top around) scope →
    d.Ahead l (Stmt.sitesAll st body) →
    Homes l top d (stmts reference scope body) (Nested.openings (Stmt.nestedAll around body)) fun _ _ => True
  | [], _, _, _, _, _, _, _ => homes_pure trivial
  | x :: rest, around, st, scope, d, hhome, hopens, h => by
    rw [Stmt.nestedAll, openings_append]
    rw [Stmt.sitesAll] at h
    exact ((homes_stmt x around st hhome hopens h.left).adds
      (breaks_stmt (n := st.home) x st scope).adds).append fun _ d₁ h₁ ⟨_, hadds⟩ =>
      homes_stmts rest around st hhome (h₁.opens hopens) (h.past hadds)

end

end Walk

end ScriptAnalysis
