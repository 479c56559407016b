import ScriptAnalysis.Proofs.Typing.Evaluation
import ScriptAnalysis.Proofs.Typing.Walk.Changes

/-!
Drafts that come one after another. What a walk has said stays, and it binds and reports only at the sites
it comes to (`Draft.Later`). Every part of a walk adds to its draft in this way (`Walk.Adds`).
-/
namespace ScriptAnalysis

theorem ScopeTable.extends_of_declare {t u : ScopeTable} {id : ScopeId} {name : String} {d : DeclId}
    (h : t.declare id name d = .ok u) : t.Extends (fun _ => True) u := by
  cases hs : t.get id with
  | error f =>
    simp only [declare, hs] at h
    cases h
  | ok s =>
    obtain ⟨u', hu', hbinds⟩ := declare_eq_ok (lt_size_of_getElem? (get_eq_ok.1 hs)) name d
    rw [h] at hu'
    cases hu'
    exact hbinds.extends trivial

/-- Whether something can be told of a site before any type is known: of a literal that nothing tells its
type, of a class that a name behind `from` is not that of a class. -/
def Site.finds (s : Site) (c : Cause) : Bool :=
  match s.part with
  | .expr _ (.literal _ _ _) => c.isGap
  | .stmt (.cls _ _ _ _) => c.isEarly && !c.isGap
  | _ => false

theorem Site.finds_class {node : Node} {head : ClassHead} (st : Setting) (inner : Node) (body : List Stmt)
    (c : Cause) (hc : c.isEarly = true) (hg : c.isGap = false) :
    Site.finds ⟨st, .stmt (.cls node head inner body)⟩ c = true := by
  simp [finds, hc, hg]

theorem Site.early_of_finds {s : Site} {c : Cause} (h : s.finds c = true) :
    c.isEarly = true ∧ s.reference? = none := by
  unfold finds at h
  unfold reference?
  split at h
  · next hpart =>
    rw [hpart]
    cases c <;> simp_all [Cause.isGap, Cause.isEarly]
  · next hpart =>
    rw [hpart]
    exact ⟨(Bool.and_eq_true_iff.1 h).1, rfl⟩
  · cases h

/-- A draft that comes after another: slots, scopes and obligations stay, only sites of the list are bound
or open scopes anew, and what is told besides is about sites of the list and needs no types. -/
structure Draft.Later (l : List Site) (d d' : Draft) : Prop where
  slots : d.attributes.Grows d'.attributes
  bindings : ∀ n κ, AttributeKind.isBinding κ = true → (∀ s ∈ l, s.id ≠ n) →
    d'.attributes.slot? ⟨.node n, κ⟩ = d.attributes.slot? ⟨.node n, κ⟩
  scopes : d.tables.scopes.Extends (fun _ => True) d'.tables.scopes
  obligations : ∀ o ∈ d.obligations.toList, o ∈ d'.obligations.toList
  told : ∀ x ∈ d'.diagnostics, x ∈ d.diagnostics ∨
    ∃ s ∈ l, s.finds x.cause = true ∧ x.node = some s.id

namespace Draft.Later

variable {l l' : List Site} {d d₁ d₂ : Draft}

theorem refl (d : Draft) : d.Later l d :=
  ⟨.refl _, fun _ _ _ _ => rfl, .refl _ _, fun _ h => h, fun _ h => .inl h⟩

theorem trans (h : d.Later l d₁) (h' : d₁.Later l d₂) : d.Later l d₂ where
  slots := h.slots.trans h'.slots
  bindings n κ hκ hn := (h'.bindings n κ hκ hn).trans (h.bindings n κ hκ hn)
  scopes := h.scopes.trans h'.scopes fun _ _ => trivial
  obligations o ho := h'.obligations o (h.obligations o ho)
  told x hx := by
    rcases h'.told x hx with hx | hx
    · exact h.told x hx
    · exact .inr hx

theorem mono (h : d.Later l d₁) (hl : l ⊆ l') : d.Later l' d₁ where
  slots := h.slots
  bindings n κ hκ hn := h.bindings n κ hκ fun s hs => hn s (hl hs)
  scopes := h.scopes
  obligations := h.obligations
  told x hx := by
    rcases h.told x hx with hx | ⟨s, hs, hx⟩
    · exact .inl hx
    · exact .inr ⟨s, hl hs, hx⟩

/-- A step that only writes a slot, which is of a site if it binds. -/
theorem of_write {a : Attribute} {x : Slot}
    (ha : a.kind.isBinding = true → ∃ s ∈ l, a.owner = .node s.id) :
    d.Later l { d with attributes := d.attributes.write a x } where
  slots := d.attributes.grows_write a x
  bindings n κ hκ hn := by
    have hne : a ≠ ⟨.node n, κ⟩ := by
      rintro rfl
      obtain ⟨s, hs, ho⟩ := ha hκ
      cases ho
      exact hn s hs rfl
    rw [Attributes.slot?_write, if_neg hne]
  scopes := .refl _ _
  obligations _ h := h
  told _ h := .inl h

theorem of_owe (node : Node) (goal : Goal) : d.Later l (d.owe node goal) :=
  { refl (l := l) d with obligations := fun o ho => by simp [Draft.owe, Array.mem_toList_iff.1 ho] }

theorem of_scopes {t : ScopeTable} (h : d.tables.scopes.Extends (fun _ => True) t) :
    d.Later l (d.withScopes t) :=
  { refl (l := l) d with scopes := h }

end Draft.Later

/-- Changes that bind only sites of the list, and tell of these only what can be told at once. -/
def Change.Allowed (l : List Site) : Change → Prop
  | .write a _ => a.kind.isBinding = true → ∃ s ∈ l, a.owner = .node s.id
  | .tell x => ∃ s ∈ l, s.finds x.cause = true ∧ x.node = some s.id
  | _ => True

namespace Change

variable {l l' : List Site} {c : Change}

theorem plain_le_allowed : Plain ≤ Allowed l := by
  rintro ⟨⟩ h
  case write => exact fun hb => by rw [h] at hb; cases hb
  case tell => exact h.elim
  all_goals exact trivial

theorem quiet_le_allowed : Quiet ≤ Allowed l := quiet_le_plain.trans plain_le_allowed

theorem allowed_mono (hl : l ⊆ l') : Allowed l ≤ Allowed l' := by
  rintro ⟨⟩ h
  case write => exact fun hb => let ⟨s, hs, ho⟩ := h hb; ⟨s, hl hs, ho⟩
  case tell => obtain ⟨s, hs, hx⟩ := h; exact ⟨s, hl hs, hx⟩
  all_goals exact trivial

theorem Makes.later {d d' : Draft} (h : c.Makes d d') (hc : c.Allowed l) : d.Later l d' := by
  cases h with
  | write => exact .of_write hc
  | owe => exact .of_owe _ _
  | tell =>
    refine { Draft.Later.refl (l := l) d with told := fun x hx => ?_ }
    rcases List.mem_append.1 hx with hx | hx
    · exact .inl hx
    · rw [List.mem_singleton.1 hx]
      exact .inr hc
  | opening => exact .of_scopes (ScopeTable.extends_push _ _)
  | binding h => exact .of_scopes (ScopeTable.extends_of_declare h)
  | declaring | modifying | listing => exact { Draft.Later.refl (l := l) d with }

end Change

namespace Walk

variable {α β : Type} {l l' : List Site} {d d' : Draft}

def Adds (l : List Site) (m : Walk α) : Prop := Does (Change.Allowed l) m

theorem Adds.later {m : Walk α} {a : α} (h : Adds l m) (hm : m d = .ok a d') : d.Later l d' :=
  Does.keeps h .refl .trans (fun hc hmakes => hmakes.later hc) hm

theorem Adds.mono {m : Walk α} (h : Adds l m) (hl : l ⊆ l') : Adds l' m :=
  Does.mono h (Change.allowed_mono hl)

theorem adds_oblige (node : Node) (goal : Goal) : Adds l (oblige node goal) := does_oblige trivial

theorem adds_setAttribute (a : Attribute) (v : Value) (ha : a.kind.isBinding = false) :
    Adds l (setAttribute a v) :=
  does_put Change.quiet_le_allowed a v ha

theorem adds_bindSite {s : Site} {n : NodeId} (hs : s ∈ l) (hn : n = s.id) (κ : AttributeKind)
    (v : Value) : Adds l (setAttribute ⟨.node n, κ⟩ v) :=
  does_setAttribute fun _ => ⟨s, hs, by rw [hn]⟩

section Parts

variable (scope : ScopeId)

theorem adds_reference {s : Site} {ref : Reference} (hs : s ∈ l) (hr : s.reference? = some ref) :
    Adds l (reference scope ref) :=
  does_reference Change.quiet_le_allowed scope fun _ _ _ => ⟨s, hs, by rw [Site.id_of_reference? hr]⟩

theorem adds_emptyLiteral {node : Node} {s : Site} (hs : s ∈ l) (hn : node.id = s.id) (c : Container)
    (hf : s.finds (.uninferableLiteral c.word) = true) (x : Expectation) :
    Adds l (emptyLiteral node c x) :=
  does_emptyLiteral Change.quiet_le_allowed ⟨s, hs, hf, congrArg some hn⟩ x

theorem adds_enterBlock {node : Node} {s : Site} (hs : s ∈ l) (hn : node.id = s.id) :
    Adds l (enterBlock scope node) :=
  adds_bindSite hs hn _ _

theorem adds_openBody {node : Node} {s : Site} (hs : s ∈ l) (hn : node.id = s.id) (id : DeclId) :
    Adds l (openBody scope node id) :=
  (does_openScope trivial).bind fun inner => (does_modifyDeclaration trivial).bind fun _ =>
    (adds_bindSite hs hn _ _).bind fun _ => does_pure inner

theorem adds_functionHead {node : Node} {s : Site} (hs : s ∈ l) (hn : node.id = s.id)
    (head : FunctionHead) : Adds l (functionHead scope node head) :=
  (does_declare trivial).bind fun id => (does_bindName trivial).bind fun _ =>
    (does_registerSignature trivial).bind fun _ => (adds_openBody scope hs hn id).bind fun inner =>
    (does_mapM (does_parameter Change.plain_le_allowed inner) head.parameters).bind fun _ =>
    (does_typeExpr Change.quiet_le_allowed inner head.result).bind fun _ =>
    (does_modifyDeclaration trivial).bind fun _ => (adds_oblige _ _).bind fun _ => does_pure inner

theorem adds_templateHead {node : Node} {s : Site} (hs : s ∈ l) (hn : node.id = s.id)
    (head : TemplateHead) : Adds l (templateHead scope node head) :=
  (does_declare trivial).bind fun id => (does_bindName trivial).bind fun _ =>
    (adds_openBody scope hs hn id).bind fun inner =>
    (does_mapM (does_typeParameter Change.plain_le_allowed inner) head.typeParameters).bind fun _ =>
    (does_mapM (does_parameter Change.plain_le_allowed inner) head.parameters).bind fun _ =>
    (does_typeExpr Change.quiet_le_allowed inner head.result).bind fun _ =>
    (does_modifyDeclaration trivial).bind fun _ => (adds_oblige _ _).bind fun _ => does_pure inner

theorem adds_classHead {node : Node} {s : Site} (hs : s ∈ l)
    (hf : ∀ c : Cause, c.isEarly = true → c.isGap = false → s.finds c = true) (hn : node.id = s.id)
    (head : ClassHead) : Adds l (classHead scope node head) := by
  have hsuper : ∀ sup : Superclass, Adds l (superclass scope node sup) := fun sup =>
    does_superclass scope fun cause hc hg => ⟨s, hs, hf cause hc hg, congrArg some hn⟩
  have hopen : ∀ found written effective, Adds l (openClass scope node head found written effective) := by
    intro found written effective
    unfold openClass
    simp only [List.forIn_cons, List.forIn_nil, bind_assoc, pure_bind]
    exact (adds_setAttribute _ _ rfl).bind fun _ => (adds_setAttribute _ _ rfl).bind fun _ =>
      (adds_setAttribute _ _ rfl).bind fun _ => (adds_setAttribute _ _ rfl).bind fun _ =>
      (does_openScope trivial).bind fun inner => (does_modifyDeclaration trivial).bind fun _ =>
      (does_modifyDeclaration trivial).bind fun _ => (adds_bindSite hs hn _ _).bind fun _ => does_pure _
  rw [classHead_eq]
  refine (does_declare trivial).bind fun written => (does_bindName trivial).bind fun _ =>
    (does_mapM hsuper head.superclasses).bind fun found => ?_
  split
  · exact hopen _ _ _
  · exact (does_declare trivial).bind fun id => (does_bindName trivial).bind fun _ => hopen _ _ _

end Parts

end Walk

end ScriptAnalysis
