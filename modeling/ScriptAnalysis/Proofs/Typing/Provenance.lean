import ScriptAnalysis.Proofs.Typing.ScopeTree

/-!
What is declared where, and what can be seen from where. A scope belongs to one statement that opens it, and
what it binds is declared directly in that statement. So a name that stands outside of all templates never
refers to something inside of one (`Program.Charted.not_hides_of_binding`).
-/
namespace ScriptAnalysis

/-- A node is that of a template, or stands inside of one. -/
inductive Program.InTemplate (p : Program) : NodeId → Prop
  | template {st node head inner body} (h : ⟨st, .stmt (.template node head inner body)⟩ ∈ p.sites) :
      InTemplate p node.id
  | inside {s : Site} (hs : s ∈ p.sites) (h : InTemplate p s.setting.home) : InTemplate p s.id

def Program.Hides (p : Program) (t : Tables) (id : DeclId) : Prop :=
  ∃ s ∈ p.sites, id ∈ t.declarations.idsAt s.id ∧ p.InTemplate s.setting.home

/-- A node that is around sites: that of the program, or of a statement that opens a scope. -/
def Program.IsHome (p : Program) (n : NodeId) : Prop := n = p.node.id ∨ ∃ y ∈ p.openings, y.2.node = n

theorem Stmt.id_of_opener? {x : Stmt} {o : Opener} (h : x.opener? = some o) : x.id = o.node := by
  cases x <;> cases h <;> rfl

def Site.declared? (s : Site) : Option (String × DeclarationKind) :=
  match s.part with
  | .binder .field b | .stmt (.field b) => some (b.name, .field)
  | .binder .parameter b => some (b.name, .parameter)
  | .binder .typeParameter b => some (b.name, .typeParameter)
  | .stmt (.variable b _) => some (b.name, .variable)
  | .stmt (.function _ head _ _) => some (head.name, .function { result := some head.result.id })
  | .stmt (.template _ head _ _) => some (head.name, .template { result := some head.result.id })
  | .stmt (.struct _ name _) => some (name, .struct [])
  | .stmt (.cls _ head _ _) => some (head.name, .cls {})
  | _ => none

/-- What is declared at a site has the name and the kind that the site gives it. -/
theorem Site.Leaves.introduces {d : Draft} {s : Site} {e : Entry} {id : DeclId} (h : s.Leaves d e)
    (hid : id ∈ e.declared) : ∃ name kind type declared, s.declared? = some (name, kind) ∧
      d.Introduces s.id name kind type declared id := by
  cases h with
  | field hi | parameter hi | typeParameter hi =>
    obtain rfl : id = _ := by simpa using hid
    exact ⟨_, _, _, _, rfl, hi⟩
  | stmt hl =>
    cases hl with
    | «variable» hi | field hi | function hi | struct hi | cls hi | template hi _ =>
      obtain rfl : id = _ := by simpa using hid
      exact ⟨_, _, _, _, rfl, hi⟩
    | subclass hi => exact ⟨_, _, _, _, rfl, hi id (by simpa using hid)⟩
    | ifElse =>
      unfold Entry.ofBranches at hid
      split at hid <;> cases hid
    | ret =>
      unfold Entry.ofReturn at hid
      split at hid <;> cases hid
    | block =>
      unfold Entry.ofBlock at hid
      split at hid <;> cases hid
    | _ => cases hid
  | body =>
    unfold Entry.ofBlock at hid
    split at hid <;> cases hid
  | reference hr => cases hr <;> cases hid
  | expr _ hl | condition hl =>
    cases hl with
    | symbol hr => cases hr <;> cases hid
    | _ => cases hid
  | typeName | containerType => cases hid

namespace Program

variable {p : Program} {d : Draft} {n n' : NodeId} {scope g : ScopeId} {id : DeclId}

theorem isHome_of_chained {around : List Opener} (h : Opener.Chained p.openings around) :
    p.IsHome (Opener.home p.node.id around) := by
  cases around with
  | nil => exact .inl rfl
  | cons o around => exact .inr ⟨_, h.1, rfl⟩

/-- A statement that opens a scope stands in the surroundings of what is around it. -/
theorem exists_opening {y : List Opener × Opener} (hy : y ∈ p.openings) :
    ∃ x, ⟨Opener.setting p.node.id y.1, .stmt x⟩ ∈ p.sites ∧ x.id = y.2.node ∧
      p.IsHome (Opener.home p.node.id y.1) := by
  obtain ⟨m, hm, hopening⟩ := List.mem_filterMap.1 hy
  obtain ⟨o, ho, rfl⟩ := Option.map_eq_some_iff.1 hopening
  exact ⟨m.stmt, site_nested hm, Stmt.id_of_opener? ho, isHome_of_chained (chained_nested hm)⟩

/-- A function or template, and all in it, is inside of a template if its surroundings are or if it is one
itself. -/
theorem inTemplate_iff (hp : p.Numbered) {s : Site} (hs : s ∈ p.sites)
    (hx : ∀ node head inner body, s.part ≠ .stmt (.template node head inner body)) :
    p.InTemplate s.id ↔ p.InTemplate s.setting.home := by
  refine ⟨fun h => ?_, .inside hs⟩
  generalize hn : s.id = n at h
  cases h with
  | template ht =>
    obtain rfl := hp.eq_of_id hs ht hn
    exact absurd rfl (hx _ _ _ _)
  | inside ht h =>
    obtain rfl := hp.eq_of_id hs ht hn
    exact h

/-- Each declaration is of a built-in kind, or has the name and the kind that some site gives it. -/
theorem Drafted.exists_site {x : Declaration} (hd : p.Drafted d)
    (hx : d.tables.declarations.items[id.index]? = some x) :
    (∃ b ∈ Builtin.all, x.kind.blank = b.kind) ∨
      ∃ s ∈ p.sites, s.declared? = some (x.name, x.kind.blank) ∧ id ∈ (d.entry s.id).declared := by
  rcases hd.declaration_cases (Declarations.lt_size_of_getElem? hx) with ⟨b, hb, hbuiltin⟩ | ⟨s, hs, hid⟩
  · obtain ⟨y, hy, _, hblank⟩ := hbuiltin.item
    obtain rfl : x = y := Option.some.inj (hx.symm.trans hy)
    exact .inl ⟨b, List.mem_of_getElem? hb, hblank⟩
  · obtain ⟨name, kind, _, _, hdeclared, hi⟩ := (hd.leaves s hs).introduces hid
    obtain ⟨y, hy, rfl, _, rfl⟩ := hi.item
    obtain rfl : x = y := Option.some.inj (hx.symm.trans hy)
    exact .inr ⟨s, hs, hdeclared, hid⟩

namespace MirroredBy

/-- The scope that surroundings open is the root, or that of the one opener at their node. -/
theorem place (hm : p.MirroredBy d) (hn : p.IsHome n) (ho : d.Opens n scope) :
    scope = ScopeTable.root ∧ n = p.node.id ∨
      ∃ i y, p.openings[i]? = some y ∧ y.2.node = n ∧ scope = ⟨i + 1⟩ := by
  rcases hn with rfl | ⟨y, hy, rfl⟩
  · have hslot := ho.1.symm.trans hm.root.1.1
    exact .inl ⟨by simpa using hslot, rfl⟩
  · obtain ⟨i, hi⟩ := List.mem_iff_getElem?.1 hy
    have hslot := ho.1.symm.trans (hm.opened i y hi).node.1
    exact .inr ⟨i, y, hi, rfl, by simpa using hslot⟩

theorem exists_opens (hm : p.MirroredBy d) (hn : p.IsHome n) : ∃ scope, d.Opens n scope := by
  rcases hn with rfl | ⟨y, hy, rfl⟩
  · exact ⟨_, hm.root.1⟩
  · obtain ⟨i, hi⟩ := List.mem_iff_getElem?.1 hy
    exact ⟨_, (hm.opened i y hi).node⟩

/-- A scope is opened by one node only. -/
theorem eq_of_opens (hm : p.MirroredBy d) (hn : p.IsHome n) (hn' : p.IsHome n') (ho : d.Opens n scope)
    (ho' : d.Opens n' scope) : n = n' := by
  rcases hm.place hn ho with ⟨rfl, rfl⟩ | ⟨i, y, hi, rfl, rfl⟩ <;>
    rcases hm.place hn' ho' with ⟨hroot, rfl⟩ | ⟨j, z, hj, rfl, hscope⟩
  · rfl
  · simp [ScopeTable.root] at hscope
  · simp [ScopeTable.root] at hroot
  · obtain rfl : i = j := by simpa using hscope
    rw [hi, Option.some.injEq] at hj
    rw [hj]

/-- The parent of a scope is the scope of the surroundings of its opener. -/
theorem opens_parent (hm : p.MirroredBy d) (hn : p.IsHome n) (ho : d.Opens n scope) {s : Scope}
    (hs : d.tables.scopes.scopes[scope.index]? = some s) (hparent : s.parent = some g) :
    ∃ t ∈ p.sites, t.id = n ∧ d.Opens t.setting.home g := by
  rcases hm.place hn ho with ⟨rfl, rfl⟩ | ⟨i, y, hi, rfl, rfl⟩
  · obtain ⟨s', hs', hnone⟩ := hm.root.2
    obtain rfl : s = s' := Option.some.inj (hs.symm.trans (ScopeTable.get_eq_ok.1 hs'))
    rw [hparent] at hnone
    cases hnone
  · obtain ⟨s', parent, hs', hparent', hhome, _⟩ := (hm.opened i y hi).scope
    obtain rfl : s = s' := Option.some.inj (hs.symm.trans hs')
    rw [hparent, Option.some.injEq] at hparent'
    subst hparent'
    obtain ⟨x, hx, hid, _⟩ := exists_opening (List.mem_of_getElem? hi)
    exact ⟨_, hx, hid, hhome⟩

/-- What is inside of a template has only what is inside of it further in. -/
theorem inTemplate_of_outward (hm : p.MirroredBy d) (hout : d.tables.scopes.Outward scope g) :
    p.IsHome n → d.Opens n scope → p.IsHome n' → d.Opens n' g → p.InTemplate n' → p.InTemplate n := by
  intro hn ho hn' ho' hin
  induction hout generalizing n with
  | refl => exact hm.eq_of_opens hn hn' ho ho' ▸ hin
  | up hs hparent _ ih =>
    obtain ⟨t, ht, rfl, hopens⟩ := hm.opens_parent hn ho hs hparent
    exact .inside ht (ih (home_of_site ht) hopens ho')

end MirroredBy

structure Charted (p : Program) (d : Draft) : Prop where
  numbered : p.Numbered
  drafted : p.Drafted d
  mirrored : p.MirroredBy d
  homed : d.Homed p.sites

namespace Charted

variable {s : Site} {ref : Reference} {name : String} {f : Binding}

theorem not_hides_builtin (h : p.Charted d) (hid : id.index < Builtin.all.length) : ¬p.Hides d.tables id := by
  rintro ⟨s, _, hmem, _⟩
  obtain ⟨x, hx, hn⟩ := Declarations.mem_idsAt.1 hmem
  have hnone := Drafted.not_builtin h.drafted hx hn
  rw [List.getElem?_eq_getElem hid] at hnone
  cases hnone

/-- What lives in a scope that is seen from outside of templates is outside of templates. -/
theorem not_hides_of_livesIn (h : p.Charted d) (hn : p.IsHome n) (hout : ¬p.InTemplate n)
    (ho : d.Opens n scope) (hg : d.tables.scopes.Outward scope g) (hlives : d.LivesIn p.sites id g) :
    ¬p.Hides d.tables id := by
  rcases hlives with hbuiltin | ⟨s, hs, hmem, hopens⟩
  · exact h.not_hides_builtin hbuiltin
  · rintro ⟨t, ht, hmem', hin⟩
    obtain ⟨x, hx, hxs⟩ := Declarations.mem_idsAt.1 hmem
    obtain ⟨y, hy, hyt⟩ := Declarations.mem_idsAt.1 hmem'
    obtain rfl : x = y := Option.some.inj (hx.symm.trans hy)
    obtain rfl : s = t := h.numbered.eq_of_id hs ht (Option.some.inj (hxs.symm.trans hyt))
    exact hout (h.mirrored.inTemplate_of_outward hg hn ho (home_of_site hs) hopens hin)

theorem livesIn_of_visible (h : p.Charted d) (hv : d.tables.scopes.Visible scope name f) :
    d.LivesIn p.sites f.declaration f.scope := by
  obtain ⟨s, hs, hmem⟩ := hv.bound
  exact h.homed.bindings _ s hs _ hmem

/-- What a name stands for is visible from the surroundings of the name. -/
theorem visible_of_binding (h : p.Charted d) (hs : s ∈ p.sites) (hr : s.reference? = some ref)
    (hf : d.bindingAt p ref.node.id = some f) :
    ∃ scope, d.Opens s.setting.home scope ∧ d.tables.scopes.Visible scope ref.name f := by
  obtain ⟨e, he, hslots, _⟩ := Drafted.reference_leaves h.drafted hs hr
  rcases Drafted.bindingAt_eq h.numbered h.drafted hs hr with ⟨f', hf', hdecl, hscope, _⟩ |
    ⟨scope, hopens, hlookup, hnone, _⟩
  · rw [hf, Option.some.injEq] at hf'
    subst hf'
    rw [hslots] at hdecl hscope
    cases he with
    | @early scope found hopens hvisible _ =>
      obtain rfl : found = f := by
        cases found
        cases f
        simp_all
      exact ⟨scope, hopens, hvisible⟩
    | late _ _ => simp at hdecl
  · rw [hf] at hlookup
    exact ⟨scope, hopens, ScopeTable.visible_of_finds (ScopeTable.finds_of_search hlookup)⟩

/-- What a name outside of templates stands for is outside of templates. -/
theorem not_hides_of_binding (h : p.Charted d) (hs : s ∈ p.sites) (hr : s.reference? = some ref)
    (hout : ¬p.InTemplate s.setting.home) (hf : d.bindingAt p ref.node.id = some f) :
    ¬p.Hides d.tables f.declaration := by
  obtain ⟨scope, hopens, hvisible⟩ := h.visible_of_binding hs hr hf
  exact h.not_hides_of_livesIn (home_of_site hs) hout hopens hvisible.outward (h.livesIn_of_visible hvisible)

/-- The functions that are listed beside what a name outside of templates stands for are outside of
templates. -/
theorem not_hides_of_listed (h : p.Charted d) (hs : s ∈ p.sites) (hr : s.reference? = some ref)
    (hout : ¬p.InTemplate s.setting.home) (hf : d.bindingAt p ref.node.id = some f)
    (hid : id ∈ d.tables.signatures.overloads name [f.scope]) : ¬p.Hides d.tables id := by
  obtain ⟨scope, hopens, hvisible⟩ := h.visible_of_binding hs hr hf
  obtain ⟨s, hscope, _, hget⟩ := Signatures.mem_overloads hid
  have hlives := h.homed.signatures s id hget
  rw [List.mem_singleton.1 hscope] at hlives
  exact h.not_hides_of_livesIn (home_of_site hs) hout hopens hvisible.outward hlives

/-- A name that is looked up from surroundings is visible from there. -/
theorem visible_of_lookup (h : p.Charted d) (hn : p.IsHome n) (hf : (d.names p).lookup n name = some f) :
    ∃ scope, d.Opens n scope ∧ d.tables.scopes.Visible scope name f := by
  obtain ⟨scope, hopens⟩ := h.mirrored.exists_opens hn
  have hlookup := (Drafted.lookup_eq h.numbered h.drafted hopens name).1
  rw [hf] at hlookup
  exact ⟨scope, hopens, ScopeTable.visible_of_finds (ScopeTable.finds_of_search hlookup)⟩

end Charted

end Program

end ScriptAnalysis
