import ScriptAnalysis.Proofs.Ty.Placeholder
import ScriptAnalysis.Proofs.Typing.Calls
import ScriptAnalysis.Proofs.Typing.Provenance

/-!
Placeholders stay in templates. What is declared outside of templates has a closed type
(`Program.Charted.closed_declarationType`), since names outside of templates stand for nothing inside of
them; a call of a template puts closed types in for its placeholders. There are two leaks. Members are found
by the type of what they are members of, so also inside of a template from outside of it, and an empty
literal that is passed to a template takes the type of the parameter as it is declared. All expressions
outside of templates whose types are not closed have them from a leak
(`Program.placeholders_stay_in_templates`).
-/
namespace ScriptAnalysis

theorem Ty.covered_of_closed {n : Nat} {bound : List DeclId} : ∀ {t : Ty}, t.Plain n → t.closed = true →
    t.covered bound = true
  | .primitive _, _, _ | .composite _ _, _, _ => rfl
  | .container _ a, hplain, h => Ty.covered_of_closed (t := a) hplain h

theorem mem_of_mapM {α β : Type} {f : α → Option β} {l : List α} {ys : List β} {x : α} {y : β}
    (h : l.mapM f = some ys) (hx : x ∈ l) (hy : f x = some y) : y ∈ ys := by
  have hall := mapM_eq_some_iff.1 h
  clear h
  induction hall with
  | nil => cases hx
  | cons hfirst _ ih =>
    rcases List.mem_cons.1 hx with rfl | hx
    · rw [hy, Option.some.injEq] at hfirst
      exact hfirst ▸ List.mem_cons_self
    · exact List.mem_cons_of_mem _ (ih hx)

namespace Builtin

theorem closed_type : ∀ b ∈ all, b.type.closed = true := by decide

theorem closed_declared : ∀ b ∈ all, ∀ t, b.declared = some t → t.closed = true := by
  have hall : ∀ b ∈ all, b.declared.all Ty.closed = true := by decide
  intro b hb t ht
  have hclosed := hall b hb
  rw [ht] at hclosed
  exact hclosed

end Builtin

/-- Whether an expression is a member access, or a call of one. -/
def Expr.selects : Expr → Bool
  | .member _ _ _ _ => true
  | .paren _ inner => inner.selects
  | .call _ callee _ => callee.selects
  | _ => false

/-- The declaration that a member access, or a call of one, stands for. -/
def Names.selectedAt (N : Names) (s : Site) : Option DeclId :=
  match s.part with
  | .expr _ e => if e.selects then N.chosen s.setting.home e else none
  | _ => none

/-- The parts of an expression whose types may go into its own. -/
def Expr.typedBy : Expr → List Expr
  | .paren _ inner => [inner]
  | .literal _ _ elements => elements
  | .binary _ _ left right => [left, right]
  | .assign _ target _ => [target]
  | .call _ callee _ | .templateCall _ callee _ _ => [callee]
  | .index _ base _ => [base]
  | _ => []

theorem Expr.mem_ofExpr {st : Setting} {c e : Expr} (h : c ∈ e.typedBy) :
    ⟨st, .expr .free c⟩ ∈ Site.ofExpr st e := by
  cases e <;> grind [Expr.typedBy, Site.ofExpr]

/-- An expression has its type from where a placeholder gets out of its template. -/
inductive Analysis.Leaks (a : Analysis) (p : Program) (st : Setting) : Role → Expr → Prop
  /-- A member is found inside of a template, and keeps the type that it is declared with. -/
  | member {role : Role} {e : Expr} {id : DeclId} {t : Ty}
      (selected : (a.names p).selectedAt ⟨st, .expr role e⟩ = some id) (hidden : p.Hides a.tables id)
      (declared : a.declarationType? id = some t) (isOpen : t.closed = false) : Leaks a p st role e
  /-- An empty literal takes the type of the parameter of a template as it is declared. -/
  | argument {callee : Expr} {node : Node} {c : Container} {r t : Ty} {k i : Nat} {ps : List Ty}
      (template : a.exprType? callee = some (.template r k ps))
      (parameter : (Ty.template r k ps).parameter? i = some t)
      (isOpen : t.closed = false) : Leaks a p st (.argument callee i) (.literal node c [])
  | callee {callee : Expr} {node : Node} {c : Container} {i : Nat} (h : Leaks a p st .free callee) :
      Leaks a p st (.argument callee i) (.literal node c [])
  | part {role : Role} {c e : Expr} (hc : c ∈ e.typedBy) (h : Leaks a p st .free c) : Leaks a p st role e

namespace Program.Charted

variable {p : Program} {d : Draft} {id : DeclId} {t u : Ty} {n home : NodeId} {s : Site} {st : Setting}
  {ref : Reference}

/-- A type parameter is declared at a template that lists it, and nothing else is declared at its node. -/
theorem exists_typeParameter (h : p.Charted d) {x : Declaration}
    (hx : d.tables.declarations.items[id.index]? = some x) (hk : x.kind = .typeParameter) :
    ∃ st b, ⟨st, .binder .typeParameter b⟩ ∈ p.sites ∧ d.tables.declarations.idsAt b.node.id = [id] := by
  rcases h.drafted.exists_site hx with ⟨b, hb, hblank⟩ | ⟨⟨st, part⟩, hs, hdeclared, hid⟩
  · have hkind := Builtin.kind_of_all b hb
    rw [← hblank, hk] at hkind
    simp [DeclarationKind.blank] at hkind
  · obtain ⟨b, rfl⟩ : ∃ b, part = .binder .typeParameter b := by
      rw [hk] at hdeclared
      generalize x.name = name at hdeclared
      unfold Site.declared? at hdeclared
      split at hdeclared <;> cases hdeclared
      next b heq => exact ⟨b, heq⟩
    have hl := h.drafted.leaves _ hs
    generalize he : d.entry _ = e at hl hid
    cases hl with
    | typeParameter =>
      obtain rfl : id = _ := by simpa using hid
      exact ⟨st, b, hs, congrArg Entry.declared he⟩

/-- A declaration introduces a closed type, unless it is a type parameter. -/
theorem introduced_cases (ht : d.tables.introduced id = some t) :
    t.closed = true ∨ ∃ x, d.tables.declarations.items[id.index]? = some x ∧ x.kind = .typeParameter ∧
      t = .placeholder ⟨id, x.name⟩ := by
  obtain ⟨x, hx, ht⟩ := Option.bind_eq_some_iff.1 ht
  split at ht
  · cases ht
    exact .inl rfl
  · obtain ⟨n, _, ht⟩ := Option.bind_eq_some_iff.1 ht
    obtain ⟨last, _, ht⟩ := Option.bind_eq_some_iff.1 ht
    cases ht
    exact .inl rfl
  · next hk =>
    cases ht
    exact .inr ⟨x, hx, hk, rfl⟩
  · obtain ⟨b, hb, ht⟩ := Option.bind_eq_some_iff.1 ht
    exact .inl (Builtin.closed_declared b (List.mem_of_getElem? hb) t ht)

theorem covered_introduced {ts : List Ty} (hu : d.tables.introduced id = some u) (hmem : u ∈ ts) :
    u.covered (Ty.placeholders ts) = true := by
  rcases introduced_cases hu with hclosed | ⟨x, _, _, rfl⟩
  · exact Ty.covered_of_closed (Tables.introduced_plain hu) hclosed
  · simpa [Ty.covered] using Ty.mem_placeholders.2 ⟨_, hmem, rfl⟩

/-- A type that is declared outside of templates is no placeholder. -/
theorem closed_introduced (h : p.Charted d) (hid : ¬p.Hides d.tables id)
    (ht : d.tables.introduced id = some t) : t.closed = true := by
  rcases introduced_cases ht with hclosed | ⟨x, hx, hk, _⟩
  · exact hclosed
  · obtain ⟨st, b, hs, hids⟩ := h.exists_typeParameter hx hk
    obtain ⟨st', node, head, inner, body, hτ, _, rfl⟩ := exists_template hs
    have hmem : id ∈ d.tables.declarations.idsAt b.node.id := hids ▸ List.mem_singleton_self id
    exact absurd ⟨_, hs, hmem, .template hτ⟩ hid

/-- A written type has the placeholders that its names stand for. -/
theorem covered_writtenType {N : Names} {bound : List DeclId} {w : TypeExpr}
    (hname : ∀ name f t, N.lookup home name = some f → N.tables.introduced f.declaration = some t →
      t.covered bound = true) (ht : N.writtenType home w = some t) : t.covered bound = true := by
  induction w generalizing t with
  | name node text =>
    obtain ⟨f, hf, ht⟩ := Option.bind_eq_some_iff.1 ht
    obtain ⟨x, _, ht⟩ := Option.bind_eq_some_iff.1 ht
    split at ht
    · exact hname text f t hf ht
    · cases ht
  | container node c component ih =>
    obtain ⟨a, ha, ht⟩ := Option.bind_eq_some_iff.1 ht
    cases ht
    have hcovered := ih ha
    exact hcovered

theorem closed_writtenType (h : p.Charted d) (hn : p.IsHome home) (hout : ¬p.InTemplate home) {w : TypeExpr}
    (ht : (d.names p).writtenType home w = some t) : t.closed = true := by
  refine covered_writtenType (fun name f u hf hu => ?_) ht
  obtain ⟨scope, hopens, hvisible⟩ := h.visible_of_lookup hn hf
  exact h.closed_introduced (h.not_hides_of_livesIn hn hout hopens hvisible.outward
    (h.livesIn_of_visible hvisible)) hu

section Template

variable {node inner : Node} {head : TemplateHead} {body : List Stmt} {scope g : ScopeId} {name : String}
  {f : Binding}

/-- From a template that is in no other one, all that is seen inside of templates is inside of it. -/
theorem home_of_hidden (h : p.Charted d) (hs : ⟨st, .stmt (.template node head inner body)⟩ ∈ p.sites)
    (hout : ¬p.InTemplate st.home) (hn : p.IsHome node.id) (hopens : d.Opens node.id scope)
    (hg : d.tables.scopes.Outward scope g) (hhome : p.IsHome home) (hin : p.InTemplate home)
    (ho : d.Opens home g) : home = node.id := by
  cases hg with
  | refl => exact h.mirrored.eq_of_opens hhome hn ho hopens
  | up hscope hparent hrest =>
    obtain ⟨t, ht, hid, hopens'⟩ := h.mirrored.opens_parent hn hopens hscope hparent
    obtain rfl := h.numbered.eq_of_id ht hs hid
    exact absurd (h.mirrored.inTemplate_of_outward hrest (home_of_site ht) hopens' hhome ho hin) hout

/-- A type parameter that a template sees, if it is in no other template, is one that it lists. -/
theorem mem_typeParameters (h : p.Charted d) (hs : ⟨st, .stmt (.template node head inner body)⟩ ∈ p.sites)
    (hout : ¬p.InTemplate st.home) (hn : p.IsHome node.id) (hopens : d.Opens node.id scope)
    (hvisible : d.tables.scopes.Visible scope name f) {x : Declaration}
    (hx : d.tables.declarations.items[f.declaration.index]? = some x) (hk : x.kind = .typeParameter) :
    ∃ b ∈ head.typeParameters, d.tables.declarations.forNode? b.node.id = some f.declaration := by
  obtain ⟨st', b, hb, hids⟩ := h.exists_typeParameter hx hk
  obtain ⟨st'', node', head', inner', body', hτ, hmem, rfl⟩ := exists_template hb
  obtain ⟨y, hy, hnode⟩ := Declarations.mem_idsAt.1 (hids ▸ List.mem_singleton_self f.declaration)
  obtain rfl : x = y := Option.some.inj (hx.symm.trans hy)
  rcases h.livesIn_of_visible hvisible with hbuiltin | ⟨s, hs', hmem', hopens'⟩
  · have hnone := Drafted.not_builtin h.drafted hx hnode
    rw [List.getElem?_eq_getElem hbuiltin] at hnone
    cases hnone
  · obtain ⟨z, hz, hnode'⟩ := Declarations.mem_idsAt.1 hmem'
    obtain rfl : x = z := Option.some.inj (hx.symm.trans hz)
    obtain rfl := h.numbered.eq_of_id hs' hb (Option.some.inj (hnode'.symm.trans hnode))
    have hhome : node'.id = node.id := h.home_of_hidden hs hout hn hopens hvisible.outward
      (home_of_site hb) (.template hτ) hopens'
    have hsame := h.numbered.eq_of_id hτ hs hhome
    simp only [Site.mk.injEq, Part.stmt.injEq, Stmt.template.injEq] at hsame
    obtain ⟨_, _, rfl, _⟩ := hsame
    exact ⟨b, hmem, by rw [Declarations.forNode?_eq, hids]; rfl⟩

/-- A template's own written types have no placeholders but those that the template lists. -/
theorem covered_of_template (h : p.Charted d) (hs : ⟨st, .stmt (.template node head inner body)⟩ ∈ p.sites)
    (hout : ¬p.InTemplate st.home) {ts : List Ty}
    (hts : head.typeParameters.mapM (fun b => do
      (d.names p).tables.introduced (← (d.names p).tables.declarations.forNode? b.node.id)) = some ts)
    {w : TypeExpr} (ht : (d.names p).writtenType node.id w = some t) :
    t.covered (Ty.placeholders ts) = true := by
  have hsite : (⟨head.setting node, .written head.result⟩ : Site) ∈ p.sites :=
    (h.numbered.premise hs (by simp [Site.premises, Site.ofStmt])).1
  have hn : p.IsHome node.id := home_of_site hsite
  refine covered_writtenType (fun name f u hf hu => ?_) ht
  obtain ⟨scope, hopens, hvisible⟩ := h.visible_of_lookup hn hf
  rcases introduced_cases hu with hclosed | ⟨x, hx, hk, rfl⟩
  · exact Ty.covered_of_closed (Tables.introduced_plain hu) hclosed
  · obtain ⟨b, hb, hfor⟩ := h.mem_typeParameters hs hout hn hopens hvisible hx hk
    have hmem : Ty.placeholder ⟨f.declaration, x.name⟩ ∈ ts := by
      refine mem_of_mapM hts hb ?_
      show (d.tables.declarations.forNode? b.node.id).bind d.tables.introduced = _
      rw [hfor]
      exact hu
    exact covered_introduced hu hmem

end Template

/-- What is declared outside of templates has a closed type. -/
theorem closed_typeAt (h : p.Charted d) (hs : s ∈ p.sites) (hout : ¬p.InTemplate s.setting.home)
    (ht : (d.names p).typeAt s.id = some t) : t.closed = true := by
  obtain ⟨st, part⟩ := s
  have hsite : (d.names p).site (Site.id ⟨st, part⟩) = some ⟨st, part⟩ := h.numbered.siteAt_eq hs
  have hpremise : ∀ c ∈ Site.premises ⟨st, part⟩, c ∈ p.sites := fun c hc => (h.numbered.premise hs hc).1
  have hwritten : ∀ {w : TypeExpr}, (d.names p).writtenType st.home w = some t → t.closed = true :=
    h.closed_writtenType (home_of_site hs) hout
  rw [Names.typeAt, hsite, Option.bind_eq_bind, Option.bind_some] at ht
  dsimp only at ht
  split at ht
  · cases ht
    rfl
  · cases ht
    rfl
  · cases ht
    rfl
  · exact hwritten ht
  · exact hwritten ht
  · exact hwritten ht
  · next node head inner body =>
    have hn : p.IsHome node.id := home_of_site (hpremise ⟨head.setting node, .written head.result⟩
      (by simp [Site.premises, Site.ofStmt]))
    have hin : ¬p.InTemplate node.id := mt (inTemplate_iff h.numbered hs (by simp)).1 hout
    obtain ⟨r, hr, ht⟩ := Option.bind_eq_some_iff.1 ht
    obtain ⟨ps, hps, ht⟩ := Option.bind_eq_some_iff.1 ht
    cases ht
    exact Ty.closed_function.2 ⟨h.closed_writtenType hn hin hr,
      forall_of_mapM hps fun _ _ _ hu => h.closed_writtenType hn hin hu⟩
  · next node head inner body =>
    obtain ⟨r, hr, ht⟩ := Option.bind_eq_some_iff.1 ht
    obtain ⟨ts, hts, ht⟩ := Option.bind_eq_some_iff.1 ht
    obtain ⟨ps, hps, ht⟩ := Option.bind_eq_some_iff.1 ht
    cases ht
    have hlen : ts.length = head.typeParameters.length := (mapM_eq_some_iff.1 hts).length_eq.symm
    rw [Ty.closed_template, ← hlen, List.take_left]
    refine ⟨h.covered_of_template hs hout hts hr, fun q hq => ?_⟩
    rcases List.mem_append.1 hq with hq | hq
    · have hintroduced : ∃ id, d.tables.introduced id = some q :=
        forall_of_mapM hts (fun _ _ _ hu => (Option.bind_eq_some_iff.1 hu).imp fun _ h => h.2) q hq
      obtain ⟨id, hid⟩ := hintroduced
      exact covered_introduced hid hq
    · exact forall_of_mapM hps (fun _ _ _ hu => h.covered_of_template hs hout hts hu) q hq
  · cases ht

theorem lt_size_of_declarationType (ht : (d.names p).declarationType id = some t) : id.index < d.size := by
  obtain ⟨x, hx, _⟩ := Option.bind_eq_some_iff.1 ht
  exact Declarations.lt_size_of_getElem? hx

theorem closed_declarationType (h : p.Charted d) (hid : ¬p.Hides d.tables id)
    (ht : (d.names p).declarationType id = some t) : t.closed = true := by
  rcases Drafted.declaration_cases h.drafted (lt_size_of_declarationType ht) with ⟨b, hb, hbuiltin⟩ | ⟨s, hs, hmem⟩
  · rw [Drafted.declarationType_builtin hb hbuiltin, Option.some.injEq] at ht
    exact ht ▸ Builtin.closed_type b (List.mem_of_getElem? hb)
  · rw [Drafted.declarationType_at hmem] at ht
    exact h.closed_typeAt hs (fun hin => hid ⟨s, hs, hmem, hin⟩) ht

/-- The fields of a struct outside of templates are outside of templates. -/
theorem not_hides_field (h : p.Charted d) {x : Declaration} {fs : List DeclId} {f : DeclId}
    (hx : d.tables.declarations.items[id.index]? = some x) (hfs : x.kind.fields? = some fs) (hf : f ∈ fs)
    (hid : ¬p.Hides d.tables id) : ¬p.Hides d.tables f := by
  obtain ⟨scope, hlives, hlivesf⟩ := h.homed.fields id.index x fs hx hfs f hf
  rcases hlives with hbuiltin | ⟨s, hs, hmem, hopens⟩
  · obtain ⟨y, hy, _, hblank⟩ := (h.drafted.builtins _ _ (List.getElem?_eq_getElem hbuiltin)).item
    obtain rfl : x = y := Option.some.inj (hx.symm.trans hy)
    have hkind := Builtin.kind_of_all _ (List.getElem_mem hbuiltin)
    rw [← hblank] at hkind
    cases hk : x.kind <;> rw [hk] at hfs <;> cases hfs
    simp [hk, DeclarationKind.blank] at hkind
  · have hout : ¬p.InTemplate s.setting.home := fun hin => hid ⟨s, hs, hmem, hin⟩
    exact h.not_hides_of_livesIn (home_of_site hs) hout hopens (.refl _) hlivesf

theorem closed_constructorType (h : p.Charted d) {c : Composite} (hid : ¬p.Hides d.tables id)
    (ht : (d.names p).constructorType c id = some t) : t.closed = true := by
  obtain ⟨x, hx, ht⟩ := Option.bind_eq_some_iff.1 ht
  obtain ⟨fs, hfs, ht⟩ := Option.bind_eq_some_iff.1 ht
  obtain ⟨r, hr, ht⟩ := Option.bind_eq_some_iff.1 ht
  obtain ⟨ps, hps, ht⟩ := Option.bind_eq_some_iff.1 ht
  cases ht
  refine Ty.closed_function.2 ⟨h.closed_introduced hid hr, forall_of_mapM hps fun f hf u hu => ?_⟩
  cases c with
  | struct => exact h.closed_declarationType (h.not_hides_field hx hfs hf hid) hu
  | cls =>
    obtain ⟨info, _, rfl⟩ := Option.map_eq_some_iff.1 hfs
    cases hf

/-- What a name outside of templates stands for is outside of templates. -/
theorem not_hides_of_decl (h : p.Charted d) (hs : s ∈ p.sites) (hr : s.reference? = some ref)
    (hout : ¬p.InTemplate s.setting.home) (hid : (d.names p).decl ref.node.id = some id) :
    ¬p.Hides d.tables id := by
  obtain ⟨f, hf, rfl⟩ := Option.map_eq_some_iff.1 hid
  exact h.not_hides_of_binding hs hr hout hf

theorem closed_referenceType (h : p.Charted d) (hs : s ∈ p.sites) (hr : s.reference? = some ref)
    (hout : ¬p.InTemplate s.setting.home) (ht : (d.names p).referenceType ref = some t) :
    t.closed = true := by
  obtain ⟨id, hid, ht⟩ := Option.bind_eq_some_iff.1 ht
  obtain ⟨x, _, ht⟩ := Option.bind_eq_some_iff.1 ht
  split at ht
  · cases ht
  · exact h.closed_declarationType (h.not_hides_of_decl hs hr hout hid) ht

/-- The functions that a call by a name may mean are outside of templates if the call is. -/
theorem not_hides_of_overload (h : p.Charted d) (hout : ¬p.InTemplate st.home) :
    ∀ {callee : Expr} {scopes : List ScopeId}, ⟨st, .expr .free callee⟩ ∈ p.sites → callee.selects = false →
      (d.names p).calleeScopes st.home callee = some scopes →
      ∀ id ∈ (d.names p).overloads callee.calleeName? scopes, ¬p.Hides d.tables id
  | .symbol ref, scopes, hs, _, hscopes, id, hid => by
    rw [Names.calleeScopes] at hscopes
    obtain ⟨scope, hscope, hscopes⟩ := Option.bind_eq_some_iff.1 hscopes
    cases hscopes
    rw [Drafted.scope_of_reference h.numbered hs rfl] at hscope
    obtain ⟨f, hf, rfl⟩ := Option.map_eq_some_iff.1 hscope
    exact h.not_hides_of_listed hs rfl hout hf hid
  | .paren node inner, scopes, hs, hselects, hscopes, id, hid => by
    rw [Names.calleeScopes] at hscopes
    have hinner := (h.numbered.premise hs (c := ⟨st, .expr .free inner⟩)
      (by simp [Site.premises, Site.ofRole, Site.ofExpr])).1
    exact h.not_hides_of_overload hout hinner hselects hscopes id hid
  | .member _ _ _ _, _, _, hselects, _, _, _ => by cases hselects
  | .int _ _, _, _, _, _, _, hid | .float _ _, _, _, _, _, _, hid | .string _ _, _, _, _, _, _, hid
  | .literal _ _ _, _, _, _, _, _, hid | .not _ _, _, _, _, _, _, hid | .binary _ _ _ _, _, _, _, _, _, hid
  | .assign _ _ _, _, _, _, _, _, hid | .call _ _ _, _, _, _, _, _, hid
  | .templateCall _ _ _ _, _, _, _, _, _, hid | .index _ _ _, _, _, _, _, _, hid
  | .construct _ _ _, _, _, _, _, _, hid => by cases hid

end Program.Charted

namespace Names

/-- With closed types put in for its placeholders, the result of a closed template is closed. -/
theorem closed_templateCallType {n : Nat} {u t : Ty} {given received : List Ty} (hregular : u.Regular n)
    (hu : u.closed = true) (hgiven : ∀ v ∈ given, v.closed = true)
    (h : templateCallType given received u = some t) : t.closed = true := by
  cases hregular with
  | @template r k ps hk hr _ =>
    rw [templateCallType] at h
    split at h
    · next hlen =>
      cases h
      have hcount : (ps.take k).length = given.length := by
        rw [List.length_take_of_le hk]
        exact hlen.2
      exact Ty.closed_substitute (Ty.exists_lookup_placeholderBindings hcount hgiven) hr
        (Ty.closed_template.1 hu).1
    · cases h
  | _ => cases h

theorem closed_indexedType {u t : Ty} (hu : u.closed = true) (h : indexedType u = some t) :
    t.closed = true := by
  unfold indexedType at h
  split at h
  · cases h
    exact hu
  · cases h
    exact hu
  · cases h

theorem closed_memberType {N : Names} {c : Composite} {name : String} {u t : Ty}
    (hid : ∀ id, N.memberDecl c name u = some id → N.declarationType id = some t → t.closed = true)
    (ht : N.memberType c name u = some t) : t.closed = true := by
  unfold Names.memberType at ht
  split at ht
  · split at ht
    · cases ht
      rfl
    · cases ht
  · obtain ⟨id, hdecl, ht⟩ := Option.bind_eq_some_iff.1 ht
    exact hid id hdecl ht

/-- The result of a call is closed if its callee is and, if there are several functions to select from, the
one that it selects. -/
theorem closed_callType {N : Names} {candidates : List DeclId} {received : List Ty} {u t : Ty}
    (hu : u.closed = true)
    (hid : ∀ r ps, u = .function r ps → 1 < candidates.length → ∀ id s v,
      N.selected candidates received = some (id, s) → N.declarationType id = some v → v.closed = true)
    (ht : N.callType candidates received u = some t) : t.closed = true := by
  cases u with
  | function r ps =>
    rw [Names.callType] at ht
    split at ht
    · next hmany =>
      obtain ⟨⟨id, s⟩, hselected, rfl⟩ := Option.map_eq_some_iff.1 ht
      have hdeclares := hid r ps rfl hmany id s
      obtain ⟨types, htypes, hoverload⟩ := Option.bind_eq_some_iff.1 hselected
      obtain ⟨qs, hmem, _⟩ := Reaction.selectOverload_eq_some hoverload
      have hdeclared := List.forall₂_zip (mapM_eq_some_iff.1 htypes) hmem
      exact (Ty.closed_function.1 (hdeclares _ hselected hdeclared)).1
    · split at ht
      · exact Option.some.inj ht ▸ (Ty.closed_function.1 hu).1
      · cases ht
  | _ => cases ht

end Names

namespace Program.Charted

variable {p : Program} {d : Draft} {a : Analysis} {st : Setting}

/-- Where nothing leaks, a member that is accessed or called has a closed type. -/
theorem closed_of_selected (h : p.Charted d) (ha : p.Analysed d a) {role : Role} {e : Expr} {id : DeclId}
    {t : Ty} (hno : ¬a.Leaks p st role e)
    (hid : (d.names p).selectedAt ⟨st, .expr role e⟩ = some id)
    (ht : (d.names p).declarationType id = some t) : t.closed = true := by
  by_contra hopen
  have hhidden : p.Hides d.tables id := by_contra fun hout => hopen (h.closed_declarationType hout ht)
  rw [← ha.names_eq h.numbered] at hid
  rw [← ha.tables] at hhidden
  rw [← ha.declarationType?_eq h.numbered (lt_size_of_declarationType ht)] at ht
  exact hno (.member hid hhidden ht (Bool.eq_false_iff.2 hopen))

/-- Where nothing leaks, what a call selects among several functions has a closed type. -/
theorem closed_of_overload (h : p.Charted d) (ha : p.Analysed d a) (hout : ¬p.InTemplate st.home)
    {role : Role} {node : Node} {callee : Expr} {arguments : List Expr} {result r v : Ty} {ps received : List Ty}
    {scopes : List ScopeId} {id : DeclId} (hs : ⟨st, .expr role (.call node callee arguments)⟩ ∈ p.sites)
    (hno : ¬a.Leaks p st role (.call node callee arguments))
    (hu : (d.names p).type st.home none callee = some (.function result ps))
    (hreceived : (d.names p).argumentTypes st.home (.function result ps) 0 arguments = some received)
    (hscopes : (d.names p).calleeScopes st.home callee = some scopes)
    (hmany : 1 < ((d.names p).overloads callee.calleeName? scopes).length)
    (hid : (d.names p).selected ((d.names p).overloads callee.calleeName? scopes) received = some (id, r))
    (ht : (d.names p).declarationType id = some v) : v.closed = true := by
  cases hcallee : callee.selects with
  | true =>
    refine h.closed_of_selected ha hno ?_ ht
    simp only [Names.selectedAt, Expr.selects, hcallee, if_true]
    rw [Names.chosen_call node hu hreceived hscopes, if_pos hmany, hid]
    rfl
  | false =>
    have hsite : ⟨st, .expr .free callee⟩ ∈ p.sites :=
      (h.numbered.premise hs (by simp [Site.premises, Site.ofExpr])).1
    obtain ⟨types, _, hselected⟩ := Option.bind_eq_some_iff.1 hid
    obtain ⟨qs, hmem, _⟩ := Reaction.selectOverload_eq_some hselected
    exact h.closed_declarationType
      (h.not_hides_of_overload hout hsite hcallee hscopes id (List.of_mem_zip hmem).1) ht

/-- The parts that an expression has its type from stand where it does, and leak only if it does. -/
theorem part (h : p.Charted d) {role : Role} {e c : Expr} (hs : ⟨st, .expr role e⟩ ∈ p.sites)
    (hno : ¬a.Leaks p st role e) (hc : c ∈ e.typedBy) :
    ⟨st, .expr .free c⟩ ∈ p.sites ∧ ¬a.Leaks p st .free c :=
  ⟨(h.numbered.premise hs (List.mem_append_right _ (Expr.mem_ofExpr hc))).1, fun hleak => hno (.part hc hleak)⟩

mutual

/-- Outside of templates the type of an expression that does not leak is closed, if what is expected of an
empty literal is. -/
theorem closed_type (h : p.Charted d) (ha : p.Analysed d a) (hout : ¬p.InTemplate st.home) :
    ∀ (e : Expr) {role : Role} {x : Option Ty} {t : Ty}, ⟨st, .expr role e⟩ ∈ p.sites →
      ¬a.Leaks p st role e → (∀ node c, e = .literal node c [] → ∀ u, x = some u → u.closed = true) →
      (d.names p).type st.home x e = some t → t.closed = true
  | .int _ _, _, _, _, _, _, _, ht | .float _ _, _, _, _, _, _, _, ht | .string _ _, _, _, _, _, _, _, ht
  | .not _ _, _, _, _, _, _, _, ht => by
    rw [Names.type] at ht
    cases ht
    rfl
  | .symbol ref, _, _, _, hs, _, _, ht => by
    rw [Names.type] at ht
    exact h.closed_referenceType hs rfl hout ht
  | .paren _ inner, _, _, _, hs, hno, _, ht => by
    rw [Names.type] at ht
    obtain ⟨hinner, hnoPart⟩ := h.part hs hno (c := inner) (by simp [Expr.typedBy])
    exact closed_type h ha hout inner hinner hnoPart (by simp) ht
  | .literal node c elements, _, x, t, hs, hno, hx, ht => by
    rw [Names.type] at ht
    split at ht
    · next hnil =>
      rw [List.isEmpty_iff] at hnil
      exact hx node c (hnil ▸ rfl) t (Option.filter_eq_some_iff.1 ht).1
    · obtain ⟨ts, hts, ht⟩ := Option.bind_eq_some_iff.1 ht
      obtain ⟨u, hu, ht⟩ := Option.bind_eq_some_iff.1 ht
      cases ht
      have hparts : ∀ e ∈ elements, ⟨st, .expr .free e⟩ ∈ p.sites ∧ ¬a.Leaks p st .free e :=
        fun e he => h.part hs hno he
      have hclosed : u.closed = true :=
        Names.forall_elementType (P := (·.closed)) (by simp) (closed_types h ha hout elements hparts hts) hu
      exact hclosed
  | .binary _ op left right, _, _, _, hs, hno, _, ht => by
    rw [Names.type] at ht
    split at ht
    · obtain ⟨l, hl, ht⟩ := Option.bind_eq_some_iff.1 ht
      obtain ⟨r, hr, ht⟩ := Option.bind_eq_some_iff.1 ht
      obtain ⟨hleft, hnoLeft⟩ := h.part hs hno (c := left) (by simp [Expr.typedBy])
      obtain ⟨hright, hnoRight⟩ := h.part hs hno (c := right) (by simp [Expr.typedBy])
      exact Ty.closed_arithmetic? (closed_type h ha hout left hleft hnoLeft (by simp) hl)
        (closed_type h ha hout right hright hnoRight (by simp) hr) ht
    · cases ht
      rfl
  | .assign _ target value, _, _, _, hs, hno, _, ht => by
    rw [Names.type] at ht
    obtain ⟨l, hl, ht⟩ := Option.bind_eq_some_iff.1 ht
    obtain ⟨r, _, ht⟩ := Option.bind_eq_some_iff.1 ht
    cases ht
    obtain ⟨htarget, hnoPart⟩ := h.part hs hno (c := target) (by simp [Expr.typedBy])
    exact closed_type h ha hout target htarget hnoPart (by simp) hl
  | .call node callee arguments, _, _, _, hs, hno, _, ht => by
    rw [Names.type] at ht
    obtain ⟨u, hu, ht⟩ := Option.bind_eq_some_iff.1 ht
    obtain ⟨received, hreceived, ht⟩ := Option.bind_eq_some_iff.1 ht
    obtain ⟨scopes, hscopes, ht⟩ := Option.bind_eq_some_iff.1 ht
    obtain ⟨hcallee, hnoPart⟩ := h.part hs hno (c := callee) (by simp [Expr.typedBy])
    refine Names.closed_callType (closed_type h ha hout callee hcallee hnoPart (by simp) hu) ?_ ht
    rintro result ps rfl hmany id r v hid hv
    exact h.closed_of_overload ha hout hs hno hu hreceived hscopes hmany hid hv
  | .templateCall _ callee types arguments, _, _, _, hs, hno, _, ht => by
    rw [Names.type] at ht
    obtain ⟨u, hu, ht⟩ := Option.bind_eq_some_iff.1 ht
    obtain ⟨given, hgiven, ht⟩ := Option.bind_eq_some_iff.1 ht
    obtain ⟨received, _, ht⟩ := Option.bind_eq_some_iff.1 ht
    obtain ⟨hcallee, hnoPart⟩ := h.part hs hno (c := callee) (by simp [Expr.typedBy])
    exact Names.closed_templateCallType (Names.type_regular callee (by simp) hu)
      (closed_type h ha hout callee hcallee hnoPart (by simp) hu)
      (forall_of_mapM hgiven fun _ _ _ hv => h.closed_writtenType (home_of_site hs) hout hv) ht
  | .index _ base position, _, _, _, hs, hno, _, ht => by
    rw [Names.type] at ht
    obtain ⟨b, hb, ht⟩ := Option.bind_eq_some_iff.1 ht
    obtain ⟨i, _, ht⟩ := Option.bind_eq_some_iff.1 ht
    obtain ⟨hbase, hnoPart⟩ := h.part hs hno (c := base) (by simp [Expr.typedBy])
    exact Names.closed_indexedType (closed_type h ha hout base hbase hnoPart (by simp) hb) ht
  | .member node c stem name, _, _, _, hs, hno, _, ht => by
    rw [Names.type] at ht
    obtain ⟨u, hu, ht⟩ := Option.bind_eq_some_iff.1 ht
    refine Names.closed_memberType (fun id hid => h.closed_of_selected ha hno ?_) ht
    simp [Names.selectedAt, Expr.selects, Names.chosen, hu, hid]
  | .construct _ c ref, _, _, _, hs, _, _, ht => by
    rw [Names.type] at ht
    obtain ⟨id, hid, ht⟩ := Option.bind_eq_some_iff.1 ht
    have href : ⟨st, .reference ref⟩ ∈ p.sites :=
      (h.numbered.premise hs (List.mem_append_right _ (by simp [Site.ofExpr]))).1
    exact h.closed_constructorType (h.not_hides_of_decl href rfl hout hid) ht

theorem closed_types (h : p.Charted d) (ha : p.Analysed d a) (hout : ¬p.InTemplate st.home) :
    ∀ (es : List Expr) {ts : List Ty}, (∀ e ∈ es, ⟨st, .expr .free e⟩ ∈ p.sites ∧ ¬a.Leaks p st .free e) →
      (d.names p).types st.home es = some ts → ∀ t ∈ ts, t.closed = true
  | [], _, _, hts => by
    rw [Names.types] at hts
    cases hts
    simp
  | e :: rest, _, hes, hts => by
    rw [Names.types] at hts
    obtain ⟨u, hu, hts⟩ := Option.bind_eq_some_iff.1 hts
    obtain ⟨us, hus, hts⟩ := Option.bind_eq_some_iff.1 hts
    cases hts
    rw [List.forall_mem_cons] at hes ⊢
    exact ⟨closed_type h ha hout e hes.1.1 hes.1.2 (by simp) hu, closed_types h ha hout rest hes.2 hus⟩

end

end Program.Charted

namespace Program

theorem not_inTemplate_top {p : Program} (hp : p.Numbered) : ¬p.InTemplate p.node.id := by
  intro h
  generalize hn : p.node.id = n at h
  cases h with
  | template hs => exact hp.id_ne hs hn.symm
  | inside hs _ => exact hp.id_ne hs hn.symm

/-- The type of an expression of a given shape that stands directly in a program. -/
def directType? (p : Program) (a : Analysis) (shape : Expr → Bool) (s : Site) : Option Ty :=
  match s.part with
  | .expr _ e => if s.setting.home = p.node.id ∧ shape e = true then a.exprType? e else none
  | _ => none

theorem exists_of_directType? {p : Program} {a : Analysis} {shape : Expr → Bool} {test : Ty → Bool}
    (hp : p.Numbered) (h : p.sites.any (fun s => (p.directType? a shape s).any test) = true) :
    ∃ st role e t, ⟨st, .expr role e⟩ ∈ p.sites ∧ ¬p.InTemplate st.home ∧ shape e = true ∧
      a.exprType? e = some t ∧ test t = true := by
  obtain ⟨⟨st, part⟩, hs, hany⟩ := List.any_eq_true.1 h
  obtain ⟨t, htype, htest⟩ := (Option.any_eq_true ..).1 hany
  unfold directType? at htype
  split at htype
  · next role e hpart =>
    obtain rfl : part = _ := hpart
    split at htype
    · next hshape =>
      have hout : ¬p.InTemplate st.home := by
        rw [show st.home = p.node.id from hshape.1]
        exact not_inTemplate_top hp
      exact ⟨st, role, e, t, hs, hout, hshape.2, htype, htest⟩
    · cases htype
  · cases htype

end Program

namespace Expr

end Expr

namespace Program

def hiddenMemberText : String :=
  "template<T: Type> fun make(x: T): C \x7b class C \x7b var v: T = x \x7d return (create C)() \x7d
  make<Int>(1)$v = 1"

/-- A member of a class that is declared inside of a template has a placeholder of the template in its type
wherever it is accessed. -/
theorem placeholder_in_hidden_member :
    ∃ tokens p c a st role e t, Token.tokenize hiddenMemberText "main" = .ok tokens ∧
      parse tokens "main" = .ok p c ∧ p.analyse = .ok a ∧ a.diagnostics = [] ∧
      ⟨st, .expr role e⟩ ∈ p.sites ∧ ¬p.InTemplate st.home ∧ a.exprType? e = some t ∧
      t.render.toOption = some "T" ∧ t.closed = false := by
  obtain ⟨tokens, p, c, a, htokens, hparse, ha, hnil, htest⟩ :=
    exists_of_accepts 10 "main" hiddenMemberText (fun p a => p.sites.any fun s =>
      (p.directType? a Expr.selects s).any fun t => t.render.toOption = some "T" ∧ t.closed = false)
      (by decide +kernel)
  obtain ⟨st, role, e, t, hs, hout, _, htype, hrender⟩ := exists_of_directType? (numbered_of_parse hparse) htest
  obtain ⟨htext, hopen⟩ := of_decide_eq_true hrender
  exact ⟨tokens, p, c, a, st, role, e, t, htokens, hparse, ha, hnil, hs, hout, htype, htext, hopen⟩

end Program

end ScriptAnalysis
