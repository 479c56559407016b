import ScriptAnalysis.Proofs.Typing.Acceptance
import ScriptAnalysis.Proofs.Typing.Confinement
import ScriptAnalysis.Proofs.Typing.Resolved

/-!
Analyses without faults. All values that the solution of a program has are of the kind that their attribute
asks for, and what they number exists (`Program.Drafted.fits`). So in every order in which the rules of a
program can be settled they only read inputs that are set and fit, and none of them breaks
(`Program.analysis_faultless`).
-/
namespace ScriptAnalysis

open Relation (ReflTransGen)

/-- A value that an attribute of a kind may have: a regular type, in which templates have at least the
parameters that they count and which therefore has a text, a declaration or a scope that exists, or a truth
value. -/
def Value.Fits (t : Tables) : AttributeKind → Value → Prop
  | .type, .type ty | .declared, .type ty | .value, .type ty =>
    ty.Regular t.declarations.size ∧ ∃ text, ty.render = .ok text
  | .decl, .decl id => ∃ x, t.declarations.get id = .ok x
  | .scope, .scope id => ∃ s, t.scopes.get id = .ok s
  | .returns, .flag _ => True
  | _, _ => False

namespace Program.Drafted

variable {p : Program} {d : Draft} {home n : NodeId} {f : Binding} {id : DeclId}

theorem lt_size_of_binding (hp : p.Numbered) (hd : p.Drafted d) (h : d.bindingAt p n = some f) :
    f.declaration.index < d.size ∧ f.scope.index < d.tables.scopes.size := by
  obtain ⟨s, hsite, hrest⟩ := Option.bind_eq_some_iff.1 h
  obtain ⟨ref, hr, _⟩ := Option.bind_eq_some_iff.1 hrest
  obtain ⟨hs, rfl⟩ := mem_of_siteAt hsite
  rw [Site.id_of_reference? hr] at h
  rcases bindingAt_eq hp hd hs hr with ⟨f', hf', _, hscope, hv⟩ | ⟨scope, _, hlookup, _, _, hv⟩
  · rw [h, Option.some.injEq] at hf'
    subst hf'
    exact ⟨hv.lt_size, hd.sound.stored _ _ _ hscope⟩
  · rw [h] at hlookup
    obtain ⟨_, hscope, _⟩ := ScopeTable.mem_of_finds (ScopeTable.finds_of_search hlookup) rfl
    exact ⟨(hv f h).lt_size, ScopeTable.lt_size_of_getElem? hscope⟩

theorem lt_size_of_memberDecl (hd : p.Drafted d) {c : Composite} {name : String} {u : Ty}
    (hu : u.Regular d.size) (h : (d.names p).memberDecl c name u = some id) : id.index < d.size := by
  cases hu with
  | @composite c' owner howner =>
    by_cases hc : c = c'
    · subst hc
      obtain ⟨_, _, _, hbound⟩ := memberDecl_eq (p := p) c name hd howner
      exact hbound id h
    · simp [Names.memberDecl, hc] at h
  | _ => cases h

theorem lt_size_of_selected (hd : p.Drafted d) {name : Option String} {scopes : List ScopeId}
    {received : List Ty} {result : Ty}
    (h : (d.names p).selected ((d.names p).overloads name scopes) received = some (id, result)) :
    id.index < d.size := by
  obtain ⟨types, _, h⟩ := Option.bind_eq_some_iff.1 h
  obtain ⟨_, hmem, _⟩ := Reaction.selectOverload_eq_some h
  exact lt_size_of_overload hd (List.of_mem_zip hmem).1

theorem lt_size_of_chosen (hp : p.Numbered) (hd : p.Drafted d) : ∀ (e : Expr) {id : DeclId},
    (d.names p).chosen home e = some id → id.index < d.size
  | .symbol ref, id, h => by
    rw [Names.chosen, decl_of_reference] at h
    obtain ⟨f, hf, rfl⟩ := Option.map_eq_some_iff.1 h
    exact (lt_size_of_binding hp hd hf).1
  | .member _ c stem name, id, h => by
    rw [Names.chosen] at h
    obtain ⟨u, hu, h⟩ := Option.bind_eq_some_iff.1 h
    exact lt_size_of_memberDecl hd (Names.type_regular stem (by simp) hu) h
  | .call _ callee arguments, id, h => by
    rw [Names.chosen] at h
    obtain ⟨t, _, h⟩ := Option.bind_eq_some_iff.1 h
    obtain ⟨received, _, h⟩ := Option.bind_eq_some_iff.1 h
    obtain ⟨scopes, _, h⟩ := Option.bind_eq_some_iff.1 h
    dsimp only at h
    split at h
    · split at h
      · obtain ⟨⟨_, result⟩, hselected, rfl⟩ := Option.map_eq_some_iff.1 h
        exact lt_size_of_selected hd hselected
      split at h
      · exact lt_size_of_chosen hp hd callee h
      · cases h
    · cases h
  | .int _ _, _, h | .float _ _, _, h | .string _ _, _, h | .paren _ _, _, h | .literal _ _ _, _, h
  | .not _ _, _, h | .binary _ _ _ _, _, h | .assign _ _ _, _, h | .templateCall _ _ _ _, _, h
  | .index _ _ _, _, h | .construct _ _ _, _, h => by cases h

theorem fits_type {t : Ty} (h : t.Regular d.size) {κ : AttributeKind}
    (hκ : κ ∈ [AttributeKind.type, .declared, .value]) : (Value.type t).Fits d.tables κ := by
  simp only [List.mem_cons, List.not_mem_nil, or_false] at hκ
  rcases hκ with rfl | rfl | rfl <;> exact ⟨h, h.exists_render⟩

theorem fits_decl (h : id.index < d.size) : (Value.decl id).Fits d.tables .decl := by
  obtain ⟨x, hx⟩ := Declarations.exists_item h
  exact ⟨x, Declarations.get_eq_ok.2 hx⟩

theorem fits_scope {scope : ScopeId} (h : scope.index < d.tables.scopes.size) :
    (Value.scope scope).Fits d.tables .scope := by
  obtain ⟨s, hs⟩ := ScopeTable.exists_scope h
  exact ⟨s, ScopeTable.get_eq_ok.2 hs⟩

theorem lt_size_of_scope (hp : p.Numbered) (hd : p.Drafted d) {scope : ScopeId}
    (h : (d.names p).scope n = some scope) : scope.index < d.tables.scopes.size := by
  simp only [Draft.names] at h
  split at h
  · obtain ⟨f, hf, rfl⟩ := Option.map_eq_some_iff.1 h
    exact (lt_size_of_binding hp hd hf).2
  · exact hd.sound.stored n .scope _ (Attributes.scope?_eq_some.1 h)

theorem fits_site (hp : p.Numbered) (hd : p.Drafted d) {s : Site} {κ : AttributeKind} {v : Value}
    (h : (d.names p).siteSlot s κ = some (.set v)) : v.Fits d.tables κ := by
  cases κ with
  | type =>
    simp only [Names.siteSlot] at h
    split at h
    · obtain ⟨t, ht, rfl⟩ := Slot.of_eq_set (Option.some.inj h)
      exact fits_type (Names.typeIn_regular ht) (by simp)
    · obtain ⟨t, ht, rfl⟩ := Slot.of_eq_set (Option.some.inj h)
      exact fits_type (Names.kept_regular.referenceType ht) (by simp)
    · cases h
  | value =>
    simp only [Names.siteSlot] at h
    split at h
    · obtain ⟨t, ht, rfl⟩ := Slot.of_eq_set (Option.some.inj h)
      exact fits_type (Names.writtenType_plain ht).regular (by simp)
    · cases h
  | decl =>
    simp only [Names.siteSlot] at h
    split at h
    · obtain ⟨id, hid, rfl⟩ := Slot.of_eq_set (Option.some.inj h)
      obtain ⟨f, hf, rfl⟩ := Option.map_eq_some_iff.1 hid
      exact fits_decl (lt_size_of_binding hp hd hf).1
    · obtain ⟨id, hid, hv⟩ := Option.map_eq_some_iff.1 h
      cases hv
      exact fits_decl (lt_size_of_chosen hp hd _ hid)
    · cases h
  | scope =>
    simp only [Names.siteSlot] at h
    split at h
    · obtain ⟨scope, hscope, rfl⟩ := Slot.of_eq_set (Option.some.inj h)
      exact fits_scope (lt_size_of_scope hp hd hscope)
    · obtain ⟨scope, hscope, hv⟩ := Option.map_eq_some_iff.1 h
      cases hv
      exact fits_scope (lt_size_of_scope hp hd hscope)
  | returns =>
    simp only [Names.siteSlot] at h
    split at h
    · cases h
      trivial
    · split at h
      · cases h
        trivial
      · cases h
    · cases h
  | declared => cases h

theorem fits (hp : p.Numbered) (hd : p.Drafted d) {a : Attribute} {v : Value}
    (h : (d.names p).solution a = some (.set v)) : v.Fits d.tables a.kind := by
  obtain ⟨owner, κ⟩ := a
  cases owner with
  | node n =>
    simp only [Names.solution] at h
    split at h
    · exact fits_site hp hd h
    · split at h
      · next hκ =>
        obtain ⟨scope, hscope, hv⟩ := Option.map_eq_some_iff.1 h
        cases hv
        subst hκ
        exact fits_scope (lt_size_of_scope hp hd hscope)
      · cases h
  | decl id =>
    simp only [Names.solution] at h
    split at h
    · obtain ⟨t, ht, rfl⟩ := Slot.of_eq_set (Option.some.inj h)
      exact fits_type (Names.declarationType_regular ht) (by simp)
    · obtain ⟨t, ht, hv⟩ := Option.map_eq_some_iff.1 h
      cases hv
      exact fits_type (Tables.introduced_plain ht).regular (by simp)
    · cases h

end Program.Drafted

/-- A state of a resolution in which nothing can break: all values fit their attributes, rules take values
from their own inputs only, and each rule whose inputs are set can react. A reaction breaks when it asks for
an input or output at a position that its rule does not have, or for a value of another kind than is set. -/
structure Rule.State.Faultless (t : Tables) (S : Rule.State) : Prop where
  values : ∀ a v, S.attributes.get? a = some v → v.Fits t a.kind
  reads : ∀ r ∈ S.agenda, r.Confined fun _ => True
  reacts : ∀ r ∈ S.agenda, (∀ i ∈ r.inputs, S.attributes.isSet i = true) →
    ∃ e, r.body.run r.node S.attributes = .ok e

/-- What is left of the resolution of a draft cannot break, in whatever order the rules are settled. -/
theorem Program.Drafted.faultless {p : Program} {d : Draft} (hp : p.Numbered) (hd : p.Drafted d)
    {S : Rule.State} (h : ReflTransGen Rule.Step d.state S) : S.Faultless d.tables := by
  have hkept := (hd.kept hp).steps h
  refine ⟨fun a v hv => ?_, ?_, fun r hr hset => ?_⟩
  · exact hd.fits hp (hkept.within a _ (Attributes.get?_eq_some.1 hv))
  · refine (Rule.confined_of_steps (fun r hr => ?_) (fun _ _ => trivial) h).1
    obtain ⟨o, _, rfl⟩ := List.mem_map.1 hr
    exact Goal.confined_react (fun _ _ => trivial) _ _ _ fun _ _ _ _ _ => trivial
  · exact hkept.safe r hr (Rule.readiness_eq_ready.2 hset)

/-- The analysis of a program that parses never breaks: the walk succeeds, and from the draft that it leaves
only states are reached in which nothing can break. -/
theorem Program.analysis_faultless {tokens : List Token} {file : String} {p : Program} {c : Cursor}
    (h : Program.parse tokens file = .ok p c) :
    ∃ d a, Draft.after (p.walk Walk.reference) = .ok d ∧ d.resolve = .ok a ∧ p.analyse = .ok a ∧
      (∀ S, ReflTransGen Rule.Step d.state S → S.Faultless a.tables) ∧
      ∃ ds, a.diagnostics.Perm ds ∧ ReflTransGen Rule.Step d.state ⟨a.attributes, ds, []⟩ := by
  have hp := numbered_of_parse h
  obtain ⟨d, a, ha, hd⟩ := analysed hp
  refine ⟨d, a, hd.walked, hd.resolved, ha, fun S hS => ?_, hd.reached⟩
  rw [hd.tables]
  exact hd.drafted.faultless hp hS

/-- A template that is called with too many types and passed as an argument, and a name that nothing
binds. -/
def templateText : String :=
  "template <T: Type> fun first(a: T[], b: T): T \x7b return a[0] \x7d
  class C \x7b fun m(n: Int): Int \x7b return first<Int, Int>([n], first) \x7d \x7d
  var c: C = (create C)() c$m(first<Int>([1], missing), first + 2)"

theorem Program.analysis_faultless_template :
    ∃ tokens p c d a, Token.tokenize templateText "first" = .ok tokens ∧
      Program.parse tokens "first" = .ok p c ∧ p.body.length = 4 ∧
      Draft.after (p.walk Walk.reference) = .ok d ∧ d.resolve = .ok a ∧ p.analyse = .ok a ∧
      (∀ S, ReflTransGen Rule.Step d.state S → S.Faultless a.tables) ∧
      ∃ ds, a.diagnostics.Perm ds ∧ ReflTransGen Rule.Step d.state ⟨a.attributes, ds, []⟩ := by
  obtain ⟨tokens, p, c, htokens, hparse, hlength⟩ := Program.exists_of_reads "first" templateText
    (fun p => p.body.length = 4) (by decide +kernel)
  obtain ⟨d, a, hfaultless⟩ := Program.analysis_faultless hparse
  exact ⟨tokens, p, c, d, a, htokens, hparse, of_decide_eq_true hlength, hfaultless⟩

end ScriptAnalysis
