import ScriptAnalysis.Proofs.Typing.Calls
import ScriptAnalysis.Proofs.Typing.Findings

/-!
Calls by a name that several functions have. The functions come scope by scope from the context of the
callee (`Analysis.Context`), and the types of the arguments select one of them: the first whose parameters
have exactly these types, else the first that accepts them (`Reaction.Selects`). The call is bound to the
function and has its result type; where no function is selected there is one finding at the call
(`Program.overload_selected`).
-/
namespace ScriptAnalysis

namespace Ty

/-- A function whose parameters have exactly the given types. -/
def TakesExactly (received : List Ty) : Ty → Prop
  | .function _ parameters => List.Forall₂ (fun e r => e.same r = true) parameters received
  | _ => False

instance {received : List Ty} : DecidablePred (TakesExactly received)
  | .function _ _ => inferInstanceAs (Decidable (List.Forall₂ _ _ _))
  | .primitive _ | .container _ _ | .composite _ _ | .placeholder _ | .template _ _ _ => isFalse id

/-- A function whose parameters accept the given types. -/
def Accepts (received : List Ty) : Ty → Prop
  | .function _ parameters => List.Forall₂ (fun r e => r.assignable e = true) received parameters
  | _ => False

theorem sameAll_iff {as bs : List Ty} :
    sameAll as bs = true ↔ List.Forall₂ (fun a b => a.same b = true) as bs := by
  refine ⟨forall₂_of_sameAll, fun h => ?_⟩
  induction h with
  | nil => rw [sameAll]
  | cons hab _ ih => rw [sameAll, hab, ih, Bool.and_self]

end Ty

namespace Reaction

variable {received : List Ty} {candidates : List (DeclId × Ty)}

/-- The overload that the types of arguments select, and its result type. -/
inductive Selects (received : List Ty) (candidates : List (DeclId × Ty)) :
    Option (DeclId × Ty) → Prop
  | exactly {before after id result parameters}
      (hsplit : candidates = before ++ (id, .function result parameters) :: after)
      (h : (Ty.function result parameters).TakesExactly received)
      (hbefore : ∀ x ∈ before, ¬x.2.TakesExactly received) :
      Selects received candidates (some (id, result))
  /-- The first that accepts them, if none takes exactly these types. -/
  | accepting {before after id result parameters}
      (hnone : ∀ x ∈ candidates, ¬x.2.TakesExactly received)
      (hsplit : candidates = before ++ (id, .function result parameters) :: after)
      (h : (Ty.function result parameters).Accepts received)
      (hbefore : ∀ x ∈ before, ¬x.2.Accepts received) :
      Selects received candidates (some (id, result))
  | nothing (hnone : ∀ x ∈ candidates, ¬x.2.TakesExactly received)
      (h : ∀ x ∈ candidates, ¬x.2.Accepts received) : Selects received candidates none

theorem any_fitting_same {x : DeclId × Ty} :
    (fitting received x).any (fun y => Ty.sameAll y.2.2 received) = true ↔
      x.2.TakesExactly received := by
  rw [Option.any_eq_true]
  constructor
  · rintro ⟨y, hy, hsame⟩
    obtain ⟨rfl, _⟩ := fitting_eq_some.1 hy
    exact Ty.sameAll_iff.1 hsame
  · intro h
    obtain ⟨id, t⟩ := x
    cases t with
    | function result parameters =>
      have hsame : List.Forall₂ (fun e r => e.same r = true) parameters received := h
      exact ⟨(id, result, parameters), fitting_eq_some.2 ⟨rfl, hsame.length_eq⟩, Ty.sameAll_iff.2 hsame⟩
    | _ => cases h

theorem any_fitting_accepts {x : DeclId × Ty} :
    (fitting received x).any (fun y => (received.zip y.2.2).all fun (r, e) => r.assignable e) = true ↔
      x.2.Accepts received := by
  rw [Option.any_eq_true]
  constructor
  · rintro ⟨y, hy, hall⟩
    obtain ⟨rfl, hlen⟩ := fitting_eq_some.1 hy
    rw [List.all_eq_true] at hall
    exact List.forall₂_iff_zip.2 ⟨hlen.symm, fun hx => hall _ hx⟩
  · intro h
    obtain ⟨id, t⟩ := x
    cases t with
    | function result parameters =>
      have hall : List.Forall₂ (fun r e => r.assignable e = true) received parameters := h
      refine ⟨(id, result, parameters), fitting_eq_some.2 ⟨rfl, hall.length_eq.symm⟩, ?_⟩
      rw [List.all_eq_true]
      exact fun x hx => (List.forall₂_iff_zip.1 hall).2 hx
    | _ => cases h

/-- The first candidate with the right number of parameters and a further property. -/
theorem exists_of_find?_fitting {p : DeclId × Ty × List Ty → Bool} {y : DeclId × Ty × List Ty}
    (h : (candidates.filterMap (fitting received)).find? p = some y) :
    ∃ before after, candidates = before ++ (y.1, .function y.2.1 y.2.2) :: after ∧
      (fitting received (y.1, .function y.2.1 y.2.2)).any p = true ∧
      ∀ x ∈ before, ¬(fitting received x).any p = true := by
  rw [List.find?_filterMap] at h
  obtain ⟨x, hx, hfit⟩ := Option.bind_eq_some_iff.1 h
  obtain ⟨hp, before, after, hsplit, hbefore⟩ := List.find?_eq_some_iff_append.1 hx
  obtain ⟨rfl, _⟩ := fitting_eq_some.1 hfit
  exact ⟨before, after, hsplit, hp, fun x hx => by simpa using hbefore x hx⟩

theorem forall_of_find?_fitting {p : DeclId × Ty × List Ty → Bool}
    (h : (candidates.filterMap (fitting received)).find? p = none) :
    ∀ x ∈ candidates, ¬(fitting received x).any p = true := by
  intro x hx hany
  obtain ⟨y, hy, hp⟩ := (Option.any_eq_true _ _).1 hany
  exact List.find?_eq_none.1 h y (List.mem_filterMap.2 ⟨x, hx, hy⟩) hp

/-- The choice among overloads keeps to the order of the candidates, exact types first. -/
theorem selects_selectOverload (received : List Ty) (candidates : List (DeclId × Ty)) :
    Selects received candidates (selectOverload received candidates) := by
  have heq : selectOverload received candidates =
      (((candidates.filterMap (fitting received)).find? fun y => Ty.sameAll y.2.2 received).or
        ((candidates.filterMap (fitting received)).find? fun y =>
          (received.zip y.2.2).all fun (r, e) => r.assignable e)).map fun y => (y.1, y.2.1) := rfl
  rw [heq]
  cases hsame : (candidates.filterMap (fitting received)).find? fun y => Ty.sameAll y.2.2 received with
  | some y =>
    obtain ⟨before, after, hsplit, hy, hbefore⟩ := exists_of_find?_fitting hsame
    simp only [any_fitting_same] at hy hbefore
    exact .exactly hsplit hy hbefore
  | none =>
    have hnone := forall_of_find?_fitting hsame
    simp only [any_fitting_same] at hnone
    rw [Option.none_or]
    cases htakes : (candidates.filterMap (fitting received)).find? fun y =>
        (received.zip y.2.2).all fun (r, e) => r.assignable e with
    | some y =>
      obtain ⟨before, after, hsplit, hy, hbefore⟩ := exists_of_find?_fitting htakes
      simp only [any_fitting_accepts] at hy hbefore
      exact .accepting hnone hsplit hy hbefore
    | none =>
      have hall := forall_of_find?_fitting htakes
      simp only [any_fitting_accepts] at hall
      exact .nothing hnone hall

/-- Among the first candidates one that takes exactly these types goes before all that come later. -/
theorem Selects.exists_first {first rest : List (DeclId × Ty)} {o : Option (DeclId × Ty)}
    (h : Selects received (first ++ rest) o) (hfirst : ∃ x ∈ first, x.2.TakesExactly received) :
    ∃ x ∈ first, o.map (·.1) = some x.1 := by
  obtain ⟨x, hx, hexact⟩ := hfirst
  cases h with
  | @exactly before after id result parameters hsplit _ hbefore =>
    rcases List.append_eq_append_iff.1 hsplit with ⟨l, hl, _⟩ | ⟨l, hl, hafter⟩
    · exact absurd hexact (hbefore x (hl ▸ List.mem_append_left l hx))
    · cases l with
      | nil =>
        rw [List.append_nil] at hl
        exact absurd hexact (hbefore x (hl ▸ hx))
      | cons y l =>
        obtain ⟨rfl, _⟩ := List.cons.inj hafter
        exact ⟨(id, .function result parameters), by simp [hl], rfl⟩
  | accepting hnone | nothing hnone => exact absurd hexact (hnone x (List.mem_append_left rest hx))

end Reaction

theorem exists_mem_zip {α β : Type} {R : α → β → Prop} {xs : List α} {ys : List β} {x : α}
    (h : List.Forall₂ R xs ys) (hx : x ∈ xs) : ∃ y, (x, y) ∈ xs.zip ys ∧ R x y := by
  induction h with
  | nil => cases hx
  | @cons x' y' _ _ hxy _ ih =>
    rcases List.mem_cons.1 hx with rfl | hx
    · exact ⟨y', List.mem_cons_self, hxy⟩
    · obtain ⟨y, hy, hR⟩ := ih hx
      exact ⟨y, List.mem_cons_of_mem _ hy, hR⟩

theorem mapM_eq_ok_of_forall₂ {ε α β : Type} {f : α → Except ε β} {l : List α} {ys : List β}
    (h : List.Forall₂ (fun x y => f x = .ok y) l ys) : l.mapM f = .ok ys := by
  induction h with
  | nil => rfl
  | cons hx _ ih =>
    rw [List.mapM_cons, hx, ih]
    rfl

/-- The body of a class comes first, and behind it the bodies of its direct superclasses. -/
theorem Tables.classScopes_eq {t : Tables} {id : DeclId} {x : Declaration} {info : ClassInfo}
    {supers : List Declaration} (hx : t.declarations.items[id.index]? = some x)
    (hinfo : x.kind = .cls info)
    (hsupers : List.Forall₂ (fun i y => t.declarations.items[i.index]? = some y) info.superclasses
      supers) :
    t.classScopes id = .ok (x.bodyScope.toList ++ supers.filterMap Declaration.bodyScope) := by
  have hget : t.declarations.get id = .ok x := Declarations.get_eq_ok.2 hx
  have hall : (id :: info.superclasses).mapM t.declarations.get = .ok (x :: supers) :=
    mapM_eq_ok_of_forall₂ (.cons hget (hsupers.imp fun _ _ => Declarations.get_eq_ok.2))
  have hscopes : (x :: supers).filterMap Declaration.bodyScope =
      x.bodyScope.toList ++ supers.filterMap Declaration.bodyScope := by
    cases hb : x.bodyScope <;> simp [hb]
  unfold classScopes
  simp only [hget, bind, Except.bind, hinfo, DeclarationKind.class?, hall, pure, Except.pure, hscopes]

namespace OverloadSite

variable {t : Tables} {s s' : Slots} {site : OverloadSite} {scopes : List ScopeId}

inductive Shows (t : Tables) (s : Slots) : OverloadSite → List ScopeId → Prop
  | name {symbol scope} (h : s.value? (.scopeOf symbol) = some (.scope scope)) :
      Shows t s (.name symbol) [scope]
  | element {stem owner scopes}
      (h : s.value? (.typeOf stem) = some (.type (.composite .cls owner)))
      (hscopes : t.classScopes owner.declaration = .ok scopes) : Shows t s (.element stem) scopes

theorem Shows.congr (h : site.Shows t s scopes) (heq : s'.value? site.attr = s.value? site.attr) :
    site.Shows t s' scopes := by
  cases h with
  | name h => exact .name (heq.trans h)
  | element h hscopes => exact .element (heq.trans h) hscopes

theorem Shows.exists_value (h : site.Shows t s scopes) : ∃ v, s.value? site.attr = some v := by
  cases h with
  | name h | element h => exact ⟨_, h⟩

theorem Shows.answered (h : site.Shows t s scopes) {inputs : List Attribute} {i : Nat}
    (hi : inputs[i]? = some site.attr) (next : List ScopeId → Reaction) :
    (Goal.overloadScopes t inputs (some site) i next).answered s = (next scopes).answered s := by
  cases h with
  | name h => rw [Goal.overloadScopes, Reaction.scopeAt_eq hi, attr, Reaction.answered_readScope h]
  | element h hscopes =>
    rw [Goal.overloadScopes, Reaction.typeAt_eq hi, attr, Reaction.answered_readType h]
    simp only [hscopes, Reaction.attempt]

end OverloadSite

/-- Whether a cause says that no overload takes the arguments. -/
def Cause.isMismatch : Cause → Bool
  | .noMatchingOverload _ _ => true
  | _ => false

namespace Analysis

variable {a : Analysis} {callee : Expr} {arguments : List Expr} {name : String}
  {own inherited : List ScopeId} {parameters received types : List Ty}

/-- The name of a callee and the scopes that hold the functions of this name: the scope that a name
resolved in or, for a member of a class, the body of the class, and behind it the bodies of its direct
superclasses. -/
inductive Context (a : Analysis) : Expr → String → (own inherited : List ScopeId) → Prop
  | name {ref scope} (h : a.attributes.scope? (.scopeOf ref.node.id) = some scope) :
      Context a (.symbol ref) ref.name [scope] []
  | paren {node inner name own inherited} (h : Context a inner name own inherited) :
      Context a (.paren node inner) name own inherited
  | element {node stem name owner x info supers}
      (hstem : a.exprType? stem = some (.composite .cls owner))
      (hx : a.tables.declarations.items[owner.declaration.index]? = some x) (hinfo : x.kind = .cls info)
      (hsupers : List.Forall₂ (fun i y => a.tables.declarations.items[i.index]? = some y)
        info.superclasses supers) :
      Context a (.member node .cls stem name) name x.bodyScope.toList
        (supers.filterMap Declaration.bodyScope)

/-- A callee with several functions of its name in context, of which all types are known, as are those of
the callee and of the arguments. -/
structure Overloaded (a : Analysis) (callee : Expr) (arguments : List Expr) (name : String)
    (own inherited : List ScopeId) (parameters received types : List Ty) : Prop where
  context : a.Context callee name own inherited
  several : 1 < (a.tables.signatures.overloads name (own ++ inherited)).length
  callee : ∃ result, a.exprType? callee = some (.function result parameters)
  received : List.Forall₂ (fun e t => a.exprType? e = some t) arguments received
  types : List.Forall₂ (fun id t => a.declarationType? id = some t)
    (a.tables.signatures.overloads name (own ++ inherited)) types

structure Choice (a : Analysis) (callee : Expr) (arguments : List Expr) (overloads : List DeclId)
    (parameters received types : List Ty) : Prop where
  shown : ∃ site scopes, OverloadSite.of? callee = some site ∧
    site.Shows a.tables a.attributes.slot? scopes ∧ (Callee.of callee).overloads a.tables scopes = overloads
  several : 1 < overloads.length
  callee : ∃ result, a.exprType? callee = some (.function result parameters)
  received : List.Forall₂ (fun e t => a.exprType? e = some t) arguments received
  types : List.Forall₂ (fun id t => a.declarationType? id = some t) overloads types

/-- The findings at a node that no overload takes the arguments. -/
def mismatches (a : Analysis) (n : NodeId) : List Diagnostic :=
  a.diagnostics.filter fun x => x.node = some n && x.cause.isMismatch

/-- A call comes to the overload that has been selected; without one there is one finding and no type. -/
def ComesTo (a : Analysis) (call : NodeId) : Option (DeclId × Ty) → Prop
  | some (id, result) => a.attributes.decl? (.declOf call) = some id ∧
    a.attributes.type? (.typeOf call) = some result ∧ a.mismatches call = []
  | none => (∃ x, a.mismatches call = [x]) ∧ a.attributes.slot? (.typeOf call) = some .failed

theorem Context.calleeName? (h : a.Context callee name own inherited) :
    callee.calleeName? = some name := by
  induction h with
  | name | element => rfl
  | paren _ ih => exact ih

theorem Context.shows (h : a.Context callee name own inherited) :
    ∃ site, OverloadSite.of? callee = some site ∧
      site.Shows a.tables a.attributes.slot? (own ++ inherited) := by
  induction h with
  | name h =>
    refine ⟨_, rfl, .name ?_⟩
    exact Slots.value?_eq_some.2 (Attributes.scope?_eq_some.1 h)
  | paren _ ih => exact ih
  | element hstem hx hinfo hsupers =>
    refine ⟨_, rfl, .element ?_ (Tables.classScopes_eq hx hinfo hsupers)⟩
    exact Slots.value?_eq_some.2 (Attributes.type?_eq_some.1 hstem)

theorem Overloaded.choice (h : a.Overloaded callee arguments name own inherited parameters received types) :
    a.Choice callee arguments (a.tables.signatures.overloads name (own ++ inherited)) parameters received
      types := by
  obtain ⟨site, hsite, hshows⟩ := h.context.shows
  have hname : (Callee.of callee).name = some name := h.context.calleeName?
  exact ⟨⟨site, _, hsite, hshows, by rw [Callee.overloads, hname]⟩, h.several, h.callee, h.received, h.types⟩

end Analysis

theorem Cause.isMismatch_of_isEarly {c : Cause} (h : c.isEarly = true) : c.isMismatch = false := by
  cases c with
  | noMatchingOverload => cases h
  | _ => rfl

def Goal.isCall : Goal → Bool
  | .call _ _ => true
  | _ => false

/-- Only a call finds that no overload takes the arguments. -/
theorem Goal.Tells.of_mismatch {t : Tables} {node : Node} {g : Goal} {x : Diagnostic}
    (h : g.Tells t node x) (hx : x.cause.isMismatch = true) :
    g.isCall = true ∧ x.node = some node.id := by
  cases h with
  | noMatchingOverload => exact ⟨rfl, rfl⟩
  | @late scope name cause hblames =>
    cases cause with
    | noMatchingOverload => exact hblames.elim
    | _ => cases hx
  | _ => cases hx

namespace Program.Analysed

variable {p : Program} {d : Draft} {a : Analysis} {st : Setting} {role : Role} {node : Node}
  {callee : Expr} {arguments : List Expr} {name : String} {own inherited : List ScopeId}
  {parameters received types : List Ty}

theorem calleeScopes_of_context (hp : p.Numbered) (h : p.Analysed d a)
    (hc : a.Context callee name own inherited) (hs : ⟨st, .expr .free callee⟩ ∈ p.sites) :
    (d.names p).calleeScopes st.home callee = some (own ++ inherited) := by
  induction hc with
  | @name ref scope hscope =>
    have hN : (d.names p).scope ref.node.id = some scope := (h.scope_eq hp _).symm.trans hscope
    simp [Names.calleeScopes, hN]
  | @paren _ inner _ _ _ _ ih =>
    rw [Names.calleeScopes]
    exact ih (hp.premise hs (c := ⟨st, .expr .free inner⟩)
      (by simp [Site.premises, Site.ofRole, Site.ofExpr])).1
  | @element _ stem _ owner x info supers hstem hx hinfo hsupers =>
    have hsite := (hp.premise hs (c := ⟨st, .expr .free stem⟩)
      (by simp [Site.premises, Site.ofRole, Site.ofExpr])).1
    have hN : (d.names p).type st.home none stem = some (.composite .cls owner) :=
      (h.exprType?_eq hp hsite).symm.trans hstem
    have htables : (d.names p).tables = a.tables := h.tables.symm
    rw [Names.calleeScopes, hN, Option.bind_eq_bind, Option.bind_some, Names.memberScopes, htables,
      Tables.classScopes_eq hx hinfo hsupers]
    rfl

/-- What is owed at a call, besides the check of a condition. -/
theorem filter_obligations_call (h : p.Analysed d a)
    (hs : ⟨st, .expr role (.call node callee arguments)⟩ ∈ p.sites) :
    d.obligations.toList.filter (fun o => o.goal.isCall && o.node.id = node.id) =
      [⟨node, .call (.of callee) (arguments.map Expr.node)⟩] := by
  have hl := h.drafted.leaves _ hs
  have hentry : (d.entry node.id).obligations.filter (·.goal.isCall) =
      [⟨node, .call (.of callee) (arguments.map Expr.node)⟩] := by
    have hid : Site.id ⟨st, .expr role (.call node callee arguments)⟩ = node.id := rfl
    rw [hid] at hl
    generalize d.entry node.id = e at hl
    cases hl with
    | expr _ h =>
      cases h
      rfl
    | condition h =>
      cases h
      rfl
  rw [← hentry, Draft.entry, List.filter_filter]

section Selection

variable (hp : p.Numbered) (h : p.Analysed d a)
  (hs : ⟨st, .expr role (.call node callee arguments)⟩ ∈ p.sites)
  (ho : a.Overloaded callee arguments name own inherited parameters received types)
include h ho

theorem overloads_eq : (d.names p).overloads callee.calleeName? (own ++ inherited) =
    a.tables.signatures.overloads name (own ++ inherited) := by
  have htables : (d.names p).tables = a.tables := h.tables.symm
  rw [ho.context.calleeName?, Names.overloads, htables]

include hp

theorem selected_eq :
    (d.names p).selected (a.tables.signatures.overloads name (own ++ inherited)) received =
      Reaction.selectOverload received
        ((a.tables.signatures.overloads name (own ++ inherited)).zip types) := by
  have heq : ∀ id ∈ a.tables.signatures.overloads name (own ++ inherited),
      (d.names p).declarationType id = a.declarationType? id := by
    intro id hid
    rw [← h.overloads_eq ho] at hid
    exact (h.declarationType?_eq hp (Drafted.lt_size_of_overload h.drafted hid)).symm
  have hall : (a.tables.signatures.overloads name (own ++ inherited)).mapM
      (d.names p).declarationType = some types := by
    rw [mapM_congr_forall₂ (List.forall₂_same.2 heq), mapM_eq_some_iff]
    exact ho.types
  rw [Names.selected, hall]
  rfl

include hs

/-- The type of the call and the declaration that it stands for are those of the selection. -/
theorem typeIn_selected :
    (d.names p).typeIn st role (.call node callee arguments) =
        (Reaction.selectOverload received
          ((a.tables.signatures.overloads name (own ++ inherited)).zip types)).map (·.2) ∧
      (d.names p).chosen st.home (.call node callee arguments) =
        (Reaction.selectOverload received
          ((a.tables.signatures.overloads name (own ++ inherited)).zip types)).map (·.1) := by
  obtain ⟨result, hresult⟩ := ho.callee
  have hcallee := (hp.premise hs (c := ⟨st, .expr .free callee⟩)
    (by simp [Site.premises, Site.ofExpr])).1
  have ht : (d.names p).type st.home none callee = some (.function result parameters) :=
    (h.exprType?_eq hp hcallee).symm.trans hresult
  have hreceived := (h.argumentTypes_iff hp hs ht).2 ho.received
  have hscopes := h.calleeScopes_of_context hp ho.context hcallee
  rw [← h.selected_eq hp ho]
  constructor
  · rw [Names.typeIn, Names.type, ht, Option.bind_eq_bind, Option.bind_some, hreceived,
      Option.bind_eq_bind, Option.bind_some, hscopes, Option.bind_eq_bind, Option.bind_some,
      h.overloads_eq ho, Names.callType, if_pos ho.several]
  · rw [Names.chosen_call node ht hreceived hscopes, h.overloads_eq ho, if_pos ho.several]

end Selection

section Choice

variable {overloads : List DeclId} (h : p.Analysed d a) (node : Node)
  (ho : a.Choice callee arguments overloads parameters received types)
include h ho

/-- Once the callee and the arguments are read, the rule of the call leaves the choice to a further
rule. -/
theorem answered_call {s : Slots}
    (heq : ∀ i ∈ Goal.inputs node (.call (.of callee) (arguments.map Expr.node)),
      s.value? i = a.attributes.get? i) :
    ((Goal.call (.of callee) (arguments.map Expr.node)).react d.tables node).answered s =
      .handOver (overloads.map .typeOfDecl) [.typeOf node.id]
        (Reaction.overloadedCall node overloads received parameters.length) := by
  obtain ⟨result, hresult⟩ := ho.callee
  obtain ⟨site, scopes, hsite, hshows, hoverloads⟩ := ho.shown
  have hcallee : s.value? (.typeOf (Callee.of callee).id) =
      some (.type (.function result parameters)) := by
    rw [heq _ (by simp [Goal.inputs]), Attributes.get?_eq_some]
    exact Attributes.type?_eq_some.1 hresult
  have hreceived : List.Forall₂ (fun x t => s.value? x = some (.type t))
      ((arguments.map Expr.node).map fun n => .typeOf n.id) received := by
    obtain ⟨hlen, hall⟩ := List.forall₂_iff_zip.1 ho.received
    rw [List.forall₂_map_left_iff, List.forall₂_map_left_iff, List.forall₂_iff_zip]
    refine ⟨hlen, fun {e t} hx => ?_⟩
    have he : e ∈ arguments := (List.of_mem_zip hx).1
    rw [heq _ (by simp only [Goal.inputs]; grind), Attributes.get?_eq_some]
    exact Attributes.type?_eq_some.1 (hall hx)
  have hcallee' : (Callee.of callee).site = some site := hsite
  rw [h.tables] at hshows hoverloads
  have hshows' : site.Shows d.tables s scopes := hshows.congr (heq _ (by simp [Goal.inputs, hcallee']))
  have hposition := Goal.site_of_inputs_call node (.of callee) (arguments.map Expr.node)
  rw [hcallee', Option.map_some] at hposition
  rw [Goal.react_call, Reaction.answered_readType hcallee]
  dsimp only
  rw [Reaction.answered_readTypes hreceived, hcallee', hshows'.answered hposition, hoverloads, Goal.decideCall,
    if_pos ho.several]
  rfl

omit h in
/-- The choice, once the types of the overloads are read. -/
theorem answered_overloadedCall {s : Slots}
    (heq : ∀ i ∈ overloads.map Attribute.typeOfDecl, s.value? i = a.attributes.get? i) :
    (Reaction.overloadedCall node overloads received parameters.length (overloads.map .typeOfDecl)
      [.typeOf node.id]).answered s =
      match Reaction.selectOverload received (overloads.zip types) with
      | some (id, result) =>
        .set (.typeOf node.id) (.type result) (.set (.declOf node.id) (.decl id) .done)
      | none => Reaction.refuse
        (.atNode (.noMatchingOverload parameters.length received.length) node) [.typeOf node.id] := by
  have htypes : List.Forall₂ (fun x t => s.value? x = some (.type t))
      (overloads.map .typeOfDecl) types := by
    obtain ⟨hlen, hall⟩ := List.forall₂_iff_zip.1 ho.types
    rw [List.forall₂_map_left_iff, List.forall₂_iff_zip]
    refine ⟨hlen, fun {id t} hx => ?_⟩
    rw [heq _ (List.mem_map_of_mem (List.of_mem_zip hx).1), Attributes.get?_eq_some]
    exact Attributes.type?_eq_some.1 (hall hx)
  rw [Reaction.overloadedCall_eq, Reaction.answered_readTypes htypes]
  cases Reaction.selectOverload received (overloads.zip types) with
  | none => rfl
  | some x => rfl

omit h in
theorem isSet_inputs_call {i : Attribute}
    (hi : i ∈ Goal.inputs node (.call (.of callee) (arguments.map Expr.node))) :
    a.attributes.isSet i = true := by
  obtain ⟨result, hresult⟩ := ho.callee
  obtain ⟨site, _, hsite, hshows, _⟩ := ho.shown
  have hcallee : (Callee.of callee).site = some site := hsite
  simp only [Goal.inputs, hcallee, List.cons_append, List.mem_cons, List.mem_append, List.map_map,
    List.mem_map, Option.map_some, Option.toList_some, List.not_mem_nil, or_false] at hi
  rcases hi with rfl | ⟨e, he, rfl⟩ | rfl
  · exact Attributes.isSet_iff.2 ⟨_, Attributes.type?_eq_some.1 hresult⟩
  · refine forall_of_forall₂ (P := fun e => a.attributes.isSet (.typeOf e.id) = true)
      ho.received.flip (fun t _ e ht => ?_) e he
    exact Attributes.isSet_iff.2 ⟨_, Attributes.type?_eq_some.1 ht⟩
  · obtain ⟨v, hv⟩ := hshows.exists_value
    exact Attributes.isSet_iff.2 ⟨v, Slots.value?_eq_some.1 hv⟩

omit h in
theorem isSet_inputs_overloads {i : Attribute} (hi : i ∈ overloads.map Attribute.typeOfDecl) :
    a.attributes.isSet i = true := by
  obtain ⟨id, hid, rfl⟩ := List.mem_map.1 hi
  refine forall_of_forall₂ (P := fun id => a.attributes.isSet (.typeOfDecl id) = true) ho.types.flip
    (fun t _ id ht => ?_) id hid
  exact Attributes.isSet_iff.2 ⟨_, Attributes.type?_eq_some.1 ht⟩

/-- The rule of the call comes to a finding if no overload is selected. -/
theorem told_call : Obligation.told d.tables (d.names p).solution
      ⟨node, .call (.of callee) (arguments.map Expr.node)⟩ =
    match Reaction.selectOverload received (overloads.zip types) with
    | some _ => []
    | none => [.atNode (.noMatchingOverload parameters.length received.length) node] := by
  have hsol : ∀ i, a.attributes.isSet i = true →
      Slots.value? (d.names p).solution i = a.attributes.get? i ∧
        ∃ v, (d.names p).solution i = some (.set v) := by
    intro i hi
    obtain ⟨v, hv⟩ := Attributes.isSet_iff.1 hi
    have hset := h.within i _ hv
    exact ⟨(Slots.value?_eq_some.2 hset).trans (Attributes.get?_eq_some.2 hv).symm, v, hset⟩
  have hinputs : ∀ i ∈ Goal.inputs node (.call (.of callee) (arguments.map Expr.node)),
      a.attributes.isSet i = true := fun i hi => isSet_inputs_call node ho hi
  have hchosen := Rule.told_of_set (r := ⟨"", overloads.map .typeOfDecl, [.typeOf node.id], node,
      Reaction.overloadedCall node overloads received parameters.length (overloads.map .typeOfDecl)
        [.typeOf node.id]⟩) fun i hi =>
        (hsol i (isSet_inputs_overloads ho hi)).2
  unfold Obligation.told
  rw [Rule.told_of_set fun i hi => (hsol i (hinputs i hi)).2]
  show (Goal.react d.tables node (.call (.of callee) (arguments.map Expr.node))).told _ = _
  rw [← Reaction.told_answered, h.answered_call node ho fun i hi => (hsol i (hinputs i hi)).1,
    Reaction.handOver, Reaction.told, Reaction.told, List.append_nil]
  refine hchosen.trans ?_
  rw [← Reaction.told_answered,
    answered_overloadedCall node ho fun i hi => (hsol i (isSet_inputs_overloads ho hi)).1]
  cases Reaction.selectOverload received (overloads.zip types) with
  | none => rfl
  | some x => rfl

/-- An overload that is selected is recorded for the call at the end of any resolution that comes to the
same values. -/
theorem isKnown_of_selected {final : Attributes} {ds : List Diagnostic}
    (hfate : Rule.Fate ⟨final, ds, []⟩
      (Obligation.rule d.tables ⟨node, .call (.of callee) (arguments.map Expr.node)⟩))
    (hfinal : ∀ i ∈ Goal.inputs node (.call (.of callee) (arguments.map Expr.node)) ++
      overloads.map .typeOfDecl, final.get? i = a.attributes.get? i) {id : DeclId} {result : Ty}
    (hselect : Reaction.selectOverload received (overloads.zip types) = some (id, result)) :
    final.isKnown (.declOf node.id) = true := by
  have hset : ∀ i, final.get? i = a.attributes.get? i → a.attributes.isSet i = true →
      final.isSet i = true := fun i hi h => by rwa [Attributes.isSet, hi]
  obtain ⟨t, e, hrun, hin, _, _, hchained⟩ := hfate.exists_fired fun i hi =>
    hset i (hfinal i (List.mem_append_left _ hi)) (isSet_inputs_call node ho hi)
  have hread : (Goal.react d.tables node (.call (.of callee) (arguments.map Expr.node))).run node t = .ok e := hrun
  rw [← Reaction.run_answered, h.answered_call node ho fun i hi =>
    (hin i hi).trans (hfinal i (List.mem_append_left _ hi))] at hread
  obtain ⟨e', _, rfl⟩ := exists_of_do hread
  -- the rule that the call left the choice to
  have hchoice := hchained _ List.mem_cons_self
  obtain ⟨t', e'', hrun', hin', hgrows, _⟩ := hchoice.exists_fired fun i hi =>
    hset i (hfinal i (List.mem_append_right _ hi)) (isSet_inputs_overloads ho hi)
  rw [← Reaction.run_answered, answered_overloadedCall node ho fun i hi =>
    (hin' i hi).trans (hfinal i (List.mem_append_right _ hi)), hselect] at hrun'
  obtain rfl := Except.ok.inj hrun'
  apply hgrows.isKnown
  simp [Attributes.isKnown_set]

end Choice

/-- The mismatches at a call are told of its own rule. -/
theorem mismatches_perm (hp : p.Numbered) (h : p.Analysed d a)
    (hs : ⟨st, .expr role (.call node callee arguments)⟩ ∈ p.sites) :
    (a.mismatches node.id).Perm ((Obligation.told d.tables (d.names p).solution
      ⟨node, .call (.of callee) (arguments.map Expr.node)⟩).filter fun x =>
        x.node = some node.id && x.cause.isMismatch) := by
  apply h.perm_filter hp _ (h.filter_obligations_call hs)
  · intro o x hkeep htells
    by_contra hx
    simp only [Bool.not_eq_false, Bool.and_eq_true, decide_eq_true_eq] at hx
    obtain ⟨hcall, hnode⟩ := htells.of_mismatch hx.2
    have hid : o.node.id = node.id := Option.some.inj (hnode.symm.trans hx.1)
    simp [hcall, hid] at hkeep
  · intro x hx
    rw [Cause.isMismatch_of_isEarly hx, Bool.and_false]

theorem comesTo_selected (hp : p.Numbered) (h : p.Analysed d a)
    (hs : ⟨st, .expr role (.call node callee arguments)⟩ ∈ p.sites)
    (ho : a.Overloaded callee arguments name own inherited parameters received types) :
    a.ComesTo node.id (Reaction.selectOverload received
      ((a.tables.signatures.overloads name (own ++ inherited)).zip types)) := by
  obtain ⟨htype, hchosen⟩ := h.typeIn_selected hp hs ho
  have hslot := h.slot?_of_input (Drafted.input_expr hp h.drafted hs)
  have htold := h.told_call node ho.choice
  have hperm := h.mismatches_perm hp hs
  rw [htype] at hslot
  cases hselect : Reaction.selectOverload received
      ((a.tables.signatures.overloads name (own ++ inherited)).zip types) with
  | none =>
    rw [hselect] at hslot htold
    rw [htold, List.filter_cons_of_pos (by simp [Diagnostic.atNode, Cause.isMismatch]),
      List.filter_nil, List.perm_singleton] at hperm
    exact ⟨⟨_, hperm⟩, hslot⟩
  | some x =>
    obtain ⟨id, result⟩ := x
    rw [hselect] at hslot htold hchosen
    rw [htold, List.filter_nil, List.perm_nil] at hperm
    have hrule : ⟨node, .call (.of callee) (arguments.map Expr.node)⟩ ∈ d.obligations.toList :=
      List.mem_of_mem_filter (h.filter_obligations_call hs ▸ List.mem_singleton_self _)
    refine ⟨?_, Attributes.type?_of_slot hslot, hperm⟩
    exact h.decl?_of_chosen hp hs hchosen (h.isKnown_of_selected node ho.choice
      (h.fates _ (List.mem_map_of_mem hrule)) (fun _ _ => rfl) hselect)

/-- What the body of a class itself declares with exactly the types of the arguments goes before all that
is inherited. -/
theorem exists_own (ho : a.Overloaded callee arguments name own inherited parameters received types)
    {id : DeclId} {t : Ty} (hid : id ∈ a.tables.signatures.overloads name own)
    (ht : a.declarationType? id = some t) (hexact : t.TakesExactly received)
    {o : Option (DeclId × Ty)} (hselects : Reaction.Selects received
      ((a.tables.signatures.overloads name (own ++ inherited)).zip types) o) :
    ∃ id ∈ a.tables.signatures.overloads name own, o.map (·.1) = some id := by
  have hoverloads : a.tables.signatures.overloads name (own ++ inherited) =
      a.tables.signatures.overloads name own ++ a.tables.signatures.overloads name inherited := by
    rw [Signatures.overloads, List.flatMap_append, List.filterMap_append]
    rfl
  have htypes := ho.types
  rw [hoverloads] at hselects htypes
  have hfirst := List.forall₂_take_append _ _ _ htypes.flip
  have hlen := hfirst.length_eq.symm
  rw [← List.take_append_drop (a.tables.signatures.overloads name own).length types,
    List.zip_append hlen] at hselects
  obtain ⟨t', hmem, ht'⟩ := exists_mem_zip hfirst.flip hid
  obtain rfl : t = t' := Option.some.inj (ht.symm.trans ht')
  obtain ⟨x, hx, hchosen⟩ := hselects.exists_first ⟨_, hmem, hexact⟩
  exact ⟨x.1, (List.of_mem_zip hx).1, hchosen⟩

end Program.Analysed

/-- The types of the arguments of a call select one of several functions of its name, in the order of the
scopes and of registration, and the call comes to it. A method that a class itself declares with exactly
these types goes before what it inherits. -/
theorem Program.overload_selected {tokens : List Token} {file : String} {p : Program} {c : Cursor}
    {a : Analysis} (h : Program.parse tokens file = .ok p c) (ha : p.analyse = .ok a) {st : Setting}
    {role : Role} {node : Node} {callee : Expr} {arguments : List Expr}
    (hs : ⟨st, .expr role (.call node callee arguments)⟩ ∈ p.sites) {name : String}
    {own inherited : List ScopeId} {parameters received types : List Ty}
    (ho : a.Overloaded callee arguments name own inherited parameters received types) :
    (∃ selected, Reaction.Selects received
        ((a.tables.signatures.overloads name (own ++ inherited)).zip types) selected ∧
      a.ComesTo node.id selected) ∧
    ((∃ id ∈ a.tables.signatures.overloads name own, ∃ t, a.declarationType? id = some t ∧
        t.TakesExactly received) →
      ∃ id ∈ a.tables.signatures.overloads name own,
        a.attributes.decl? (.declOf node.id) = some id) := by
  have hp := numbered_of_parse h
  obtain ⟨d, a', ha', hd⟩ := analysed hp
  obtain rfl : a = a' := by simpa [ha] using ha'
  have hselects := Reaction.selects_selectOverload received
    ((a.tables.signatures.overloads name (own ++ inherited)).zip types)
  have hcomes := hd.comesTo_selected hp hs ho
  refine ⟨⟨_, hselects, hcomes⟩, ?_⟩
  rintro ⟨id, hid, t, ht, hexact⟩
  obtain ⟨id', hid', hchosen⟩ := Analysed.exists_own ho hid ht hexact hselects
  obtain ⟨x, hx, rfl⟩ := Option.map_eq_some_iff.1 hchosen
  rw [hx] at hcomes
  exact ⟨x.1, hid', hcomes.1⟩

namespace Analysis

/-- The name of a callee and the scopes of its context, as far as they are known. -/
def context? (a : Analysis) : Expr → Option (String × List ScopeId × List ScopeId)
  | .symbol ref =>
    (a.attributes.scope? (.scopeOf ref.node.id)).map fun scope => (ref.name, [scope], [])
  | .paren _ inner => a.context? inner
  | .member _ .cls stem name => do
    let .composite .cls owner ← a.exprType? stem | none
    let x ← a.tables.declarations.items[owner.declaration.index]?
    let .cls info := x.kind | none
    let supers ← info.superclasses.mapM fun i => a.tables.declarations.items[i.index]?
    return (name, x.bodyScope.toList, supers.filterMap Declaration.bodyScope)
  | _ => none

theorem Context.of_context? {a : Analysis} {name : String} {own inherited : List ScopeId} :
    ∀ {e : Expr}, a.context? e = some (name, own, inherited) → a.Context e name own inherited
  | .symbol ref, h => by
    obtain ⟨scope, hscope, heq⟩ := Option.map_eq_some_iff.1 h
    cases heq
    exact .name hscope
  | .paren _ inner, h => .paren (of_context? h)
  | .member _ .cls stem _, h => by
    obtain ⟨t, hstem, h⟩ := Option.bind_eq_some_iff.1 h
    split at h
    · obtain ⟨x, hx, h⟩ := Option.bind_eq_some_iff.1 h
      split at h
      · next info hinfo =>
        obtain ⟨supers, hsupers, heq⟩ := Option.bind_eq_some_iff.1 h
        cases heq
        exact .element hstem hx hinfo (mapM_eq_some_iff.1 hsupers)
      · cases h
    · cases h
  | .member _ .struct _ _, h | .int _ _, h | .float _ _, h | .string _ _, h | .literal _ _ _, h
  | .not _ _, h | .binary _ _ _ _, h | .assign _ _ _, h | .call _ _ _, h | .templateCall _ _ _ _, h
  | .index _ _ _, h | .construct _ _ _, h => by simp [context?] at h

/-- Whether a call is by the name of several functions, and one of those that its own scopes declare takes
exactly the types of its arguments. -/
def overrides (a : Analysis) (callee : Expr) (arguments : List Expr) : Bool :=
  match a.context? callee, a.exprType? callee, arguments.mapM a.exprType? with
  | some (name, own, inherited), some (.function _ _), some received =>
    let overloads := a.tables.signatures.overloads name (own ++ inherited)
    1 < overloads.length && (overloads.mapM a.declarationType?).isSome &&
      (a.tables.signatures.overloads name own).any fun id =>
        (a.declarationType? id).any fun t => decide (t.TakesExactly received)
  | _, _, _ => false

theorem exists_of_overrides {a : Analysis} {callee : Expr} {arguments : List Expr}
    (h : a.overrides callee arguments = true) :
    ∃ name own inherited parameters received types,
      a.Overloaded callee arguments name own inherited parameters received types ∧
      ∃ id ∈ a.tables.signatures.overloads name own, ∃ t, a.declarationType? id = some t ∧
        t.TakesExactly received := by
  unfold overrides at h
  split at h
  · next name own inherited result parameters received hcontext hcallee hreceived =>
    simp only [Bool.and_eq_true, decide_eq_true_eq] at h
    obtain ⟨⟨hseveral, htypes⟩, hown⟩ := h
    obtain ⟨types, htypes⟩ := Option.isSome_iff_exists.1 htypes
    obtain ⟨id, hid, hany⟩ := List.any_eq_true.1 hown
    obtain ⟨t, ht, hexact⟩ := (Option.any_eq_true _ _).1 hany
    refine ⟨name, own, inherited, parameters, received, types, ?_, id, hid, t, ht,
      of_decide_eq_true hexact⟩
    exact ⟨.of_context? hcontext, hseveral, ⟨result, hcallee⟩, mapM_eq_some_iff.1 hreceived,
      mapM_eq_some_iff.1 htypes⟩
  · cases h

end Analysis

def overridesText : String :=
  "class A \x7b fun m(n: Int): Int \x7b return n \x7d \x7d
  class B from A \x7b fun m(s: String) \x7b\x7d fun m(k: Int): Int \x7b return 2 \x7d \x7d
  var b: B = (create B)() b$m(1)"

def Site.overrides (a : Analysis) (s : Site) : Bool :=
  match s.part with
  | .expr _ (.call _ callee arguments) => a.overrides callee arguments
  | _ => false

theorem Program.overload_selected_override :
    ∃ tokens p c a, Token.tokenize overridesText "overrides" = .ok tokens ∧
      Program.parse tokens "overrides" = .ok p c ∧ p.analyse = .ok a ∧
      ∃ st role node callee arguments name own inherited parameters received types,
        ⟨st, .expr role (.call node callee arguments)⟩ ∈ p.sites ∧
        a.Overloaded callee arguments name own inherited parameters received types ∧
        (∃ selected, Reaction.Selects received
            ((a.tables.signatures.overloads name (own ++ inherited)).zip types) selected ∧
          a.ComesTo node.id selected) ∧
        ∃ id ∈ a.tables.signatures.overloads name own,
          a.attributes.decl? (.declOf node.id) = some id := by
  obtain ⟨tokens, p, c, a, htokens, hparse, ha, _, htest⟩ :=
    Program.exists_of_accepts 10 "overrides" overridesText
      (fun p a => p.sites.any fun s => s.overrides a) (by decide +kernel)
  obtain ⟨⟨st, part⟩, hs, hpart⟩ := List.any_eq_true.1 htest
  unfold Site.overrides at hpart
  split at hpart
  · next role node callee arguments heq =>
    obtain rfl : part = _ := heq
    obtain ⟨name, own, inherited, parameters, received, types, ho, hown⟩ :=
      Analysis.exists_of_overrides hpart
    obtain ⟨hselected, hoverride⟩ := Program.overload_selected hparse ha hs ho
    exact ⟨tokens, p, c, a, htokens, hparse, ha, st, role, node, callee, arguments, name, own, inherited,
      parameters, received, types, hs, ho, hselected, hoverride hown⟩
  · cases hpart

end ScriptAnalysis
