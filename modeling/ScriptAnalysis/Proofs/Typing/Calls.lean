import ScriptAnalysis.Proofs.Ty.Assignability
import ScriptAnalysis.Proofs.Typing.Constraints

/-!
Calls. Where an analysis has no findings, every call passes as many arguments as the function that it
means takes, and each of them may be stored in its parameter. There is one exception: an overload may be
chosen because its parameters are the very types of the arguments, and `Void` is the same as itself but
may not be stored (`Program.calls_fit_of_silent`, `Program.void_argument_passes`).
-/
namespace ScriptAnalysis

namespace Ty

/-- Whether a type is `Void`, or a container of it at any depth. -/
def holdsVoid : Ty → Bool
  | .void => true
  | .container _ a => a.holdsVoid
  | _ => false

/-- A type may be stored as itself, unless it holds `Void`. -/
theorem assignable_of_same : ∀ {a b : Ty}, a.same b = true → a.holdsVoid = false →
    a.assignable b = true
  | .container c a, .container d b, h, hv => by
    rw [same, Bool.and_eq_true] at h
    rw [assignable, Bool.and_eq_true]
    exact ⟨h.1, assignable_of_same h.2 hv⟩
  | .primitive p, .primitive q, h, hv => by
    obtain rfl : p = q := by simpa [same] using h
    cases p with
    | void => cases hv
    | _ => simp [assignable, same, isReference]
  | .composite c m, .composite d n, h, _ => by simpa [assignable] using h
  | .placeholder m, .placeholder n, _, _ => by simp [assignable]
  | .function r ps, .function s qs, h, _ => by simpa [assignable] using h
  | .template r k ps, .template s l qs, h, _ => by simpa [assignable] using h

theorem forall₂_of_sameAll {as bs : List Ty} (h : sameAll as bs = true) :
    List.Forall₂ (fun a b => a.same b = true) as bs := by
  induction as generalizing bs with
  | nil =>
    cases bs with
    | nil => exact .nil
    | cons b bs => cases h
  | cons a as ih =>
    cases bs with
    | nil => cases h
    | cons b bs =>
      rw [sameAll, Bool.and_eq_true] at h
      exact .cons h.1 (ih h.2)

end Ty

namespace Reaction.Silent

variable {final : Attributes} {node : Node} {a : Attribute} {next : Reaction}

theorem isKnown_of_set {v : Value} (h : (Reaction.set a v next).Silent final node) :
    final.isKnown a = true := by
  obtain ⟨t, e, hrun, hgrows, _⟩ := h
  rw [run] at hrun
  apply ((grows_run hrun).trans hgrows).isKnown
  simp [Attributes.isKnown_set]

/-- Arguments without findings may be stored in their parameters. -/
theorem checkArguments {i : Nat} {arguments : List Node} {received expected : List Ty}
    (h : (Reaction.checkArguments i arguments received expected next).Silent final node)
    (harguments : arguments.length = received.length) (hexpected : expected.length = received.length) :
    List.Forall₂ (fun r e => r.assignable e = true) received expected := by
  induction received generalizing i arguments expected with
  | nil =>
    rw [List.length_eq_zero_iff.1 hexpected]
    exact .nil
  | cons r received ih =>
    obtain ⟨argument, arguments, rfl⟩ := List.exists_cons_of_length_eq_add_one harguments
    obtain ⟨e, expected, rfl⟩ := List.exists_cons_of_length_eq_add_one hexpected
    rw [Reaction.checkArguments] at h
    obtain ⟨hfit, hrest⟩ := h.of_ite not_reportTypes
    exact .cons hfit (ih hrest (by simpa using harguments) (by simpa using hexpected))

end Reaction.Silent

namespace Names

variable {N : Names} {home : NodeId}

theorem declarationType_of_chosen {e : Expr} {r : Ty} {ps : List Ty} {id : DeclId}
    (ht : N.type home none e = some (.function r ps)) (hc : N.chosen home e = some id) :
    N.declarationType id = some (.function r ps) := by
  cases e with
  | symbol ref =>
    rw [chosen] at hc
    rw [type, referenceType, hc, Option.bind_eq_bind, Option.bind_some] at ht
    obtain ⟨x, _, ht⟩ := Option.bind_eq_some_iff.1 ht
    split at ht
    · cases ht
    · exact ht
  | member node c stem name =>
    rw [chosen] at hc
    rw [type] at ht
    obtain ⟨u, hu, hc⟩ := Option.bind_eq_some_iff.1 hc
    rw [hu, Option.bind_eq_bind, Option.bind_some] at ht
    unfold memberType at ht
    split at ht
    · cases hc
    · rw [hc] at ht
      exact ht
  | call node callee arguments =>
    -- what a call comes to is plain, so it is no function
    rw [type] at ht
    obtain ⟨u, hu, ht⟩ := Option.bind_eq_some_iff.1 ht
    obtain ⟨received, _, ht⟩ := Option.bind_eq_some_iff.1 ht
    obtain ⟨scopes, _, ht⟩ := Option.bind_eq_some_iff.1 ht
    exact (callType_plain (type_regular callee (by simp) hu) ht).elim
  | _ => cases hc

/-- The declaration that a call stands for, once the types of its parts are known. -/
theorem chosen_call (node : Node) {callee : Expr} {arguments : List Expr} {result : Ty}
    {parameters received : List Ty} {scopes : List ScopeId}
    (ht : N.type home none callee = some (.function result parameters))
    (hr : N.argumentTypes home (.function result parameters) 0 arguments = some received)
    (hs : N.calleeScopes home callee = some scopes) :
    N.chosen home (.call node callee arguments) =
      if 1 < (N.overloads callee.calleeName? scopes).length then
        (N.selected (N.overloads callee.calleeName? scopes) received).map (·.1)
      else if parameters.length = received.length then N.chosen home callee
      else none := by
  simp only [chosen, ht, hr, hs, Option.bind_eq_bind, Option.bind_some]

/-- A call by a name that several functions have. -/
def Overloaded (N : Names) (home : NodeId) : Expr → Prop
  | .call _ callee _ => ∃ scopes, N.calleeScopes home callee = some scopes ∧
    1 < (N.overloads callee.calleeName? scopes).length
  | _ => False

/-- The types that an argument of a call and its parameter may have: the one may be stored as the other,
or, with several functions of the name, both are one type that holds `Void`. -/
def Fits (N : Names) (home : NodeId) (call : Expr) (t q : Ty) : Prop :=
  t.assignable q = true ∨ N.Overloaded home call ∧ t.holdsVoid = true ∧ t.same q = true

end Names

/-- The type of the function that a call means: that of the declaration recorded for the call, or the
callee's own. -/
def Analysis.calledType? (a : Analysis) (call : NodeId) (callee : Expr) : Option Ty :=
  match a.attributes.decl? (.declOf call) with
  | some id => a.declarationType? id
  | none => a.exprType? callee

/-- A call passes as many arguments as the function that it means has parameters, and each argument
fits its parameter. -/
def Expr.Passes (a : Analysis) (fits : Ty → Ty → Prop) : Expr → Prop
  | .call node callee arguments => ∃ result parameters,
    a.calledType? node.id callee = some (.function result parameters) ∧
    List.Forall₂ (fun e q => ∃ t, a.exprType? e = some t ∧ fits t q) arguments parameters
  | _ => True

/-- Whether an expression has a type that fits can be decided. -/
instance {a : Analysis} {fits : Ty → Ty → Prop} [∀ t q, Decidable (fits t q)] (e : Expr) (q : Ty) :
    Decidable (∃ t, a.exprType? e = some t ∧ fits t q) :=
  match h : a.exprType? e with
  | none => isFalse (by simp)
  | some t => decidable_of_iff (fits t q) (by simp)

instance {a : Analysis} {fits : Ty → Ty → Prop} [∀ t q, Decidable (fits t q)] :
    (e : Expr) → Decidable (e.Passes a fits)
  | .call node callee arguments =>
    match h : a.calledType? node.id callee with
    | some (.function result parameters) =>
      decidable_of_iff (List.Forall₂ (fun e q => ∃ t, a.exprType? e = some t ∧ fits t q) arguments
        parameters) (by simp [Expr.Passes, h])
    | some (.primitive _) | some (.container _ _) | some (.composite _ _) | some (.placeholder _)
    | some (.template _ _ _) | none => isFalse (by simp [Expr.Passes, h])
  | .int _ _ | .float _ _ | .string _ _ | .symbol _ | .paren _ _ | .literal _ _ _ | .not _ _
  | .binary _ _ _ _ | .assign _ _ _ | .templateCall _ _ _ _ | .index _ _ _ | .member _ _ _ _
  | .construct _ _ _ => isTrue trivial

theorem Expr.Passes.mono {a : Analysis} {fits fits' : Ty → Ty → Prop} {e : Expr}
    (h : e.Passes a fits) (hfits : ∀ t q, fits t q → fits' t q) : e.Passes a fits' := by
  cases e with
  | call node callee arguments =>
    obtain ⟨result, parameters, htype, hall⟩ := h
    refine ⟨result, parameters, htype, hall.imp ?_⟩
    rintro x q ⟨t, ht, hfit⟩
    exact ⟨t, ht, hfits t q hfit⟩
  | _ => trivial

/-- Arguments whose types fit the parameters. -/
theorem forall₂_passed {a : Analysis} {fits : Ty → Ty → Prop} {arguments : List Expr}
    {received parameters : List Ty}
    (hr : List.Forall₂ (fun e r => a.exprType? e = some r) arguments received)
    (hfits : List.Forall₂ fits received parameters) :
    List.Forall₂ (fun e q => ∃ t, a.exprType? e = some t ∧ fits t q) arguments parameters := by
  induction hr generalizing parameters with
  | nil =>
    cases hfits
    exact .nil
  | cons ht _ ih =>
    cases hfits with
    | cons hfit hrest => exact .cons ⟨_, ht, hfit⟩ (ih hrest)

theorem Attributes.type?_of_slot {t : Attributes} {x : Attribute} {o : Option Ty}
    (h : t.slot? x = some (.of .type o)) : t.type? x = o := by
  cases o <;> simp_all [type?, get?, Slot.of]

namespace Program.Analysed

variable {p : Program} {d : Draft} {a : Analysis} {st : Setting} {role : Role} {node : Node}
  {callee : Expr} {arguments : List Expr}

theorem exprType?_eq (hp : p.Numbered) (h : p.Analysed d a) {e : Expr}
    (hs : ⟨st, .expr role e⟩ ∈ p.sites) : a.exprType? e = (d.names p).typeIn st role e :=
  Attributes.type?_of_slot (h.slot?_of_input (Drafted.input_expr hp h.drafted hs))

theorem declarationType?_eq (hp : p.Numbered) (h : p.Analysed d a) {id : DeclId}
    (hid : id.index < d.size) : a.declarationType? id = (d.names p).declarationType id :=
  Attributes.type?_of_slot (h.slot?_of_input (Drafted.input_declaration hp h.drafted hid))

/-- The scopes that the overloads of a callee are taken from. -/
theorem scopes_of_silent (hp : p.Numbered) (h : p.Analysed d a) {site : Option OverloadSite}
    {inputs : List Attribute} {i : Nat} (hi : inputs[i]? = site.map OverloadSite.attr)
    {next : List ScopeId → Reaction}
    (hsilent : (Goal.overloadScopes d.tables inputs site i next).Silent a.attributes node) :
    ∀ (e : Expr), ⟨st, .expr .free e⟩ ∈ p.sites → site = OverloadSite.of? e →
      ∃ scopes, (d.names p).calleeScopes st.home e = some scopes ∧
        (next scopes).Silent a.attributes node
  | .symbol ref, hs, hsite => by
    rw [hsite] at hi hsilent
    simp only [OverloadSite.of?, Goal.overloadScopes, Reaction.scopeAt_eq hi] at hsilent
    obtain ⟨scope, hscope, hsilent⟩ := hsilent.readScope
    refine ⟨[scope], ?_, hsilent⟩
    have hN : (d.names p).scope ref.node.id = some scope := (h.scope_eq hp _).symm.trans hscope
    simp [Names.calleeScopes, hN]
  | .paren _ inner, hs, hsite => by
    have hinner := (hp.premise hs (c := ⟨st, .expr .free inner⟩)
      (by simp [Site.premises, Site.ofRole, Site.ofExpr])).1
    rw [Names.calleeScopes]
    exact scopes_of_silent hp h hi hsilent inner hinner hsite
  | .member _ .cls stem name, hs, hsite => by
    rw [hsite] at hi hsilent
    simp only [OverloadSite.of?, Goal.overloadScopes, Reaction.typeAt_eq hi] at hsilent
    have hstem := (hp.premise hs (c := ⟨st, .expr .free stem⟩)
      (by simp [Site.premises, Site.ofRole, Site.ofExpr])).1
    obtain ⟨ty, hty, hsilent⟩ := hsilent.readType
    have hN : (d.names p).type st.home none stem = some ty :=
      (h.exprType?_eq hp hstem).symm.trans hty
    rw [Names.calleeScopes, hN, Option.bind_eq_bind, Option.bind_some]
    split at hsilent
    · next owner =>
      obtain ⟨scopes, hscopes, hsilent⟩ := hsilent.attempt
      refine ⟨scopes, ?_, hsilent⟩
      have htables : (d.names p).tables = d.tables := rfl
      simp [Names.memberScopes, htables, hscopes, Except.toOption]
    · next hcls => exact ⟨[], Names.memberScopes_other hcls, hsilent⟩
  | .int _ _, _, hsite | .float _ _, _, hsite | .string _ _, _, hsite | .literal _ _ _, _, hsite
  | .not _ _, _, hsite | .binary _ _ _ _, _, hsite | .assign _ _ _, _, hsite
  | .call _ _ _, _, hsite | .templateCall _ _ _ _, _, hsite | .index _ _ _, _, hsite
  | .construct _ _ _, _, hsite | .member _ .struct _ _, _, hsite => by
    rw [hsite] at hsilent
    exact ⟨[], by simp [Names.calleeScopes], hsilent⟩

/-- The types of the arguments of a call, as the rule of the call has read them. -/
theorem argumentTypes_iff (hp : p.Numbered) (h : p.Analysed d a)
    (hs : ⟨st, .expr role (.call node callee arguments)⟩ ∈ p.sites) {t : Ty} {received : List Ty}
    (ht : (d.names p).type st.home none callee = some t) :
    (d.names p).argumentTypes st.home t 0 arguments = some received ↔
      List.Forall₂ (fun e r => a.exprType? e = some r) arguments received := by
  have hargs : ∀ x ∈ arguments.zipIdx,
      (d.names p).typeIn st (.argument callee x.2) x.1 = a.exprType? x.1 := by
    intro x hx
    have hmem : ⟨st, .expr (.argument callee x.2) x.1⟩ ∈
        Site.ofExpr st (.call node callee arguments) :=
      List.mem_cons_of_mem _ (List.mem_map.2 ⟨x, hx, rfl⟩)
    exact (h.exprType?_eq hp (hp.premise hs (List.mem_append_right _ hmem)).1).symm
  rw [← Drafted.argumentTypes_of_callee ht, mapM_congr_forall₂ (List.forall₂_same.2 hargs),
    mapM_eq_some_iff]
  nth_rewrite 2 [← List.zipIdx_map_fst 0 arguments]
  rw [List.forall₂_map_left_iff]

/-- The declaration that is recorded for a call is the one that the call stands for. -/
theorem chosen_of_decl? (hp : p.Numbered) (h : p.Analysed d a) {e : Expr}
    (hs : ⟨st, .expr role e⟩ ∈ p.sites) {id : DeclId}
    (hid : a.attributes.decl? (.declOf e.id) = some id) : (d.names p).chosen st.home e = some id :=
  Drafted.chosen_of_solution hp hs (h.within _ _ (Attributes.decl?_eq_some.1 hid))

/-- The declaration that a call stands for is recorded once something is. -/
theorem decl?_of_chosen (hp : p.Numbered) (h : p.Analysed d a)
    (hs : ⟨st, .expr role (.call node callee arguments)⟩ ∈ p.sites) {id : DeclId}
    (hid : (d.names p).chosen st.home (.call node callee arguments) = some id)
    (hknown : a.attributes.isKnown (.declOf node.id) = true) :
    a.attributes.decl? (.declOf node.id) = some id := by
  obtain ⟨slot, hslot⟩ := Attributes.isKnown_iff.1 hknown
  have hsol : (d.names p).solution (.declOf node.id) = some (.set (.decl id)) := by
    have hsite := Drafted.solution_site (d := d) hp hs .decl
    rw [Drafted.siteSlot_chosen rfl, hid] at hsite
    exact hsite
  have hwithin := h.within _ _ hslot
  rw [hsol, Option.some.injEq] at hwithin
  rw [Attributes.decl?_eq_some, hslot, ← hwithin]

/-- A call of one of several functions: the one that is recorded takes the arguments, or has exactly
their types. -/
theorem passes_overloaded (hp : p.Numbered) (h : p.Analysed d a)
    (hs : ⟨st, .expr role (.call node callee arguments)⟩ ∈ p.sites) {overloads : List DeclId}
    {received : List Ty} {arity : Nat}
    (hr : List.Forall₂ (fun e r => a.exprType? e = some r) arguments received)
    (hchosen : (d.names p).chosen st.home (.call node callee arguments) =
      ((d.names p).selected overloads received).map (·.1))
    (hbound : ∀ id ∈ overloads, id.index < d.size)
    (hsilent : (Reaction.overloadedCall node overloads received arity (overloads.map .typeOfDecl)
      [.typeOf node.id]).Silent a.attributes node) :
    (Expr.call node callee arguments).Passes a fun t q =>
      t.assignable q = true ∨ t.holdsVoid = true ∧ t.same q = true := by
  rw [Reaction.overloadedCall_eq] at hsilent
  obtain ⟨types, htypes, hsilent⟩ := hsilent.readTypes
  rw [List.forall₂_map_left_iff] at htypes
  split at hsilent
  · next id result hselect =>
    have heq : ∀ i ∈ overloads, (d.names p).declarationType i = a.declarationType? i :=
      fun i hi => (h.declarationType?_eq hp (hbound i hi)).symm
    have hN : overloads.mapM (d.names p).declarationType = some types := by
      rw [mapM_congr_forall₂ (List.forall₂_same.2 heq), mapM_eq_some_iff]
      exact htypes
    have hid : (d.names p).chosen st.home (.call node callee arguments) = some id := by
      rw [hchosen, Names.selected, hN, Option.bind_eq_bind, Option.bind_some, hselect]
      rfl
    obtain ⟨ps, hmem, hlen, hfits⟩ := Reaction.selectOverload_eq_some hselect
    have htype : a.declarationType? id = some (.function result ps) := List.forall₂_zip htypes hmem
    refine ⟨result, ps, ?_, ?_⟩
    · simp only [Analysis.calledType?,
        h.decl?_of_chosen hp hs hid hsilent.set.isKnown_of_set]
      exact htype
    · apply forall₂_passed hr
      rcases hfits with hsame | htakes
      · apply (Ty.forall₂_of_sameAll (Ty.sameAll_symm hsame)).imp
        intro t q ht
        by_cases hv : t.holdsVoid = true
        · exact .inr ⟨hv, ht⟩
        · exact .inl (Ty.assignable_of_same ht (by simpa using hv))
      · apply List.forall₂_iff_zip.2
        exact ⟨hlen.symm, fun hx => .inl (htakes _ hx)⟩
  · exact absurd hsilent Reaction.Silent.not_refuse

/-- A call of the only function of its name: the function takes the arguments. -/
theorem passes_single (hp : p.Numbered) (h : p.Analysed d a)
    (hs : ⟨st, .expr role (.call node callee arguments)⟩ ∈ p.sites) {result : Ty}
    {parameters received : List Ty}
    (ht : (d.names p).type st.home none callee = some (.function result parameters))
    (hr : List.Forall₂ (fun e r => a.exprType? e = some r) arguments received)
    (hchosen : (d.names p).chosen st.home (.call node callee arguments) =
      (d.names p).chosen st.home callee)
    (hfits : List.Forall₂ (fun r q => r.assignable q = true) received parameters) :
    (Expr.call node callee arguments).Passes a fun t q => t.assignable q = true := by
  refine ⟨result, parameters, ?_, forall₂_passed hr hfits⟩
  unfold Analysis.calledType?
  split
  · next id hid =>
    have hcallee := hchosen.symm.trans (h.chosen_of_decl? hp hs hid)
    have htype := Names.declarationType_of_chosen ht hcallee
    obtain ⟨x, hx, _⟩ := Option.bind_eq_some_iff.1 htype
    rw [h.declarationType?_eq hp (Declarations.lt_size_of_getElem? hx), htype]
  · have hs' := (hp.premise hs (c := ⟨st, .expr .free callee⟩)
      (by simp [Site.premises, Site.ofExpr])).1
    exact (h.exprType?_eq hp hs').trans ht

/-- A call whose parts have types, decided without findings. -/
theorem passes_decided (hp : p.Numbered) (h : p.Analysed d a) (hnil : a.diagnostics = [])
    (hs : ⟨st, .expr role (.call node callee arguments)⟩ ∈ p.sites) {result : Ty}
    {parameters received : List Ty} {scopes : List ScopeId}
    (ht : (d.names p).type st.home none callee = some (.function result parameters))
    (hr : List.Forall₂ (fun e r => a.exprType? e = some r) arguments received)
    (hscopes : (d.names p).calleeScopes st.home callee = some scopes)
    (hsilent : (Goal.decideCall node [.typeOf node.id] callee.id (arguments.map Expr.node) result parameters
      received ((d.names p).overloads callee.calleeName? scopes)).Silent a.attributes node) :
    (Expr.call node callee arguments).Passes a
      ((d.names p).Fits st.home (.call node callee arguments)) := by
  have hchosen := Names.chosen_call node ht ((h.argumentTypes_iff hp hs ht).2 hr) hscopes
  unfold Goal.decideCall at hsilent
  split at hsilent
  · next hmany =>
    rw [if_pos hmany] at hchosen
    have hbound : ∀ id ∈ (d.names p).overloads callee.calleeName? scopes, id.index < d.size :=
      fun id => Drafted.lt_size_of_overload h.drafted
    have hbody := hsilent.chain.silent (h.not_failed hnil)
    apply (h.passes_overloaded hp hs hr hchosen hbound hbody).mono
    rintro t q (hfit | hsame)
    · exact .inl hfit
    · exact .inr ⟨⟨scopes, hscopes, hmany⟩, hsame⟩
  · next hfew =>
    rw [if_neg hfew] at hchosen
    split at hsilent
    · exact absurd hsilent Reaction.Silent.not_refuse
    · next hlen =>
      rw [not_not] at hlen
      rw [if_pos hlen] at hchosen
      have hcheck : (Reaction.checkArguments 0 (arguments.map Expr.node) received parameters
          .done).Silent a.attributes node := by
        obtain ⟨o, _, hsilent⟩ := hsilent.set.read
        split at hsilent
        · exact hsilent.set
        · exact hsilent
      have hfits := hcheck.checkArguments (by simpa using hr.length_eq) hlen
      apply (h.passes_single hp hs ht hr hchosen hfits).mono
      intro t q hfit
      exact .inl hfit

theorem passes_expr (hp : p.Numbered) (h : p.Analysed d a) (hnil : a.diagnostics = []) {e : Expr}
    (hs : ⟨st, .expr role e⟩ ∈ p.sites) : e.Passes a ((d.names p).Fits st.home e) := by
  obtain ⟨role', entry, hl, hmem⟩ := (h.drafted.leaves _ hs).of_expr
  cases hl with
  | @call _ node callee arguments =>
    have hcallee := (hp.premise hs (c := ⟨st, .expr .free callee⟩)
      (by simp [Site.premises, Site.ofExpr])).1
    have hsilent := h.silent hnil (hmem _ (Entry.mem_owing _ _))
    rw [Goal.react_call] at hsilent
    obtain ⟨ty, hty, hsilent⟩ := hsilent.readType
    have ht : (d.names p).type st.home none callee = some ty :=
      (h.exprType?_eq hp hcallee).symm.trans hty
    split at hsilent
    · obtain ⟨received, hr, hsilent⟩ := hsilent.readTypes
      rw [List.forall₂_map_left_iff, List.forall₂_map_left_iff] at hr
      obtain ⟨scopes, hscopes, hsilent⟩ := h.scopes_of_silent hp (Goal.site_of_inputs_call ..) hsilent callee hcallee rfl
      exact h.passes_decided hp hnil hs ht hr hscopes hsilent
    · exact absurd hsilent Reaction.Silent.not_refuse
  | _ => trivial

end Program.Analysed

theorem Program.calls_fit_of_silent {tokens : List Token} {file : String} {p : Program} {c : Cursor}
    {a : Analysis} (h : Program.parse tokens file = .ok p c) (ha : p.analyse = .ok a)
    (hnil : a.diagnostics = []) :
    ∀ st role e, ⟨st, .expr role e⟩ ∈ p.sites → e.Passes a ((a.names p).Fits st.home e) := by
  have hp := numbered_of_parse h
  obtain ⟨d, a', ha', hd⟩ := analysed hp
  obtain rfl : a = a' := by simpa [ha] using ha'
  intro st role e hs
  rw [hd.names_eq hp]
  exact hd.passes_expr hp hnil hs

def callsText : String :=
  "fun one(x: Float): Int \x7b return 1 \x7d fun two(x: Float) \x7b\x7d fun two(x: String, y: Int) \x7b\x7d
  class C \x7b fun m(a: Int[]): Int \x7b return one(a.length) \x7d \x7d
  var c: C = (create C)() two(c$m([1, one(2)]))"

theorem Program.calls_fit_of_silent_calls :
    ∃ tokens p c a, Token.tokenize callsText "calls" = .ok tokens ∧
      Program.parse tokens "calls" = .ok p c ∧ p.analyse = .ok a ∧ a.diagnostics = [] ∧
      ∀ st role e, ⟨st, .expr role e⟩ ∈ p.sites → e.Passes a ((a.names p).Fits st.home e) := by
  obtain ⟨tokens, p, c, a, htokens, hparse, ha, hnil, _⟩ :=
    Program.exists_of_accepts 10 "calls" callsText (fun _ _ => true) (by decide +kernel)
  exact ⟨tokens, p, c, a, htokens, hparse, ha, hnil, Program.calls_fit_of_silent hparse ha hnil⟩

def voidCallText : String :=
  "fun g() \x7b\x7d fun f(x: Void) \x7b\x7d fun f(x: Int) \x7b\x7d f(g())"

/-- Whether a site is a call with an argument that may not be stored in its parameter. -/
def Site.overpasses (a : Analysis) (s : Site) : Bool :=
  match s.part with
  | .expr _ e => !decide (e.Passes a fun t q => t.assignable q = true)
  | _ => false

/-- Not every argument that passes may be stored in its parameter. -/
theorem Program.void_argument_passes :
    ∃ tokens p c a, Token.tokenize voidCallText "void" = .ok tokens ∧
      Program.parse tokens "void" = .ok p c ∧ p.analyse = .ok a ∧ a.diagnostics = [] ∧
      ∃ st role e, ⟨st, .expr role e⟩ ∈ p.sites ∧ ¬e.Passes a fun t q => t.assignable q = true := by
  obtain ⟨tokens, p, c, a, htokens, hparse, ha, hnil, htest⟩ :=
    Program.exists_of_accepts 8 "void" voidCallText (fun p a => p.sites.any fun s => s.overpasses a)
      (by decide +kernel)
  refine ⟨tokens, p, c, a, htokens, hparse, ha, hnil, ?_⟩
  obtain ⟨⟨st, part⟩, hs, hpart⟩ := List.any_eq_true.1 htest
  cases part with
  | expr role e => exact ⟨st, role, e, hs, by simpa [Site.overpasses] using hpart⟩
  | _ => cases hpart

end ScriptAnalysis
