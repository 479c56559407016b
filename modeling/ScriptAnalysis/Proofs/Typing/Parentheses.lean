import ScriptAnalysis.Proofs.Propagation.Detour
import ScriptAnalysis.Proofs.Typing.Layout
import ScriptAnalysis.Proofs.Typing.Overloads
import ScriptAnalysis.Proofs.Typing.Walk.Parenthesised

/-!
Parentheses around a callee. They are transparent to the findings, but for callees that are quoted, and to
the types of all expressions. The declaration that a call is bound to is kept if it is selected from several
functions of the name (`Analysis.candidates`); otherwise it comes from the node of the callee, where
parentheses have none, and the call is bound to nothing (`Program.callee_parenthesised`).
-/
namespace ScriptAnalysis

def Cause.unquoted : Cause → Cause
  | .notCallable _ => .notCallable ""
  | .notATemplate _ => .notATemplate ""
  | c => c

/-- A finding without the text of a callee. -/
def Diagnostic.unquoted (x : Diagnostic) : Diagnostic := { x with cause := x.cause.unquoted }

def Program.Fresh (p : Program) (n : NodeId) : Prop := n ≠ p.node.id ∧ ∀ s ∈ p.sites, s.id ≠ n

instance {p : Program} : DecidablePred p.Fresh := fun n =>
  inferInstanceAs (Decidable (n ≠ p.node.id ∧ ∀ s ∈ p.sites, s.id ≠ n))

theorem Program.Fresh.ne {p : Program} {n : NodeId} (h : p.Fresh n) {st : Setting} {role : Role} {e : Expr}
    (he : ⟨st, .expr role e⟩ ∈ p.sites) : e.id ≠ n :=
  h.2 _ he

/-- The scopes that an analysis finds the functions of a name in. -/
def OverloadSite.scopes (a : Analysis) : OverloadSite → List ScopeId
  | .name symbol => (a.attributes.scope? (.scopeOf symbol)).toList
  | .element stem =>
    match a.attributes.type? (.typeOf stem) with
    | some (.composite .cls owner) => (a.tables.classScopes owner.declaration).toOption.getD []
    | _ => []

/-- The functions that a call may be bound to by the name of its callee. -/
def Analysis.candidates (a : Analysis) (callee : Expr) : List DeclId :=
  (Callee.of callee).overloads a.tables (((OverloadSite.of? callee).map (·.scopes a)).getD [])

/-! ### What is owed at calls -/

/-- What may be owed at a site: a call only where one stands, and only names are bound later. -/
def Site.Owns (s : Site) (o : Obligation) : Prop :=
  match o.goal with
  | .call callee arguments => ∃ st role e es, s = ⟨st, .expr role (.call o.node e es)⟩ ∧
      callee = .of e ∧ arguments = es.map Expr.node
  | .lateReference _ _ => s.reference?.isSome = true
  | .copy _ b => b = .typeOf o.node.id ∨ ∃ i, b = .typeOfDecl i
  | _ => True

theorem Expr.Leaves.owns {d : Draft} {st : Setting} {role role' : Role} {x : Expr} {e : Entry}
    (h : x.Leaves d st role e) : ∀ o ∈ e.obligations, Site.Owns ⟨st, .expr role' x⟩ o := by
  cases h with
  | symbol h => cases h <;> simp [Site.Owns, Site.reference?]
  | call =>
    intro o ho
    obtain rfl : o = _ := by simpa using ho
    exact ⟨st, role', _, _, rfl, rfl, rfl⟩
  | _ => simp [Site.Owns]

theorem Site.Leaves.owns {d : Draft} {s : Site} {e : Entry} (h : s.Leaves d e) :
    ∀ o ∈ e.obligations, s.Owns o := by
  have hblock : ∀ {s : Site} {scope : ScopeId} {node : Node} {body : List Stmt},
      ∀ o ∈ (Entry.ofBlock scope node body).obligations, s.Owns o := by
    intro s scope node body
    unfold Entry.ofBlock
    split <;> simp [Site.Owns]
  cases h with
  | reference h => cases h <;> simp [Site.Owns, Site.reference?]
  | expr _ h => exact h.owns
  | condition h =>
    simp only [Entry.obligations_owing, List.mem_append, List.mem_singleton]
    rintro o (ho | rfl)
    · exact h.owns o ho
    · trivial
  | body => exact hblock
  | stmt h =>
    cases h with
    | block => exact hblock
    | ifElse =>
      unfold Entry.ofBranches
      split <;> simp [Site.Owns]
    | ret =>
      unfold Entry.ofReturn
      split <;> simp [Site.Owns]
    | _ => simp [Site.Owns]
  | _ => simp [Site.Owns]

namespace Site.Owns

variable {s : Site} {o : Obligation} {n : NodeId} {κ : AttributeKind}

/-- What is settled about a node is owed at it; the declaration of a node only if that is a name. -/
theorem node_eq (h : s.Owns o) (hx : ⟨.node n, κ⟩ ∈ o.goal.outputs o.node) :
    n = o.node.id ∧ (κ = .decl → s.reference?.isSome = true) := by
  obtain ⟨node, g⟩ := o
  cases g with
  | lateReference =>
    refine ⟨?_, fun _ => h⟩
    simp only [Goal.outputs, List.mem_cons, List.not_mem_nil, or_false, Attribute.mk.injEq, Owner.node.injEq] at hx
    rcases hx with hx | hx | hx <;> exact hx.1
  | copy a b =>
    obtain rfl : ⟨.node n, κ⟩ = b := by simpa [Goal.outputs] using hx
    rcases h with h | ⟨i, h⟩
    · obtain ⟨hn, rfl⟩ := (Attribute.mk.injEq ..).mp h
      exact ⟨Owner.node.inj hn, by rintro ⟨⟩⟩
    · cases h
  | _ =>
    simp [Goal.outputs] at hx
    try grind

end Site.Owns

namespace Program.Drafted

variable {p : Program} {d : Draft} {st : Setting} {role : Role} {node : Node} {callee : Expr}
  {arguments : List Expr} {o : Obligation}

theorem owed_at_call (hd : p.Drafted d) (hs : ⟨st, .expr role (.call node callee arguments)⟩ ∈ p.sites) :
    d.attributes.slot? (.declOf node.id) = none ∧
      ∀ o ∈ d.obligations.toList, o.node.id = node.id →
        o = ⟨node, .call (.of callee) (arguments.map Expr.node)⟩ ∨ ∃ text, o.goal = .condition text := by
  have hl := hd.leaves _ hs
  have hid : Site.id ⟨st, .expr role (.call node callee arguments)⟩ = node.id := rfl
  rw [hid] at hl
  have hslot : d.attributes.slot? (.declOf node.id) = (d.entry node.id).slots .decl := rfl
  suffices h : (d.entry node.id).slots .decl = none ∧ ∀ o ∈ (d.entry node.id).obligations,
      o = ⟨node, .call (.of callee) (arguments.map Expr.node)⟩ ∨ ∃ text, o.goal = .condition text by
    refine ⟨hslot.trans h.1, fun o ho hnode => h.2 o (List.mem_filter.2 ⟨ho, by simpa using hnode⟩)⟩
  generalize d.entry node.id = e at hl
  cases hl with
  | expr _ h =>
    cases h
    simp
  | condition h =>
    cases h
    simp

theorem not_supplies_call (hp : p.Numbered) (hd : p.Drafted d)
    (hs : ⟨st, .expr role (.call node callee arguments)⟩ ∈ p.sites) :
    ¬d.state.Supplies (.declOf node.id) := by
  rintro (hknown | ⟨r, hr, hout⟩)
  · obtain ⟨slot, hslot⟩ := Attributes.isKnown_iff.1 hknown
    have hnone := (hd.owed_at_call hs).1
    rw [show d.state.attributes = d.attributes from rfl, hnone] at hslot
    cases hslot
  · obtain ⟨o, ho, rfl⟩ := List.mem_map.1 hr
    obtain ⟨s, hs', hid, hmem⟩ := hd.exists_owing ho
    obtain ⟨hn, href⟩ := ((hd.leaves s hs').owns o hmem).node_eq hout
    obtain rfl := hp.eq_of_id hs' hs (hid.trans hn.symm)
    cases href rfl

/-- Nothing is known of a node that is none of the program. -/
theorem not_supplies_fresh (hd : p.Drafted d) {n : NodeId} (hn : p.Fresh n) (κ : AttributeKind) :
    ¬d.state.Supplies ⟨.node n, κ⟩ := by
  rintro (hknown | ⟨r, hr, hout⟩)
  · obtain ⟨slot, hslot⟩ := Attributes.isKnown_iff.1 hknown
    have hentry : (d.entry n).slots κ = some slot := hslot
    rw [hd.only n hn.1 hn.2] at hentry
    cases hentry
  · obtain ⟨o, ho, rfl⟩ := List.mem_map.1 hr
    obtain ⟨s, hs, hid, hmem⟩ := hd.exists_owing ho
    exact hn.2 s hs (hid.trans (((hd.leaves s hs).owns o hmem).node_eq hout).1.symm)

theorem site_of_call (hd : p.Drafted d) {n : Node} {c : Callee} {ns : List Node}
    (ho : ⟨n, .call c ns⟩ ∈ d.obligations.toList) :
    ∃ st role e es, ⟨st, .expr role (.call n e es)⟩ ∈ p.sites ∧ c = .of e ∧ ns = es.map Expr.node := by
  obtain ⟨s, hs, _, hmem⟩ := hd.exists_owing ho
  obtain ⟨st, role, e, es, rfl, hc, hns⟩ := (hd.leaves s hs).owns _ hmem
  exact ⟨st, role, e, es, hs, hc, hns⟩

/-- All that a rule waits for and settles is supplied. -/
theorem supplies_of_owed (hp : p.Numbered) (hd : p.Drafted d) {o : Obligation}
    (ho : o ∈ d.obligations.toList) {x : Attribute}
    (hx : x ∈ o.goal.inputs o.node ++ o.goal.outputs o.node) : d.state.Supplies x := by
  have hr : o.rule d.tables ∈ d.rules := List.mem_map_of_mem ho
  rcases List.mem_append.1 hx with hx | hx
  · exact (hd.sound_rule hp _ hr).demands x hx
  · exact .inr ⟨_, hr, hx⟩

theorem slot?_of_supplies (hp : p.Numbered) (hd : p.Drafted d) {S : Rule.State}
    (hS : Relation.ReflTransGen Rule.Step d.state S) (hnil : S.agenda = []) {x : Attribute}
    (hx : d.state.Supplies x) : S.attributes.slot? x = (d.names p).solution x := by
  have hkept := (hd.kept hp).steps hS
  rcases hkept.supplies x hx with hknown | ⟨r, hr, _⟩
  · obtain ⟨slot, hslot⟩ := Attributes.isKnown_iff.1 hknown
    rw [hslot, hkept.within x slot hslot]
  · rw [hnil] at hr
    cases hr

end Program.Drafted

/-! ### Functions of a name -/

namespace OverloadSite

variable {a : Analysis}

theorem Shows.scopes {site : OverloadSite} {ss : List ScopeId}
    (h : site.Shows a.tables a.attributes.slot? ss) : site.scopes a = ss := by
  cases h with
  | name h =>
    have hscope := Attributes.scope?_eq_some.2 (Slots.value?_eq_some.1 h)
    simp [OverloadSite.scopes, hscope]
  | element h hscopes =>
    have htype := Attributes.type?_eq_some.2 (Slots.value?_eq_some.1 h)
    simp [OverloadSite.scopes, htype, hscopes, Except.toOption]

theorem scopes_other {stem : NodeId} {t : Ty} (h : a.attributes.type? (.typeOf stem) = some t)
    (hother : ∀ owner, t ≠ .composite .cls owner) : (element stem).scopes a = [] := by
  rw [scopes, h]
  split
  · next owner howner => exact absurd (Option.some.inj howner) (hother owner)
  · rfl

end OverloadSite

namespace Program.Analysed

variable {p : Program} {d : Draft} {a : Analysis} {st : Setting} {role : Role} {node : Node}
  {callee : Expr} {arguments : List Expr} {ss : List ScopeId}

theorem mem_call (h : p.Analysed d a) (hs : ⟨st, .expr role (.call node callee arguments)⟩ ∈ p.sites) :
    ⟨node, .call (.of callee) (arguments.map Expr.node)⟩ ∈ d.obligations.toList :=
  (List.mem_filter.1 (h.filter_obligations_call hs ▸ List.mem_singleton_self _)).1

theorem slot?_of_supplies (hp : p.Numbered) (h : p.Analysed d a) {x : Attribute}
    (hx : d.state.Supplies x) : a.attributes.slot? x = (d.names p).solution x := by
  obtain ⟨ds, _, hsteps⟩ := h.reached
  exact h.drafted.slot?_of_supplies hp hsteps rfl hx

/-- The scopes that the rule of a call can read are those of the analysis. -/
theorem eq_scopes_of_sees (hp : p.Numbered) (h : p.Analysed d a)
    (hs : ⟨st, .expr role (.call node callee arguments)⟩ ∈ p.sites)
    (hsees : (Callee.of callee).Sees d.tables (fun x v => (d.names p).solution x = some (.set v)) ss) :
    ss = ((OverloadSite.of? callee).map (·.scopes a)).getD [] := by
  have hslot : ∀ {site : OverloadSite} {v : Value}, (Callee.of callee).site = some site →
      (d.names p).solution site.attr = some (.set v) → a.attributes.slot? site.attr = some (.set v) := by
    intro site v hsite hv
    have hx := h.drafted.supplies_of_owed hp (h.mem_call hs) (x := site.attr) (by simp [Goal.inputs, hsite])
    rw [h.slot?_of_supplies hp hx, hv]
  have hof : OverloadSite.of? callee = (Callee.of callee).site := rfl
  rw [hof]
  cases hsees with
  | nowhere hsite => simp [hsite]
  | name hsite hv =>
    rw [hsite]
    exact (OverloadSite.Shows.name (Slots.value?_eq_some.2 (hslot hsite hv))).scopes.symm
  | element hsite hv hscopes =>
    rw [hsite]
    exact (OverloadSite.Shows.element (Slots.value?_eq_some.2 (hslot hsite hv)) (h.tables ▸ hscopes)).scopes.symm
  | other hsite hv hother =>
    rw [hsite]
    exact (OverloadSite.scopes_other (Attributes.type?_eq_some.2 (hslot hsite hv)) hother).symm

/-- The scopes that evaluation takes the overloads of a callee from are those of the analysis. -/
theorem eq_scopes_of_calleeScopes (hp : p.Numbered) (h : p.Analysed d a) :
    ∀ {e : Expr}, ⟨st, .expr .free e⟩ ∈ p.sites → (d.names p).calleeScopes st.home e = some ss →
      ss = ((OverloadSite.of? e).map (·.scopes a)).getD []
  | .symbol ref, _, hss => by
    have hN : (d.names p).scope ref.node.id = a.attributes.scope? (.scopeOf ref.node.id) :=
      (h.scope_eq hp _).symm
    rw [Names.calleeScopes, hN] at hss
    obtain ⟨scope, hscope, hss⟩ := Option.bind_eq_some_iff.1 hss
    cases hss
    have hslot := Attributes.scope?_eq_some.1 hscope
    exact (OverloadSite.Shows.name (Slots.value?_eq_some.2 hslot)).scopes.symm
  | .paren _ inner, hs, hss => by
    rw [Names.calleeScopes] at hss
    exact eq_scopes_of_calleeScopes hp h (e := inner) (hp.premise hs (c := ⟨st, .expr .free inner⟩)
      (by simp [Site.premises, Site.ofRole, Site.ofExpr])).1 hss
  | .member _ .cls stem _, hs, hss => by
    have hstem := (hp.premise hs (c := ⟨st, .expr .free stem⟩)
      (by simp [Site.premises, Site.ofRole, Site.ofExpr])).1
    have hN : (d.names p).type st.home none stem = a.attributes.type? (.typeOf stem.id) :=
      (h.exprType?_eq hp hstem).symm
    have htables : (d.names p).tables = a.tables := h.tables.symm
    rw [Names.calleeScopes, hN] at hss
    obtain ⟨t, ht, hss⟩ := Option.bind_eq_some_iff.1 hss
    unfold Names.memberScopes at hss
    rw [htables] at hss
    split at hss
    · next owner =>
      have hscopes : a.tables.classScopes owner.declaration = .ok ss := by
        cases hc : a.tables.classScopes owner.declaration with
        | error f => simp [hc, Except.toOption] at hss
        | ok scopes => simpa [hc, Except.toOption] using hss
      have hslot := Attributes.type?_eq_some.1 ht
      exact (OverloadSite.Shows.element (Slots.value?_eq_some.2 hslot) hscopes).scopes.symm
    · next hother =>
      cases hss
      exact (OverloadSite.scopes_other ht hother).symm
  | .member _ .struct _ _, _, hss | .int _ _, _, hss | .float _ _, _, hss | .string _ _, _, hss
  | .literal _ _ _, _, hss | .not _ _, _, hss | .binary _ _ _ _, _, hss | .assign _ _ _, _, hss
  | .call _ _ _, _, hss | .templateCall _ _ _ _, _, hss | .index _ _ _, _, hss
  | .construct _ _ _, _, hss => by
    simp only [Names.calleeScopes, Option.some.injEq] at hss
    exact hss.symm

end Program.Analysed

/-- A callee with candidates shows the scopes that they come from. -/
theorem Analysis.exists_shown {a : Analysis} {callee : Expr} (h : a.candidates callee ≠ []) :
    ∃ site scopes, OverloadSite.of? callee = some site ∧ site.Shows a.tables a.attributes.slot? scopes ∧
      (Callee.of callee).overloads a.tables scopes = a.candidates callee := by
  have hnil : (Callee.of callee).overloads a.tables [] = [] := by
    unfold Callee.overloads
    split <;> rfl
  unfold candidates at h ⊢
  cases hsite : OverloadSite.of? callee with
  | none => simp [hsite, hnil] at h
  | some site =>
    rw [hsite] at h
    simp only [Option.map_some, Option.getD_some] at h ⊢
    suffices hshows : site.Shows a.tables a.attributes.slot? (site.scopes a) from
      ⟨site, _, rfl, hshows, rfl⟩
    cases site with
    | name symbol =>
      cases hscope : a.attributes.scope? (.scopeOf symbol) with
      | none => simp [OverloadSite.scopes, hscope, hnil] at h
      | some scope =>
        have hshows : (OverloadSite.name symbol).Shows a.tables a.attributes.slot? [scope] :=
          .name (Slots.value?_eq_some.2 (Attributes.scope?_eq_some.1 hscope))
        exact hshows.scopes.symm ▸ hshows
    | element stem =>
      cases htype : a.attributes.type? (.typeOf stem) with
      | none => simp [OverloadSite.scopes, htype, hnil] at h
      | some t =>
        by_cases hcls : ∃ owner, t = .composite .cls owner
        · obtain ⟨owner, rfl⟩ := hcls
          cases hscopes : a.tables.classScopes owner.declaration with
          | error f => simp [OverloadSite.scopes, htype, hscopes, Except.toOption, hnil] at h
          | ok scopes =>
            have hshows : (OverloadSite.element stem).Shows a.tables a.attributes.slot? scopes :=
              .element (Slots.value?_eq_some.2 (Attributes.type?_eq_some.1 htype)) hscopes
            exact hshows.scopes.symm ▸ hshows
        · rw [OverloadSite.scopes_other htype fun owner ht => hcls ⟨owner, ht⟩] at h
          exact absurd hnil h

namespace Program.Analysed

variable {p : Program} {d : Draft} {a : Analysis} {st : Setting} {role : Role} {node : Node}
  {callee : Expr} {arguments : List Expr} {id : DeclId}

theorem lt_size_of_candidate (h : p.Analysed d a) (hid : id ∈ a.candidates callee) : id.index < d.size := by
  rw [Analysis.candidates, h.tables] at hid
  have hid : id ∈ (d.names p).overloads callee.calleeName? _ := hid
  exact Drafted.lt_size_of_overload h.drafted hid

/-- A call that stands for one of several functions had all that it takes to choose among them. -/
theorem choice_of_chosen (hp : p.Numbered) (h : p.Analysed d a)
    (hs : ⟨st, .expr role (.call node callee arguments)⟩ ∈ p.sites)
    (hseveral : 1 < (a.candidates callee).length)
    (hid : (d.names p).chosen st.home (.call node callee arguments) = some id) :
    ∃ parameters received types result,
      a.Choice callee arguments (a.candidates callee) parameters received types ∧
      Reaction.selectOverload received ((a.candidates callee).zip types) = some (id, result) := by
  have hcallee := (hp.premise hs (c := ⟨st, .expr .free callee⟩)
    (by simp [Site.premises, Site.ofExpr])).1
  rw [Names.chosen] at hid
  obtain ⟨t, ht, hid⟩ := Option.bind_eq_some_iff.1 hid
  obtain ⟨received, hreceived, hid⟩ := Option.bind_eq_some_iff.1 hid
  obtain ⟨scopes, hscopes, hid⟩ := Option.bind_eq_some_iff.1 hid
  have hoverloads : (d.names p).overloads callee.calleeName? scopes = a.candidates callee := by
    rw [h.eq_scopes_of_calleeScopes hp hcallee hscopes, Analysis.candidates, h.tables]
    rfl
  dsimp only at hid
  split at hid
  · next result parameters _ _ =>
    rw [hoverloads, if_pos hseveral] at hid
    obtain ⟨⟨_, result'⟩, hselected, rfl⟩ := Option.map_eq_some_iff.1 hid
    obtain ⟨types, htypes, hselect⟩ := Option.bind_eq_some_iff.1 hselected
    have heq : ∀ i ∈ a.candidates callee, (d.names p).declarationType i = a.declarationType? i :=
      fun i hi => (h.declarationType?_eq hp (h.lt_size_of_candidate hi)).symm
    rw [mapM_congr_forall₂ (List.forall₂_same.2 heq), mapM_eq_some_iff] at htypes
    refine ⟨parameters, received, types, result', ⟨?_, hseveral, ⟨result, ?_⟩, ?_, htypes⟩, hselect⟩
    · exact Analysis.exists_shown fun hnil => by simp [hnil] at hseveral
    · exact (h.exprType?_eq hp hcallee).trans ht
    · exact (h.argumentTypes_iff hp hs ht).1 hreceived
  · cases hid

/-- The declaration of a call by the name of several functions is found by every resolution. -/
theorem slot?_declOf_call (hp : p.Numbered) (h : p.Analysed d a)
    (hs : ⟨st, .expr role (.call node callee arguments)⟩ ∈ p.sites)
    (hseveral : 1 < (a.candidates callee).length) {S : Rule.State}
    (hS : Relation.ReflTransGen Rule.Step d.state S) (hnil : S.agenda = []) :
    S.attributes.slot? (.declOf node.id) = (d.names p).solution (.declOf node.id) := by
  have hkept := (h.drafted.kept hp).steps hS
  have hsol : (d.names p).solution (.declOf node.id) =
      ((d.names p).chosen st.home (.call node callee arguments)).map fun id => .set (.decl id) :=
    (Drafted.solution_site hp hs .decl).trans (Drafted.siteSlot_chosen rfl)
  cases hid : (d.names p).chosen st.home (.call node callee arguments) with
  | none =>
    rw [hid, Option.map_none] at hsol
    rw [hsol, Option.eq_none_iff_forall_ne_some]
    intro slot hslot
    rw [hkept.within _ _ hslot] at hsol
    cases hsol
  | some id =>
    obtain ⟨parameters, received, types, result, ho, hselect⟩ := h.choice_of_chosen hp hs hseveral hid
    have hget : ∀ x, d.state.Supplies x → S.attributes.get? x = a.attributes.get? x := by
      intro x hx
      rw [Attributes.get?, Attributes.get?, h.drafted.slot?_of_supplies hp hS hnil hx,
        h.slot?_of_supplies hp hx]
    have hfate := hkept.fates _ (List.mem_map_of_mem (h.mem_call hs))
    obtain ⟨t, ds, agenda⟩ := S
    obtain rfl : agenda = [] := hnil
    have hknown := h.isKnown_of_selected node ho hfate (fun i hi => hget i ?_) hselect
    · obtain ⟨slot, hslot⟩ := Attributes.isKnown_iff.1 hknown
      rw [hkept.within _ _ hslot]
      exact hslot
    · rcases List.mem_append.1 hi with hi | hi
      · exact h.drafted.supplies_of_owed hp (h.mem_call hs) (List.mem_append_left _ hi)
      · obtain ⟨id', hid', rfl⟩ := List.mem_map.1 hi
        exact h.drafted.supplies_typeOfDecl hp (h.lt_size_of_candidate hid')

end Program.Analysed

/-! ### The detour -/

/-- The way that the type of a callee takes through parentheses around it. The declarations of calls need not
come the same way; that of the call itself does not come at all if it has few functions to choose from. -/
def Analysis.detour (a : Analysis) (p : Program) (d : Draft) (callee : Expr) (call : NodeId) (m : Node) :
    Rule.Detour where
  solution := (d.names p).solution
  source := .typeOf callee.id
  target := .typeOf m.id
  node := m
  free x := ∃ n, x = .declOf n ∧ ¬d.state.Supplies x ∧ (n = call → (a.candidates callee).length ≤ 1)
  lost x := (x = .declOf call ∧ (a.candidates callee).length ≤ 1) ∨ x = .declOf m.id
  told x x' := x.unquoted = x'.unquoted

/-- What a goal may write is among its outputs, but for the declaration of a call or member. -/
theorem Goal.mem_writes {g : Goal} {n : Node} {x : Attribute} (h : x ∈ g.writes n) :
    x ∈ g.outputs n ∨ (x = .declOf n.id ∧ ∀ text, g ≠ .condition text) := by
  cases g with
  | call | member =>
    rcases List.mem_cons.1 h with rfl | h
    · exact .inr ⟨rfl, fun _ h => nomatch h⟩
    · exact .inl h
  | _ => exact .inl h

theorem Obligation.Amends.mem_copy {c : NodeId} {m : Node} {b : Bool} {os os' : List Obligation}
    (h : Amends c m b os os')
    (hb : b = true ∨ ∃ n callee ns, ⟨n, .call callee ns⟩ ∈ os ∧ callee.id = c) :
    ⟨m, .copy (.typeOf c) (.typeOf m.id)⟩ ∈ os' := by
  induction h with
  | nil => simp at hb
  | @reworded b os os' n g g' _ hg ih =>
    refine List.mem_append_left _ (ih (hb.imp_right ?_))
    rintro ⟨n', callee, ns, hmem, hc⟩
    rcases List.mem_append.1 hmem with hmem | hmem
    · exact ⟨n', callee, ns, hmem, hc⟩
    · obtain ⟨-, rfl⟩ : n' = n ∧ .call callee ns = g := by simpa using hmem
      cases hg with
      | same h => exact absurd hc (h callee ns rfl)
      | call h => exact absurd hc h
  | copied => simp
  | wrapped _ _ ih => exact List.mem_append_left _ (ih (.inl rfl))

namespace Program.Analysed

open Relation (ReflTransGen)

variable {p : Program} {d : Draft} {a : Analysis} {st : Setting} {role : Role} {node m : Node}
  {callee : Expr} {arguments : List Expr} (hp : p.Numbered) (h : p.Analysed d a)
  (hs : ⟨st, .expr role (.call node callee arguments)⟩ ∈ p.sites) (hm : p.Fresh m.id)
include hp h hs hm

omit hp hs in
theorem reads_of_supplies {x : Attribute} (hx : d.state.Supplies x) :
    (a.detour p d callee node.id m).frame.reads x x := by
  refine .inl ⟨rfl, ?_, fun ⟨_, _, hfree, _⟩ => hfree hx⟩
  rintro rfl
  exact h.drafted.not_supplies_fresh hm _ hx

theorem writes_of_supplies {x : Attribute} (hx : d.state.Supplies x) :
    (a.detour p d callee node.id m).frame.writes x := by
  refine ⟨?_, ?_⟩
  · rintro rfl
    exact h.drafted.not_supplies_fresh hm _ hx
  · rintro (⟨rfl, _⟩ | rfl)
    · exact h.drafted.not_supplies_call hp hs hx
    · exact h.drafted.not_supplies_fresh hm _ hx

omit hp in
/-- Only the call of the callee is owed at the call, and nothing at the parentheses. -/
theorem ne_of_owed {o : Obligation} (ho : o ∈ d.obligations.toList)
    (hother : ∀ c ns, o.goal = .call c ns → c.id ≠ callee.id) (hgoal : ∀ text, o.goal ≠ .condition text) :
    o.node.id ≠ node.id ∧ o.node.id ≠ m.id := by
  constructor
  · intro hid
    rcases (h.drafted.owed_at_call hs).2 o ho hid with rfl | ⟨text, htext⟩
    · exact hother _ _ rfl rfl
    · exact hgoal text htext
  · intro hid
    obtain ⟨s, hs', hid', _⟩ := h.drafted.exists_owing ho
    exact hm.2 s hs' (hid'.trans hid)

/-- Whatever is owed besides the call stays within the frame of the detour. -/
theorem framed_of_owed {o : Obligation} (ho : o ∈ d.obligations.toList)
    (hother : ∀ c ns, o.goal = .call c ns → c.id ≠ callee.id) :
    o.goal.Framed (a.detour p d callee node.id m).frame .identity d.tables o.node where
  told _ hx := by
    cases hx with
    | atNode hn =>
      cases hn
      rfl
  reads x hx := h.reads_of_supplies hm
    (h.drafted.supplies_of_owed hp ho (List.mem_append_left _ hx))
  decls i k := .inl ⟨rfl, by simp [Analysis.detour], by simp [Analysis.detour]⟩
  writes x hx := by
    rcases Goal.mem_writes hx with hx | ⟨rfl, hgoal⟩
    · exact h.writes_of_supplies hp hs hm (h.drafted.supplies_of_owed hp ho (List.mem_append_right _ hx))
    · obtain ⟨hcall, hfresh⟩ := h.ne_of_owed hs hm ho hother hgoal
      exact ⟨by simp [Analysis.detour], by simp [Analysis.detour, hcall, hfresh]⟩
  passes := by
    intro c ns hg
    obtain ⟨hcall, hfresh⟩ := h.ne_of_owed hs hm ho hother fun _ => by simp [hg]
    obtain ⟨n, g⟩ := o
    obtain rfl : g = _ := hg
    obtain ⟨st', role', e, es, hs', _⟩ := h.drafted.site_of_call ho
    refine ⟨by simp [Analysis.detour], ⟨_, rfl, h.drafted.not_supplies_call hp hs', fun hn => absurd hn hcall⟩, ?_⟩
    simp [Analysis.detour, hcall, hfresh]

/-- Rules of goals that differ in the text of a callee are alike. -/
theorem like_reworded {n : Node} {g g' : Goal} (ho : ⟨n, g⟩ ∈ d.obligations.toList)
    (hg : g.Rewords callee.id g') :
    Rule.Like (a.detour p d callee node.id m).frame (Obligation.rule d.tables ⟨n, g⟩)
      (Obligation.rule d.tables ⟨n, g'⟩) := by
  have hother : ∀ c ns, g = .call c ns → c.id ≠ callee.id := by
    cases hg with
    | same h => exact h
    | call h =>
      intro c ns hg
      cases hg
      exact h
    | templateCall => exact fun _ _ h => nomatch h
  have hf := h.framed_of_owed hp hs hm ho hother
  have hin : List.Forall₂ (a.detour p d callee node.id m).frame.reads (g.inputs n) (g.inputs n) :=
    List.forall₂_same.2 hf.reads
  have hout : ∀ x ∈ g.outputs n, (a.detour p d callee node.id m).frame.writes x := fun x hx =>
    h.writes_of_supplies hp hs hm (h.drafted.supplies_of_owed hp ho (List.mem_append_right _ hx))
  have hall : ∀ ns : List Node, List.Forall₂ Placing.identity.place ns ns := fun ns =>
    List.forall₂_same.2 fun _ _ => rfl
  cases hg with
  | same => exact ⟨hin, rfl, hout, g.like_identity.react (.refl _) rfl hf⟩
  | @call c text ns =>
    refine ⟨hin, rfl, hout, Goal.like_call (K := .identity) rfl (hall ns) hf.told hf.decls
      (hf.writes _ (List.mem_cons_of_mem _ List.mem_cons_self)) (.refl _) rfl rfl rfl
      (hf.pairs (by simp [Goal.inputs])) (fun x hx => hf.pairs ?_) (fun site hsite => hf.pairs ?_)
      fun ss _ => ?_⟩
    · simp_all [Goal.inputs]
    · rw [Option.mem_def] at hsite
      simp [Goal.inputs, hsite]
    · split
      · exact hf.writes _ List.mem_cons_self
      · exact hf.passes rfl
  | templateCall => exact ⟨hin, rfl, hout, Goal.like_templateCall d.tables (K := .identity) rfl (hall _) hf rfl⟩

/-- Rules of goals of which the second has the parentheses in the place of the callee are alike. -/
theorem like_wrapped {n : Node} {g g' : Goal} (ho : ⟨n, g⟩ ∈ d.obligations.toList)
    (hg : g.Wraps callee.id m.id g') :
    Rule.Like (a.detour p d callee node.id m).frame
      (Obligation.rule d.tables ⟨n, g⟩) (Obligation.rule d.tables ⟨n, g'⟩) := by
  have hsupplied : ∀ x ∈ g.inputs n ++ g.outputs n, d.state.Supplies x := fun x hx =>
    h.drafted.supplies_of_owed hp ho hx
  have hreads : ∀ x ∈ g.inputs n,
      (a.detour p d callee node.id m).frame.reads x x :=
    fun x hx => h.reads_of_supplies hm (hsupplied x (List.mem_append_left _ hx))
  have hout : ∀ x ∈ g.outputs n,
      (a.detour p d callee node.id m).frame.writes x := fun x hx =>
    h.writes_of_supplies hp hs hm (hsupplied x (List.mem_append_right _ hx))
  have hsource : (a.detour p d callee node.id m).frame.reads
      (.typeOf callee.id) (.typeOf m.id) := .inr ⟨rfl, rfl⟩
  cases hg with
  | @argument k index =>
    refine ⟨.cons hsource .nil, rfl, hout, Reaction.like_readType ⟨List.mem_cons_self, List.mem_cons_self, hsource⟩
      fun t _ => ?_⟩
    exact Reaction.like_attempt_same (fun o ho => ⟨o, ho, rfl⟩) fun o _ =>
      Reaction.like_emptyLiteral (hout _ List.mem_cons_self) k rfl o
  | @call c text ns hc =>
    -- the callee is that of the call, since a site is part of one site only
    obtain ⟨st', role', e, es, hs', rfl, rfl⟩ := h.drafted.site_of_call ho
    have hpart : ∀ {st role node e es}, ⟨st, .expr .free e⟩ ∈ Site.parts ⟨st, .expr role (.call node e es)⟩ :=
      List.mem_cons_self
    have hsite := hp.eq_of_id (hp.premise hs' (Site.mem_premises_of_part hpart)).1
      (hp.premise hs (Site.mem_premises_of_part hpart)).1 hc
    cases hsite
    cases hp.eq_of_part hs' hs hpart hpart
    have hpairs : ∀ x ∈ arguments.map (fun e => .typeOf e.node.id) ++ ((Callee.of callee).site.map OverloadSite.attr).toList,
        (a.detour p d callee node.id m).frame.Pairs
          (Goal.inputs node (.call (.of callee) (arguments.map Expr.node)))
          (Goal.inputs node (.call { Callee.of callee with id := m.id, text := text } (arguments.map Expr.node)))
          x x := by
      intro x hx
      refine ⟨?_, ?_, hreads x ?_⟩ <;> simp_all [Goal.inputs]
    refine ⟨.cons hsource (List.forall₂_same.2 fun x hx => hreads x (List.mem_cons_of_mem _ hx)), rfl, hout, ?_⟩
    refine Goal.like_call (K := .identity) rfl (List.forall₂_same.2 fun _ _ => rfl) (fun _ hx => ?_)
      (fun i k => .inl ⟨rfl, by simp [Analysis.detour], by simp [Analysis.detour]⟩) (hout _ List.mem_cons_self)
      (.refl _) rfl rfl rfl ⟨List.mem_cons_self, List.mem_cons_self, hsource⟩
      (fun x hx => hpairs x (by simp_all)) (fun site hsite => hpairs _ ?_) fun ss hss => ?_
    · cases hx with
      | atNode hn =>
        cases hn
        rfl
    · rw [Option.mem_def] at hsite
      simp [hsite]
    · rw [show (Callee.of callee).overloads d.tables ss = a.candidates callee by
        rw [h.eq_scopes_of_sees hp hs hss, Analysis.candidates, h.tables]]
      split
      · next hseveral =>
        have hne : node.id ≠ m.id := hm.ne hs
        exact ⟨by simp [Analysis.detour], by simp [Analysis.detour, hne, hseveral]⟩
      · next hfew =>
        exact ⟨by simp [Analysis.detour], ⟨_, rfl, h.drafted.not_supplies_call hp hs, fun _ => by omega⟩,
          fun _ => .inr rfl⟩

/-- Amended obligations lead to an agenda with the detour. -/
theorem agendas_of_amends {b : Bool} {os os' : List Obligation} (hos : Obligation.Amends callee.id m b os os')
    (hmem : ∀ o ∈ os, o ∈ d.obligations.toList) :
    (a.detour p d callee node.id m).Agendas (os.map (·.rule d.tables)) (os'.map (·.rule d.tables)) := by
  induction hos with
  | nil => exact .nil
  | reworded _ hg ih =>
    simp only [List.forall_mem_append, List.forall_mem_singleton, List.map_append] at hmem ⊢
    exact (ih hmem.1).append (.cons (h.like_reworded hp hs hm hmem.2 hg) .nil)
  | copied _ ih =>
    rw [List.map_append, ← List.append_nil (List.map _ _)]
    exact (ih hmem).append (.copy .nil)
  | wrapped _ hg ih =>
    simp only [List.forall_mem_append, List.forall_mem_singleton, List.map_append] at hmem ⊢
    exact (ih hmem.1).append (.cons (h.like_wrapped hp hs hm hmem.2 hg) .nil)

/-- The resolution of the draft with the parentheses starts beside that of the draft without them. -/
theorem beside_of_amends {b : Bool} {os' : Array Obligation}
    (hos : Obligation.Amends callee.id m b d.obligations.toList os'.toList) :
    (a.detour p d callee node.id m).Beside d.state (Draft.state { d with obligations := os' }) where
  attributes := by
    have hnone : ∀ x, ¬d.state.Supplies x → d.attributes.slot? x = none := fun x hx =>
      Option.eq_none_iff_forall_ne_some.2 fun _ hslot => hx (Draft.supplies_of_slot hslot)
    refine ⟨fun _ _ _ => rfl, ?_, fun slot hslot => ?_⟩
    · rintro x (⟨rfl, _⟩ | rfl)
      · exact hnone _ (h.drafted.not_supplies_call hp hs)
      · exact hnone _ (h.drafted.not_supplies_fresh hm _)
    · have hslot : d.attributes.slot? (.typeOf m.id) = some slot := hslot
      rw [hnone _ (h.drafted.not_supplies_fresh hm _)] at hslot
      cases hslot
  diagnostics := List.forall₂_same.2 fun _ _ => rfl
  agenda := h.agendas_of_amends hp hs hm hos fun _ ho => ho
  copied := .inl (List.mem_map.2 ⟨_, hos.mem_copy (.inr ⟨_, _, _, h.mem_call hs, rfl⟩), rfl⟩)

theorem passable_detour : (a.detour p d callee node.id m).Passable := by
  have hcallee := (hp.premise hs (c := ⟨st, .expr .free callee⟩)
    (by simp [Site.premises, Site.ofExpr])).1
  refine ⟨fun heq => ?_, by simp [Analysis.detour], by simp [Analysis.detour], fun v hv => ?_⟩
  · exact hm.ne hcallee (by simpa [Analysis.detour] using heq)
  · have hsol := (Drafted.input_expr hp h.drafted hcallee).solved
    obtain ⟨t, _, hv⟩ := Slot.of_eq_set (Option.some.inj (hsol.symm.trans hv))
    exact ⟨t, hv⟩

/-- The program with the parentheses is analysed, and with what some resolution of the program without them
comes to. -/
theorem exists_parenthesised : ∃ a' S, (p.parenthesise callee.id m).analyse = .ok a' ∧
    ReflTransGen Rule.Step d.state S ∧ S.agenda = [] ∧
    (a.detour p d callee node.id m).Tables S.attributes a'.attributes ∧
    ∃ ds, a'.diagnostics.Perm ds ∧ List.Forall₂ (fun x x' => x.unquoted = x'.unquoted) S.diagnostics ds := by
  have hwalk : p.walk Walk.reference {} = .ok () d := by
    have hwalked := h.walked
    unfold Draft.after at hwalked
    split at hwalked
    · next hrun =>
      cases hwalked
      exact hrun
    · cases hwalked
  obtain ⟨os', hwalk', b, hos⟩ := Program.amends_of_walk hwalk callee.id m
  have hsource : d.state.Supplies (a.detour p d callee node.id m).source :=
    h.drafted.supplies_of_owed hp (h.mem_call hs) (List.mem_append_left _ List.mem_cons_self)
  obtain ⟨res, S, hres, hS, hnil, htables, htold⟩ := Rule.Detour.exists_resolve (h.passable_detour hp hs hm)
    (h.drafted.kept hp) hsource (h.beside_of_amends hp hs hm hos)
  obtain ⟨ds, hds, hrun⟩ : ∃ ds : List Diagnostic, ds.Perm (d.diagnostics ++ res.diagnostics) ∧
      Draft.resolve { d with obligations := os' } = .ok ⟨d.tables, res.attributes, ds⟩ := by
    have hres : Rule.resolve d.attributes (Draft.rules { d with obligations := os' }) = .ok res := hres
    refine ⟨_, List.mergeSort_perm _ fun a b => a.span.start.offset ≤ b.span.start.offset, ?_⟩
    simp only [Draft.resolve, hres, bind, Except.bind, pure, Except.pure]
  have hafter : Draft.after (do
      Builtin.declareAll
      Walk.program (p.parenthesise callee.id m)) = .ok { d with obligations := os' } := by
    show Draft.after ((p.parenthesise callee.id m).walk Walk.reference) = _
    rw [Draft.after, hwalk']
  refine ⟨⟨d.tables, res.attributes, ds⟩, S, ?_, hS, hnil, htables, _, hds, htold⟩
  rw [Program.analyse, hafter]
  exact hrun

end Program.Analysed

/-- With a callee in parentheses the analysis of a program comes to the same findings but for quoted callees,
and all expressions have the same types. The call is bound to the same declaration if several functions of
its name can be selected from; otherwise it is bound to none. -/
theorem Program.callee_parenthesised {tokens : List Token} {file : String} {p : Program} {c : Cursor}
    (h : Program.parse tokens file = .ok p c) {st : Setting} {role : Role} {node : Node} {callee : Expr}
    {arguments : List Expr} (hs : ⟨st, .expr role (.call node callee arguments)⟩ ∈ p.sites) {m : Node}
    (hm : p.Fresh m.id) :
    ∃ a a', p.analyse = .ok a ∧ (p.parenthesise callee.id m).analyse = .ok a' ∧
      (a'.diagnostics.map Diagnostic.unquoted).Perm (a.diagnostics.map Diagnostic.unquoted) ∧
      (∀ st role e, ⟨st, .expr role e⟩ ∈ p.sites →
        a'.attributes.slot? (.typeOf e.id) = a.attributes.slot? (.typeOf e.id)) ∧
      a'.attributes.decl? (.declOf node.id) =
        if 1 < (a.candidates callee).length then a.attributes.decl? (.declOf node.id) else none := by
  have hp := numbered_of_parse h
  obtain ⟨d, a, ha, hd⟩ := analysed hp
  obtain ⟨a', S, ha', hS, hnil, htables, ds, hds, htold⟩ := hd.exists_parenthesised hp hs hm
  refine ⟨a, a', ha, ha', ?_, fun st role e he => ?_, ?_⟩
  · have hsame : S.diagnostics.map Diagnostic.unquoted = ds.map Diagnostic.unquoted := by
      rw [← List.forall₂_eq_eq_eq, List.forall₂_map_left_iff, List.forall₂_map_right_iff]
      exact htold
    have hperm := (hd.perm_told hp).trans (hd.drafted.perm_told hp hS hnil).symm
    exact (hds.map _).trans (hsame ▸ (hperm.map _).symm)
  · have hsupplied := (Drafted.input_expr hp hd.drafted he).supplied
    rw [htables.same _ (fun heq => hm.ne he (by simpa [Analysis.detour] using heq)) (by simp [Analysis.detour]),
      hd.drafted.slot?_of_supplies hp hS hnil hsupplied, hd.slot?_of_supplies hp hsupplied]
  · split
    · next hseveral =>
      obtain ⟨ds', _, hsteps⟩ := hd.reached
      have hslot : a'.attributes.slot? (.declOf node.id) = a.attributes.slot? (.declOf node.id) := by
        rw [htables.same _ (by simp [Analysis.detour]) (by simp [Analysis.detour]; omega),
          hd.slot?_declOf_call hp hs hseveral hS hnil, hd.slot?_declOf_call hp hs hseveral hsteps rfl]
      rw [Attributes.decl?, Attributes.decl?, Attributes.get?, Attributes.get?, hslot]
    · next hfew =>
      rw [Attributes.decl?, Attributes.get?, htables.lost _ (.inl ⟨rfl, by omega⟩)]

def singleText : String := "fun f(x: Int): Int \x7b return x \x7d f(1)"

/-- Whether a site is a call of a function, and of none once a node of that number stands for parentheses
around its callee. -/
def Site.unbinds (p : Program) (a : Analysis) (n : NodeId) (s : Site) : Bool :=
  match s.part with
  | .expr _ (.call node callee _) =>
    (a.attributes.decl? (.declOf node.id)).isSome &&
      ((p.parenthesise callee.id ⟨n, callee.node.span⟩).acceptedWithin 8).any fun a' =>
        (a'.attributes.decl? (.declOf node.id)).isNone
  | _ => false

/-- Parentheses around a callee do not always leave the call bound to its function. -/
theorem Program.parenthesised_unbound :
    ∃ tokens p c a a', Token.tokenize singleText "single" = .ok tokens ∧
      Program.parse tokens "single" = .ok p c ∧ p.analyse = .ok a ∧
      ∃ st role node callee arguments n, ⟨st, .expr role (.call node callee arguments)⟩ ∈ p.sites ∧ p.Fresh n ∧
        (p.parenthesise callee.id ⟨n, callee.node.span⟩).analyse = .ok a' ∧
        a.attributes.decl? (.declOf node.id) ≠ none ∧ a'.attributes.decl? (.declOf node.id) = none := by
  obtain ⟨tokens, p, c, a, htokens, hparse, ha, _, htest⟩ :=
    Program.exists_of_accepts 8 "single" singleText
      (fun p a => decide (p.Fresh ⟨100⟩) && p.sites.any fun s => s.unbinds p a ⟨100⟩) (by decide +kernel)
  simp only [Bool.and_eq_true, decide_eq_true_eq] at htest
  obtain ⟨hfresh, hany⟩ := htest
  obtain ⟨⟨st, part⟩, hs, hpart⟩ := List.any_eq_true.1 hany
  unfold Site.unbinds at hpart
  split at hpart
  · next role node callee arguments heq =>
    obtain rfl : part = _ := heq
    simp only [Bool.and_eq_true] at hpart
    obtain ⟨a', ha', hnone⟩ := (Option.any_eq_true ..).1 hpart.2
    exact ⟨tokens, p, c, a, a', htokens, hparse, ha, st, role, node, callee, arguments, ⟨100⟩, hs, hfresh,
      (Program.analyse_of_acceptedWithin ha').1, Option.isSome_iff_ne_none.1 hpart.1,
      Option.isNone_iff_eq_none.1 hnone⟩
  · cases hpart

def pairText : String := "fun f(x: Int): Int \x7b return x \x7d fun f(s: String) \x7b\x7d f(1)"

/-- Whether a site is a call that is bound to one of several functions. -/
def Site.selects (a : Analysis) (s : Site) : Bool :=
  match s.part with
  | .expr _ (.call node callee _) =>
    1 < (a.candidates callee).length && (a.attributes.decl? (.declOf node.id)).isSome
  | _ => false

theorem Program.callee_parenthesised_pair :
    ∃ tokens p c a a', Token.tokenize pairText "pair" = .ok tokens ∧
      Program.parse tokens "pair" = .ok p c ∧ p.analyse = .ok a ∧
      ∃ st role node callee arguments m, ⟨st, .expr role (.call node callee arguments)⟩ ∈ p.sites ∧
        (p.parenthesise callee.id m).analyse = .ok a' ∧ a'.diagnostics = [] ∧
        a'.attributes.decl? (.declOf node.id) = a.attributes.decl? (.declOf node.id) ∧
        a.attributes.decl? (.declOf node.id) ≠ none := by
  obtain ⟨tokens, p, c, a, htokens, hparse, ha, hnil, htest⟩ :=
    Program.exists_of_accepts 8 "pair" pairText
      (fun p a => decide (p.Fresh ⟨100⟩) && p.sites.any fun s => s.selects a) (by decide +kernel)
  simp only [Bool.and_eq_true, decide_eq_true_eq] at htest
  obtain ⟨hfresh, hany⟩ := htest
  obtain ⟨⟨st, part⟩, hs, hpart⟩ := List.any_eq_true.1 hany
  unfold Site.selects at hpart
  split at hpart
  · next role node callee arguments heq =>
    obtain rfl : part = _ := heq
    simp only [Bool.and_eq_true, decide_eq_true_eq] at hpart
    obtain ⟨b, a', hb, ha', hperm, _, hdecl⟩ := Program.callee_parenthesised hparse hs
      (m := ⟨⟨100⟩, callee.node.span⟩) hfresh
    obtain rfl : a = b := by simpa [ha] using hb
    rw [hnil, List.map_nil, List.perm_nil, List.map_eq_nil_iff] at hperm
    rw [if_pos hpart.1] at hdecl
    exact ⟨tokens, p, c, a, a', htokens, hparse, ha, st, role, node, callee, arguments, _, hs, ha', hperm, hdecl,
      Option.isSome_iff_ne_none.1 hpart.2⟩
  · cases hpart

end ScriptAnalysis
