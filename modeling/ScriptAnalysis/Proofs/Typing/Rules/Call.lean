import ScriptAnalysis.Proofs.Typing.Rules.Member

/-! The rules of calls conform to the solution. -/
namespace ScriptAnalysis

open Reaction

theorem Names.argumentTypes_eq (N : Names) (home : NodeId) (t : Ty) (es : List Expr) (i : Nat) :
    N.argumentTypes home t i es =
      (es.zipIdx i).mapM fun x => N.type home (parameterType t x.2) x.1 := by
  induction es generalizing i with
  | nil => rw [argumentTypes]; rfl
  | cons e rest ih => rw [argumentTypes, ih, List.zipIdx_cons, List.mapM_cons]

theorem Names.callType_other {N : Names} {candidates : List DeclId} {received : List Ty} {ty : Ty}
    (h : ∀ r ps, ty = .function r ps → False) : N.callType candidates received ty = none := by
  unfold callType
  split
  · exact (h _ _ rfl).elim
  · rfl

theorem Names.templateCallType_other {given received : List Ty} {ty : Ty}
    (h : ∀ r k ps, ty = .template r k ps → False) : templateCallType given received ty = none := by
  unfold templateCallType
  split
  · exact (h _ _ _ rfl).elim
  · rfl

theorem Names.memberScopes_other {N : Names} {ty : Ty}
    (h : ∀ owner, ty = .composite .cls owner → False) : N.memberScopes ty = some [] := by
  unfold memberScopes
  split
  · exact (h _ rfl).elim
  · rfl

theorem Reaction.conforms_checkArguments {sol : Solution} {K : Rule → Prop} {node : Node}
    {outs : List Attribute} {t : Attributes} {n : Nat} {next : Reaction} {arguments : List Node}
    {received expected : List Ty} {told : Bool} (i : Nat) (hr : ∀ x ∈ received, x.Regular n)
    (he : ∀ x ∈ expected, x.Regular n) (h : ∀ told, Conforms sol K node outs told next t) :
    Conforms sol K node outs told (checkArguments i arguments received expected next) t := by
  induction arguments generalizing i received expected told with
  | nil =>
    unfold checkArguments
    exact h told
  | cons a rest ih =>
    cases received with
    | nil =>
      unfold checkArguments
      exact h told
    | cons r received =>
      cases expected with
      | nil =>
        unfold checkArguments
        exact h told
      | cons e expected =>
        simp only [List.forall_mem_cons] at hr he
        rw [checkArguments]
        split
        · exact ih (i + 1) hr.2 he.2
        · exact conforms_reportTypes (fun _ _ => rfl) he.1 hr.1 (ih (i + 1) hr.2 he.2)

theorem Reaction.conforms_read {sol : Solution} {K : Rule → Prop} {node : Node}
    {outs : List Attribute} {told : Bool} {t : Attributes} {a : Attribute}
    {next : Option Value → Reaction} (h : Conforms sol K node outs told (next (t.get? a)) t) :
    Conforms sol K node outs told (.read a next) t :=
  h

namespace Program.Drafted

variable {p : Program} {d : Draft} {st : Setting} {role : Role} {node : Node} {e callee : Expr}
  {arguments : List Expr}

def ShowsScopes (p : Program) (d : Draft) (site : Option OverloadSite) (t : Attributes)
    (scopes : List ScopeId) : Prop :=
  ∀ (inputs : List Attribute) (i : Nat) (next : List ScopeId → Reaction) (K : Rule → Prop) (node : Node)
    (outs : List Attribute) (told : Bool), inputs[i]? = site.map OverloadSite.attr →
    (next scopes).Conforms (d.names p).solution K node outs told t →
    (Goal.overloadScopes d.tables inputs site i next).Conforms (d.names p).solution K node outs told t

theorem showsScopes_none (t : Attributes) : ShowsScopes p d none t [] := by
  intro inputs i next K node outs told _ h
  exact h

theorem showsScopes_name {t : Attributes} {n : NodeId} {scope : ScopeId}
    (hget : t.get? (.scopeOf n) = some (.scope scope)) :
    ShowsScopes p d (some (.name n)) t [scope] := by
  intro inputs i next K node outs told hsite h
  exact conforms_of_eq (scopeAt_eq hsite _) (conforms_readScope hget h)

theorem showsScopes_element (hd : p.Drafted d) {t : Attributes} {n : NodeId} {ty : Ty}
    (hty : ty.Regular d.size) (hget : t.get? (.typeOf n) = some (.type ty)) :
    ∃ scopes, (d.names p).memberScopes ty = some scopes ∧
      ShowsScopes p d (some (.element n)) t scopes := by
  by_cases hcls : ∃ owner, ty = .composite .cls owner
  · obtain ⟨owner, rfl⟩ := hcls
    cases hty with
    | composite h =>
      obtain ⟨scopes, hscopes⟩ := hd.sound.exists_classScopes h
      have htables : (d.names p).tables = d.tables := rfl
      refine ⟨scopes, by simp [Names.memberScopes, htables, hscopes, Except.toOption], ?_⟩
      intro inputs i next K node outs told hsite h
      exact conforms_of_eq (typeAt_eq hsite _) (conforms_readType hget (conforms_attempt hscopes h))
  · refine ⟨[], Names.memberScopes_other fun owner howner => hcls ⟨owner, howner⟩, ?_⟩
    intro inputs i next K node outs told hsite h
    refine conforms_of_eq (typeAt_eq hsite _) (conforms_readType hget ?_)
    split
    · exact absurd ⟨_, rfl⟩ hcls
    · exact h

/-- The scopes of the overloads of a callee are known from attributes that come before it. -/
theorem reads_scopes (hp : p.Numbered) (hd : p.Drafted d) :
    ∀ (e : Expr), ⟨st, .expr .free e⟩ ∈ p.sites →
      p.Reads d ((OverloadSite.of? e).map OverloadSite.attr).toList
        ((d.names p).calleeScopes st.home e) (ShowsScopes p d (OverloadSite.of? e)) ∧
      ∀ a ∈ ((OverloadSite.of? e).map OverloadSite.attr).toList, a.rank < (Attribute.typeOf e.id).rank
  | .symbol ref, hs => by
    refine ⟨?_, by simp [OverloadSite.of?, OverloadSite.attr, Attribute.rank,
      Prod.Lex.toLex_lt_toLex]⟩
    rw [Names.calleeScopes]
    exact (input_scope hp hd hs rfl).reads.bind fun t scope _ hget =>
      ⟨[scope], rfl, showsScopes_name hget⟩
  | .paren node inner, hs => by
    obtain ⟨hinner, hlt⟩ := hp.premise hs (c := ⟨st, .expr .free inner⟩)
      (by simp [Site.premises, Site.ofRole, Site.ofExpr])
    obtain ⟨hreads, hrank⟩ := reads_scopes hp hd inner hinner
    rw [Names.calleeScopes]
    exact ⟨hreads, fun a ha => (hrank a ha).trans (Attribute.rank_typeOf hlt)⟩
  | .member node .cls stem name, hs => by
    obtain ⟨hinput, hlt⟩ := input_part hp hd hs (x := stem) (by simp [Site.ofExpr])
    refine ⟨?_, by simpa [OverloadSite.of?, OverloadSite.attr] using Attribute.rank_typeOf hlt⟩
    rw [Names.calleeScopes]
    exact hinput.reads.bind fun t ty hty hget =>
      showsScopes_element hd (Names.type_regular stem (by simp) hty) hget
  | .int _ _, _ | .float _ _, _ | .string _ _, _ | .literal _ _ _, _ | .not _ _, _
  | .binary _ _ _ _, _ | .assign _ _ _, _ | .call _ _ _, _ | .templateCall _ _ _ _, _
  | .index _ _ _, _ | .construct _ _ _, _ | .member _ .struct _ _, _ => by
    simp only [Names.calleeScopes, OverloadSite.of?, Option.map_none, Option.toList_none]
    exact ⟨⟨fun t _ _ => ⟨[], rfl, showsScopes_none t⟩, by simp, by simp⟩, by simp⟩

theorem lt_size_of_overload (hd : p.Drafted d) {name : Option String} {scopes : List ScopeId}
    {id : DeclId} (h : id ∈ (d.names p).overloads name scopes) : id.index < d.size := by
  cases name with
  | none => simp [Names.overloads] at h
  | some name =>
    obtain ⟨s, _, _, hid⟩ := Signatures.mem_overloads h
    exact hd.sound.signatures s id hid

/-- The arguments of a call have the types that evaluation gives them. -/
theorem reads_arguments (hp : p.Numbered) (hd : p.Drafted d)
    (hargs : ∀ x ∈ arguments.zipIdx, ⟨st, .expr (.argument callee x.2) x.1⟩ ∈ p.sites) :
    p.Reads d ((arguments.map Expr.node).map (.typeOf ·.id))
      (arguments.zipIdx.mapM fun x => (d.names p).typeIn st (.argument callee x.2) x.1)
      fun t xs => List.Forall₂ (fun a x => t.get? a = some (.type x))
        ((arguments.map Expr.node).map (.typeOf ·.id)) xs := by
  have hattr : (arguments.zipIdx.map fun x => Attribute.typeOf x.1.id) =
      (arguments.map Expr.node).map (.typeOf ·.id) := by
    conv_rhs => rw [← List.zipIdx_map_fst 0 arguments, List.map_map, List.map_map]
    rfl
  exact reads_all hattr fun x hx => input_expr hp hd (hargs x hx)

theorem rank_arguments {n : NodeId} (h : ∀ x ∈ arguments.zipIdx, x.1.id.index < n.index) :
    ∀ a ∈ (arguments.map Expr.node).map (Attribute.typeOf ·.id),
      a.rank < (Attribute.typeOf n).rank := by
  rw [List.map_map]
  intro a ha
  obtain ⟨e, he, rfl⟩ := List.mem_map.1 ha
  obtain ⟨i, hi⟩ := List.mem_iff_getElem?.1 he
  exact Attribute.rank_typeOf (h (e, i) (List.mk_mem_zipIdx_iff_getElem?.2 hi))

/-- A call comes after its callee and after what else it reads. -/
theorem ranked_call {m n : NodeId} {l l' : List Attribute} (h : m.index < n.index)
    (hl : ∀ a ∈ l, a.rank < (Attribute.typeOf n).rank) (hl' : ∀ a ∈ l', a.rank < (Attribute.typeOf n).rank) :
    ∀ b ∈ [Attribute.typeOf n], ∀ a ∈ [Attribute.typeOf m] ++ l ++ l', a.rank < b.rank := by
  simp only [List.forall_mem_singleton, List.forall_mem_append]
  exact ⟨⟨Attribute.rank_typeOf h, hl⟩, hl'⟩

theorem argumentTypes_of_callee {N : Names} {t : Ty} (h : N.type st.home none callee = some t) :
    (arguments.zipIdx.mapM fun x => N.typeIn st (.argument callee x.2) x.1) =
      N.argumentTypes st.home t 0 arguments := by
  rw [Names.argumentTypes_eq]
  simp [Names.typeIn, Names.expectation, h]

/-- The chained rule of a call to one of several functions. -/
theorem final_overloaded (hp : p.Numbered) (hd : p.Drafted d) {overloads : List DeclId}
    {received : List Ty} {arity : Nat} (hbound : ∀ id ∈ overloads, id.index < d.size)
    (hsol : (d.names p).solution (.typeOf node.id) =
      some (.of .type (((d.names p).selected overloads received).map (·.2))))
    (hdecl : (d.names p).solution (.declOf node.id) =
      (((d.names p).selected overloads received).map (·.1)).map fun id => .set (.decl id)) :
    p.Final d ⟨"", overloads.map .typeOfDecl, [.typeOf node.id], node,
      overloadedCall node overloads received arity (overloads.map .typeOfDecl) [.typeOf node.id]⟩ := by
  refine (reads_all rfl fun id hid => input_declaration hp hd (hbound id hid)).conforms
    (fun t tys ht htys hgets => conforms_of_eq (overloadedCall_eq ..) (conforms_readTypes hgets ?_))
    (fun hnone => List.forall_mem_singleton.2 ?_) ?_
  · simp only [Names.selected, htys, Option.bind_eq_bind, Option.bind_some] at hsol hdecl
    cases hselect : selectOverload received (overloads.zip tys) with
    | none =>
      rw [hselect] at hsol
      exact conforms_refuse_one ht hsol rfl
    | some x =>
      rw [hselect] at hsol hdecl
      refine conforms_set (conforms_set (conforms_done ((ht.set hsol).set hdecl) ?_))
      simp [Attributes.isKnown_set]
  · simp only [Names.selected, hnone, Option.bind_eq_bind, Option.bind_none] at hsol
    exact hsol
  · simp [Attribute.rank, Prod.Lex.toLex_lt_toLex]

theorem conforms_decideCall (hp : p.Numbered) (hd : p.Drafted d) {t : Attributes} {result : Ty}
    {parameters received : List Ty} {overloads : List DeclId} {places : List Node} {n : NodeId}
    {chosen : Option DeclId} (ht : t.Within (d.names p).solution)
    (hparameters : ∀ x ∈ parameters, x.Regular d.size) (hreceived : ∀ x ∈ received, x.Regular d.size)
    (hbound : ∀ id ∈ overloads, id.index < d.size)
    (hsol : (d.names p).solution (.typeOf node.id) =
      some (.of .type ((d.names p).callType overloads received (.function result parameters))))
    (hdecl : (d.names p).solution (.declOf node.id) =
      (if 1 < overloads.length then ((d.names p).selected overloads received).map (·.1)
        else if parameters.length = received.length then chosen else none).map
        fun id => .set (.decl id))
    (hcallee : ∀ id, t.get? (.declOf n) = some (.decl id) → chosen = some id) :
    (Goal.decideCall node [.typeOf node.id] n places result parameters received overloads).Conforms
      (d.names p).solution (p.Final d) node [.typeOf node.id] false t := by
  unfold Goal.decideCall
  rw [Names.callType] at hsol
  split
  · next hmany =>
    rw [if_pos hmany] at hsol hdecl
    exact conforms_chain (final_overloaded hp hd hbound hsol hdecl) (conforms_done ht (by simp))
  · next hfew =>
    rw [if_neg hfew] at hsol hdecl
    split
    · next hlen =>
      rw [if_neg hlen] at hsol
      exact conforms_refuse_one ht hsol rfl
    · next hlen =>
      rw [if_pos (not_not.1 hlen)] at hsol hdecl
      have ht' := ht.set hsol
      have hcheck : ∀ u : Attributes, u.Within (d.names p).solution →
          u.isKnown (.typeOf node.id) = true →
          (checkArguments 0 places received parameters .done).Conforms (d.names p).solution
            (p.Final d) node [.typeOf node.id] false u := fun u hu hknown =>
        conforms_checkArguments 0 hreceived hparameters fun _ =>
          conforms_done hu (by simpa using hknown)
      refine conforms_set (conforms_read ?_)
      split
      · next id hget =>
        rw [Attributes.get?_set_ne (by simp)] at hget
        rw [hcallee id hget] at hdecl
        exact conforms_set (hcheck _ (ht'.set hdecl) (by simp [Attributes.isKnown_set]))
      · exact hcheck _ ht' (by simp [Attributes.isKnown_set])

theorem chosen_of_solution (hp : p.Numbered) (hs : ⟨st, .expr role e⟩ ∈ p.sites) {id : DeclId}
    (h : (d.names p).solution (.declOf e.id) = some (.set (.decl id))) :
    (d.names p).chosen st.home e = some id := by
  have hslot : (d.names p).siteSlot ⟨st, .expr role e⟩ .decl = some (.set (.decl id)) :=
    (solution_site hp hs .decl).symm.trans h
  cases e with
  | symbol ref =>
    rw [siteSlot_decl rfl, Option.some.injEq] at hslot
    obtain ⟨i, hi, hv⟩ := Slot.of_eq_set hslot
    cases hv
    rw [Names.chosen]
    exact hi
  | _ =>
    rw [siteSlot_chosen rfl] at hslot
    obtain ⟨i, hi, hv⟩ := Option.map_eq_some_iff.1 hslot
    cases hv
    exact hi

theorem sound_call (hp : p.Numbered) (hd : p.Drafted d)
    (hs : ⟨st, .expr role (.call node callee arguments)⟩ ∈ p.sites) :
    p.Sound d (Obligation.rule d.tables
      ⟨node, .call (.of callee) (arguments.map Expr.node)⟩) := by
  obtain ⟨hsite, hlt⟩ := hp.premise hs (c := ⟨st, .expr .free callee⟩)
    (by simp [Site.premises, Site.ofExpr])
  have hargs : ∀ x ∈ arguments.zipIdx, ⟨st, .expr (.argument callee x.2) x.1⟩ ∈
      Site.ofExpr st (.call node callee arguments) := fun x hx =>
    List.mem_cons_of_mem _ (List.mem_map.2 ⟨x, hx, rfl⟩)
  obtain ⟨hscopes, hrank⟩ := reads_scopes hp hd callee hsite
  have hsol : (d.names p).solution (.typeOf node.id) = _ := solution_expr hp hs
  have hdecl : (d.names p).solution (.declOf node.id) =
      ((d.names p).chosen st.home (.call node callee arguments)).map fun id => .set (.decl id) :=
    solution_site hp hs .decl
  rw [Names.typeIn, Names.type] at hsol
  refine (input_expr hp hd hsite).reads.conforms₃
    (reads_arguments hp hd fun x hx => (hp.premise hs (List.mem_append_right _ (hargs x hx))).1)
    hscopes (fun t ty received scopes ht hty hreceived hsc hget hgets hshow => ?_)
    (fun hnone => List.forall_mem_singleton.2 ?_) ?_
  · have htype : (d.names p).type st.home none callee = some ty := hty
    have hregular := Names.type_regular callee (by simp) htype
    have hreceived' := forall_of_mapM hreceived fun x _ u hu => Names.typeIn_regular hu
    rw [argumentTypes_of_callee htype] at hreceived
    simp only [Names.chosen, htype, hreceived, hsc, Option.bind_eq_bind, Option.bind_some] at hsol hdecl
    refine conforms_of_eq (Goal.react_call ..) (conforms_readType hget ?_)
    split
    · next result parameters =>
      cases hregular with
      | function hr hps =>
        refine conforms_readTypes hgets (hshow _ _ _ _ _ _ _ (Goal.site_of_inputs_call ..) ?_)
        refine conforms_decideCall hp hd ht hps hreceived' (fun id => lt_size_of_overload hd) hsol hdecl
          fun id hid => chosen_of_solution hp hsite (ht _ _ (Attributes.get?_eq_some.1 hid))
    · next hfun =>
      refine conforms_refuse_one ht ?_ rfl
      rw [hsol, Names.callType_other hfun]
      rfl
  · rw [hsol]
    cases hty : (d.names p).type st.home none callee with
    | none => rfl
    | some ty =>
      rw [argumentTypes_of_callee hty] at hnone
      rcases hnone with hnone | hnone | hnone
      · exact absurd (hty.symm.trans hnone) (by simp)
      · simp [hnone, Slot.of]
      · cases (d.names p).argumentTypes st.home ty 0 arguments <;> simp [hnone, Slot.of]
  · exact ranked_call hlt
      (rank_arguments fun x hx => (hp.premise hs (List.mem_append_right _ (hargs x hx))).2)
      fun a ha => (hrank a ha).trans (Attribute.rank_typeOf hlt)

theorem final_templateCall (hp : p.Numbered) (hd : p.Drafted d) {types : List TypeExpr}
    {text : String} (hs : ⟨st, .expr role (.templateCall node callee types arguments)⟩ ∈ p.sites) :
    p.Final d (Obligation.rule d.tables ⟨node, .templateCall callee.id text (types.map TypeExpr.id)
      (arguments.map Expr.node)⟩) := by
  obtain ⟨hsite, hlt⟩ := hp.premise hs (c := ⟨st, .expr .free callee⟩)
    (by simp [Site.premises, Site.ofExpr])
  have hargs : ∀ x ∈ arguments.zipIdx, ⟨st, .expr (.argument callee x.2) x.1⟩ ∈
      Site.ofExpr st (.templateCall node callee types arguments) := fun x hx =>
    List.mem_append_right _ (List.mem_map.2 ⟨x, hx, rfl⟩)
  have htypes : ∀ w ∈ types, p.Input d .type (.valueOf w.id)
      ((d.names p).writtenType st.home w) := by
    intro w hw
    exact input_written hp hd (hp.premise hs (c := ⟨st, .written w⟩)
      (by simp [Site.premises, Site.ofExpr, hw])).1
  have hsol : (d.names p).solution (.typeOf node.id) = _ := solution_expr hp hs
  rw [Names.typeIn, Names.type] at hsol
  refine (input_expr hp hd hsite).reads.conforms₃ (reads_all List.map_map.symm htypes)
    (reads_arguments hp hd fun x hx => (hp.premise hs (List.mem_append_right _ (hargs x hx))).1)
    (fun t ty given received ht hty hgiven hreceived hget hgets hgets' =>
      conforms_of_eq (Goal.react_templateCall ..) (conforms_readType hget ?_))
    (fun hnone => List.forall_mem_singleton.2 ?_) ?_
  · have htype : (d.names p).type st.home none callee = some ty := hty
    have hregular := Names.type_regular callee (by simp) htype
    have hreceived' := forall_of_mapM hreceived fun x _ u hu => Names.typeIn_regular hu
    have hlen := (mapM_eq_some_iff.1 hreceived).length_eq
    have hlen' := (mapM_eq_some_iff.1 hgiven).length_eq
    rw [argumentTypes_of_callee htype] at hreceived
    simp only [htype, hreceived, hgiven, Option.bind_eq_bind, Option.bind_some] at hsol
    split
    · next result count parameters =>
      cases hregular with
      | template hk hr hps =>
        rw [Names.templateCallType] at hsol
        refine conforms_attempt (Ty.splitParameters_eq hk) ?_
        dsimp only
        split
        · next harity =>
          rw [if_neg fun h => harity (by simp [h.1, ← hlen])] at hsol
          exact conforms_refuse_one ht hsol rfl
        · next harity =>
          split
          · next hcount =>
            rw [if_neg fun h => hcount (by simp [h.2, ← hlen'])] at hsol
            exact conforms_refuse_one ht hsol rfl
          · next hcount =>
            have hcounts : (parameters.drop count).length = received.length ∧
                count = given.length := by
              simp only [List.length_map, not_not] at harity hcount
              rw [List.length_zipIdx] at hlen
              exact ⟨harity.trans hlen, hcount.trans hlen'⟩
            rw [if_pos hcounts] at hsol
            refine conforms_readTypes hgets (conforms_readTypes hgets' ?_)
            refine conforms_checkArguments 0 hreceived' ?_ fun _ => conforms_give ht hsol
            rw [Ty.substituteAll_eq_map]
            refine List.forall_mem_map.2 fun q hq => ?_
            exact ((hps q (List.mem_of_mem_drop hq)).substitute (Names.placeholderBindings_plain
              (forall_of_mapM hgiven fun _ _ _ hv => Names.writtenType_plain hv))).regular
    · next htemplate =>
      refine conforms_refuse_one ht ?_ rfl
      rw [hsol, Names.templateCallType_other htemplate]
      rfl
  · rw [hsol]
    cases hty : (d.names p).type st.home none callee with
    | none => rfl
    | some ty =>
      rw [argumentTypes_of_callee hty] at hnone
      rcases hnone with hnone | hnone | hnone
      · exact absurd (hty.symm.trans hnone) (by simp)
      · simp [hnone, Slot.of]
      · cases types.mapM ((d.names p).writtenType st.home) <;> simp [hnone, Slot.of]
  · refine ranked_call hlt (fun a ha => ?_)
      (rank_arguments fun x hx => (hp.premise hs (List.mem_append_right _ (hargs x hx))).2)
    obtain ⟨n, _, rfl⟩ := List.mem_map.1 ha
    simp [Attribute.rank, Prod.Lex.toLex_lt_toLex]

end Program.Drafted

end ScriptAnalysis
