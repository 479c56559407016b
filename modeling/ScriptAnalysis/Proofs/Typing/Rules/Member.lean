import ScriptAnalysis.Proofs.Typing.Rules.Expr

/-! The rules of members and constructors conform to the solution. -/
namespace ScriptAnalysis

open Reaction

theorem exists_mapM {ε α β : Type} {f : α → Except ε β} {l : List α}
    (h : ∀ x ∈ l, ∃ y, f x = .ok y) :
    ∃ ys, l.mapM f = .ok ys ∧ List.Forall₂ (fun x y => f x = .ok y) l ys := by
  induction l with
  | nil => exact ⟨[], rfl, .nil⟩
  | cons x rest ih =>
    simp only [List.forall_mem_cons] at h
    obtain ⟨y, hy⟩ := h.1
    obtain ⟨ys, hys, hall⟩ := ih h.2
    refine ⟨y :: ys, ?_, .cons hy hall⟩
    rw [List.mapM_cons, hy, hys]
    rfl

theorem Names.memberType_other {N : Names} {c : Composite} {name : String} {ty : Ty}
    (h : ∀ u, ty = .array u → False) :
    N.memberType c name ty = (N.memberDecl c name ty).bind N.declarationType := by
  unfold Names.memberType
  split
  · exact (h _ rfl).elim
  · rfl

theorem Goal.constructorType_eq {tables : Tables} {id : DeclId} {x : Declaration} {c : Composite}
    (hx : tables.declarations.get id = .ok x) (node : Node) (name : String) :
    constructorType tables node [.typeOf node.id] c name id =
      match Names.constructorFields x.kind c with
      | some fields => handOver (.declaredBy id :: fields.map .typeOfDecl) [.typeOf node.id] buildConstructor
      | none => refuse (.atNode (.notConstructible c name) node) [.typeOf node.id] := by
  unfold constructorType
  rw [hx]
  cases c <;> rfl

namespace Draft.Sound

variable {d : Draft} {id : DeclId}

theorem exists_members (h : d.Sound) (hid : id.index < d.size) (c : Composite) :
    ∃ members, d.tables.members c id = .ok members ∧ ∀ i ∈ members, i.index < d.size := by
  obtain ⟨x, hx⟩ := Declarations.exists_item hid
  have hmentions := h.mentions _ x hx
  unfold Tables.members
  rw [Declarations.get_eq_ok.2 hx]
  refine ⟨_, rfl, fun i hi => hmentions i ?_⟩
  cases c with
  | struct =>
    cases hk : x.kind with
    | struct fields => simpa [hk, DeclarationKind.fields?, DeclarationKind.mentions] using hi
    | _ => simp [hk, DeclarationKind.fields?] at hi
  | cls =>
    cases hk : x.kind with
    | cls info =>
      have hmem : i ∈ info.members := by simpa [hk, DeclarationKind.class?] using hi
      simp [DeclarationKind.mentions, hmem]
    | _ => simp [hk, DeclarationKind.class?] at hi

theorem exists_findMember {members : List DeclId} (hm : ∀ i ∈ members, i.index < d.size)
    (name : String) : ∃ r, d.tables.declarations.findMember members name = .ok r ∧
      ∀ i, r = some i → i.index < d.size := by
  have hget : ∀ i ∈ members, ∃ y, (do return (i, ← d.tables.declarations.get i)) =
      (.ok y : Except Fault (DeclId × Declaration)) := by
    intro i hi
    obtain ⟨x, hx⟩ := Declarations.exists_item (hm i hi)
    exact ⟨(i, x), by rw [Declarations.get_eq_ok.2 hx]; rfl⟩
  obtain ⟨known, hknown, hall⟩ := exists_mapM hget
  have hbound : ∀ y ∈ known, y.1.index < d.size := by
    refine forall_of_forall₂ hall fun i hi y hy => ?_
    obtain ⟨x, hx⟩ := Declarations.exists_item (hm i hi)
    rw [Declarations.get_eq_ok.2 hx] at hy
    cases hy
    exact hm i hi
  unfold Declarations.findMember
  rw [hknown]
  refine ⟨_, rfl, fun i hi => ?_⟩
  obtain ⟨rank, _, hr⟩ := List.exists_of_findSome?_eq_some hi
  obtain ⟨y, hy, rfl⟩ := Option.map_eq_some_iff.1 hr
  exact hbound y (List.mem_filter.1 (List.mem_of_find?_eq_some hy)).1

theorem exists_classScopes (h : d.Sound) (hid : id.index < d.size) :
    ∃ scopes, d.tables.classScopes id = .ok scopes := by
  obtain ⟨x, hx⟩ := Declarations.exists_item hid
  have hsuper : ∃ ids : List DeclId, (∀ i ∈ ids, i.index < d.size) ∧ d.tables.classScopes id =
      (do return (← (id :: ids).mapM d.tables.declarations.get).filterMap Declaration.bodyScope) := by
    unfold Tables.classScopes
    rw [Declarations.get_eq_ok.2 hx]
    cases hk : x.kind with
    | cls info =>
      refine ⟨info.superclasses, fun i hi => ?_, by simp [bind, Except.bind, hk, DeclarationKind.class?]⟩
      exact h.mentions _ x hx i (by simp [hk, DeclarationKind.mentions, hi])
    | _ => exact ⟨[], by simp, by simp [bind, Except.bind, hk, DeclarationKind.class?]⟩
  obtain ⟨ids, hids, hscopes⟩ := hsuper
  have hclasses : ∀ i ∈ id :: ids, ∃ y, d.tables.declarations.get i = .ok y := by
    intro i hi
    have hlt : i.index < d.size := by
      rcases List.mem_cons.1 hi with rfl | hi
      · exact hid
      · exact hids i hi
    obtain ⟨y, hy⟩ := Declarations.exists_item hlt
    exact ⟨y, Declarations.get_eq_ok.2 hy⟩
  obtain ⟨classes, hmapM, _⟩ := exists_mapM hclasses
  refine ⟨classes.filterMap Declaration.bodyScope, ?_⟩
  rw [hscopes, hmapM]
  rfl

end Draft.Sound

namespace Program.Drafted

variable {p : Program} {d : Draft} {st : Setting} {role : Role} {node : Node} {e : Expr}
  {c : Composite} {name : String} {t : Attributes} {ty : Ty}

/-- The name of a member selects a declaration of the table, if any. -/
theorem memberDecl_eq (c : Composite) (name : String) (hd : p.Drafted d) {owner : Nominal}
    (h : owner.declaration.index < d.size) :
    ∃ members, d.tables.members c owner.declaration = .ok members ∧
      d.tables.declarations.findMember members name =
        .ok ((d.names p).memberDecl c name (.composite c owner)) ∧
      ∀ i, (d.names p).memberDecl c name (.composite c owner) = some i → i.index < d.size := by
  obtain ⟨members, hmembers, hm⟩ := hd.sound.exists_members h c
  obtain ⟨r, hr, hbound⟩ := Draft.Sound.exists_findMember hm name
  have htables : (d.names p).tables = d.tables := rfl
  have heq : (d.names p).memberDecl c name (.composite c owner) = r := by
    simp [Names.memberDecl, htables, hmembers, hr, Except.toOption]
  exact ⟨members, hmembers, heq ▸ hr, heq ▸ hbound⟩

theorem solution_member (hp : p.Numbered) (hs : ⟨st, .expr role (.member node c e name)⟩ ∈ p.sites) :
    (d.names p).solution (.declOf node.id) =
      (((d.names p).type st.home none e).bind ((d.names p).memberDecl c name)).map
        fun id => .set (.decl id) :=
  solution_site hp hs .decl

/-- The member that a name selects, if its stem has one, has the type of its declaration. -/
theorem conforms_accessMember (hp : p.Numbered) (hd : p.Drafted d)
    (ht : t.Within (d.names p).solution) (hty : ty.Regular d.size)
    (hsol : (d.names p).solution (.typeOf node.id) =
      some (.of .type ((d.names p).memberType c name ty)))
    (hdecl : (d.names p).solution (.declOf node.id) =
      ((d.names p).memberDecl c name ty).map fun id => .set (.decl id)) :
    (Goal.accessMember d.tables node [.typeOf node.id] c name ty).Conforms (d.names p).solution (p.Final d) node
      [.typeOf node.id] false t := by
  unfold Goal.accessMember
  split
  · next component =>
    rw [Names.memberType] at hsol
    split
    · next hname =>
      rw [if_pos hname] at hsol
      exact conforms_give ht hsol
    · next hname =>
      rw [if_neg hname] at hsol
      exact conforms_refuse_one ht hsol rfl
  · next harray =>
    rw [Names.memberType_other harray] at hsol
    have hrefuse : (d.names p).memberDecl c name ty = none → Reaction.Conforms
        (d.names p).solution (p.Final d) node [.typeOf node.id] false
        (withText ty fun text =>
          refuse (.atNode (.invalidMemberTarget c text) node) [.typeOf node.id]) t := by
      intro hnone
      rw [hnone] at hsol
      exact conforms_withText hty fun text => conforms_refuse_one ht hsol rfl
    cases hty with
    | @composite c' owner h =>
      by_cases hc : c = c'
      · subst hc
        simp only [if_true]
        obtain ⟨members, hmembers, hfind, hbound⟩ := memberDecl_eq c name hd h
        refine conforms_attempt hmembers (conforms_attempt hfind ?_)
        cases hid : (d.names p).memberDecl c name (.composite c owner) with
        | none =>
          rw [hid] at hsol
          exact conforms_refuse_one ht hsol rfl
        | some id =>
          rw [hid] at hsol hdecl
          refine conforms_set (conforms_chain
            (final_copy (input_declaration hp hd (hbound id hid)) hsol ?_)
            (conforms_done (ht.set hdecl) (by simp)))
          simp [Attribute.rank, Prod.Lex.toLex_lt_toLex]
      · simp only [if_neg hc]
        exact hrefuse (by simp [Names.memberDecl, hc])
    | _ => exact hrefuse rfl

theorem sound_member (hp : p.Numbered) (hd : p.Drafted d)
    (hs : ⟨st, .expr role (.member node c e name)⟩ ∈ p.sites) :
    p.Sound d (Obligation.rule d.tables ⟨node, .member c e.id name⟩) := by
  obtain ⟨hinput, hlt⟩ := input_part hp hd hs (x := e) (by simp [Site.ofExpr])
  have hsol : (d.names p).solution (.typeOf node.id) = _ := solution_expr hp hs
  have hdecl := solution_member (d := d) hp hs
  rw [Names.typeIn, Names.type] at hsol
  refine hinput.reads.conforms (fun t ty ht hty hget => conforms_readType hget ?_)
    (fun hnone => List.forall_mem_singleton.2 ?_) ?_
  · simp only [hty, Option.bind_eq_bind, Option.bind_some] at hsol hdecl
    exact conforms_accessMember hp hd ht (Names.type_regular e (by simp) hty) hsol hdecl
  · rw [hnone] at hsol
    exact hsol
  · simpa [Goal.outputs] using Attribute.rank_typeOf (m := e.id) (n := node.id) hlt

theorem lt_size_of_decl (hp : p.Numbered) (hd : p.Drafted d) {s : Site} {ref : Reference}
    (hs : s ∈ p.sites) (hr : s.reference? = some ref) {id : DeclId}
    (h : (d.names p).decl ref.node.id = some id) : id.index < d.size := by
  obtain ⟨f, hf, rfl⟩ := Option.map_eq_some_iff.1 h
  rcases bindingAt_eq hp hd hs hr with ⟨f', hf', _, _, hv⟩ | ⟨_, _, _, _, _, hv⟩
  · rw [hf, Option.some.injEq] at hf'
    exact hf' ▸ hv.lt_size
  · exact (hv f hf).lt_size

/-- What can be constructed introduces a type, and its fields are declarations of the table. -/
theorem constructorFields_eq (hp : p.Numbered) (hd : p.Drafted d) {id : DeclId} {x : Declaration}
    (hx : d.tables.declarations.items[id.index]? = some x) {fields : List DeclId}
    (h : Names.constructorFields x.kind c = some fields) :
    (∃ t, d.tables.introduced id = some t) ∧ ∀ i ∈ fields, i.index < d.size := by
  have hmentions := hd.sound.mentions _ x hx
  cases c with
  | struct =>
    cases hk : x.kind with
    | struct fields' =>
      rw [hk] at h
      cases h
      exact ⟨introduced_of_isType hp hd hx (by rw [hk]; rfl), fun i hi => hmentions i (by rwa [hk])⟩
    | _ =>
      rw [hk] at h
      cases h
  | cls =>
    cases hk : x.kind with
    | cls info =>
      rw [hk] at h
      cases h
      exact ⟨introduced_of_isType hp hd hx (by rw [hk]; rfl), by simp⟩
    | _ =>
      rw [hk] at h
      cases h

theorem final_constructed (hp : p.Numbered) (hd : p.Drafted d) {id : DeclId} {fields : List DeclId}
    {t : Ty} (ht : d.tables.introduced id = some t) (hfields : ∀ i ∈ fields, i.index < d.size)
    (hsol : (d.names p).solution (.typeOf node.id) = some (.of .type
      ((fields.mapM (d.names p).declarationType).map (.function t)))) :
    p.Final d ⟨"", .declaredBy id :: fields.map .typeOfDecl, [.typeOf node.id], node,
      Goal.buildConstructor (.declaredBy id :: fields.map .typeOfDecl) [.typeOf node.id]⟩ := by
  refine (input_introduced hp hd ht).reads.conforms₂
    (reads_all rfl fun i hi => input_declaration hp hd (hfields i hi))
    (fun s ty ps hs hty hps hget hgets => ?_) (fun hnone => List.forall_mem_singleton.2 ?_) ?_
  · cases hty
    rw [hps] at hsol
    exact conforms_of_eq (Goal.buildConstructor_eq ..)
      (conforms_readType hget (conforms_readTypes hgets (conforms_give hs hsol)))
  · rcases hnone with hnone | hnone
    · cases hnone
    · rw [hnone] at hsol
      exact hsol
  · simp [Attribute.rank, Prod.Lex.toLex_lt_toLex]

theorem sound_construct (hp : p.Numbered) (hd : p.Drafted d) {ref : Reference}
    (hs : ⟨st, .expr role (.construct node c ref)⟩ ∈ p.sites) :
    p.Sound d (Obligation.rule d.tables ⟨node, .construct c ref.node.id ref.name⟩) := by
  have hsite := (hp.premise hs (c := ⟨st, .reference ref⟩) (by simp [Site.premises, Site.ofExpr])).1
  have hsol : (d.names p).solution (.typeOf node.id) = _ := solution_expr hp hs
  rw [Names.typeIn, Names.type] at hsol
  have htables : (d.names p).tables = d.tables := rfl
  refine (input_decl hp hd hsite rfl).reads.conforms
    (fun t id ht hid hget => conforms_readDecl hget ?_)
    (fun hnone => List.forall_mem_singleton.2 ?_) ?_
  · obtain ⟨x, hx⟩ := Declarations.exists_item (lt_size_of_decl hp hd hsite rfl hid)
    simp only [hid, Option.bind_eq_bind, Option.bind_some, Names.constructorType, htables, hx] at hsol
    have hreact := Goal.constructorType_eq (c := c) (Declarations.get_eq_ok.2 hx) node ref.name
    cases hf : Names.constructorFields x.kind c with
    | none =>
      rw [hf] at hsol hreact
      exact hreact ▸ conforms_refuse_one ht hsol rfl
    | some fields =>
      obtain ⟨⟨ty, hty⟩, hbound⟩ := constructorFields_eq hp hd hx hf
      rw [hf] at hsol hreact
      simp only [hty, Option.bind_some] at hsol
      refine hreact ▸ conforms_chain (final_constructed hp hd hty hbound ?_)
        (conforms_done ht (by simp [Goal.outputs]))
      rw [hsol]
      cases fields.mapM (d.names p).declarationType <;> rfl
  · rw [hnone] at hsol
    exact hsol
  · simp [Goal.outputs, Attribute.rank, Prod.Lex.toLex_lt_toLex]

end Program.Drafted

end ScriptAnalysis
