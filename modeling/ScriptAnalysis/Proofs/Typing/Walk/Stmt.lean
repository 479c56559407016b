import ScriptAnalysis.Proofs.Typing.Walk.Head

/-!
The walk over statements: from a draft that is ready for the nodes of a statement, it succeeds and
leaves at each site what belongs there (`Walk.walks_stmt`).
-/
namespace ScriptAnalysis

open Set (Ico)

namespace Walk

open Draft

variable {d : Draft} {lo hi : Nat} {st : Setting} {scope : ScopeId}

theorem reaches_setMembers {id : DeclId} {own members : List DeclId} (hd : d.Sound)
    (hid : id.index < d.size) (hown : ∀ i ∈ own, i.index < d.size)
    (hmembers : ∀ i ∈ members, i.index < d.size) :
    Reaches (setMembers id own members) d fun _ d' => ∀ k, Grown ∅ ∅ k d d' := by
  refine reaches_modifyDeclaration hid fun declarations hc k => ?_
  refine grown_withDeclarations hd hc (fun x => ?_) (fun x => ?_) (fun x _ => ?_) fun x hx i hi => ?_
  · split <;> rfl
  · split <;> rfl
  · split
    · next info hk => rw [hk]; rfl
    · rfl
  · have hold := hd.mentions _ x hx
    split at hi
    · next info hk =>
      rw [hk] at hold
      simp only [DeclarationKind.mentions, List.mem_append] at hi hold
      rcases hi with (hi | hi) | hi
      · exact hown i hi
      · exact hmembers i hi
      · exact hold i (.inr hi)
    · exact hold i hi

theorem reaches_ownMembers {id : DeclId} (hd : d.Sound) (hid : id.index < d.size) :
    Reaches (ownMembers id) d fun ids d' => d' = d ∧ ∀ i ∈ ids, i.index < d.size := by
  obtain ⟨x, hx⟩ := Declarations.exists_item hid
  refine reaches_bind (reaches_declaration hx (reaches_pure ⟨rfl, fun i hi => hd.mentions _ x hx i ?_⟩))
  cases hk : x.kind <;> simp_all [DeclarationKind.class?, DeclarationKind.mentions]

theorem reaches_inherited (ids : List DeclId) (hd : d.Sound) (hids : ∀ i ∈ ids, i.index < d.size) :
    Reaches (ids.mapM ownMembers) d fun found d' =>
      d' = d ∧ ∀ i ∈ found.flatten, i.index < d.size := by
  induction ids with
  | nil => exact reaches_pure ⟨rfl, by simp⟩
  | cons id rest ih =>
    rw [List.mapM_cons]
    refine (reaches_ownMembers hd (hids id (by simp))).bind ?_
    rintro own d₁ ⟨h₁, hown⟩
    subst h₁
    refine (ih fun i hi => hids i (List.mem_cons_of_mem _ hi)).bind ?_
    rintro found d₂ ⟨h₂, hfound⟩
    subst h₂
    refine reaches_pure ⟨rfl, fun i hi => ?_⟩
    rw [List.flatten_cons] at hi
    rcases List.mem_append.1 hi with hi | hi
    · exact hown i hi
    · exact hfound i hi

theorem reaches_classMembers (c : OpenClass) (body : List Stmt) (hd : d.Sound)
    (hc : ∀ id ∈ c.written :: c.effective :: c.superclasses, id.index < d.size) :
    Reaches (classMembers c body) d fun _ d' => ∀ k, Grown ∅ ∅ k d d' := by
  refine reaches_bind (reaches_get ?_)
  refine (reaches_inherited c.superclasses hd fun i hi => hc i (by simp [hi])).bind ?_
  rintro found d₁ ⟨h₁, hfound⟩
  subst h₁
  have hown : ∀ i ∈ (body.filter Stmt.isMember).filterMap
      (d₁.tables.declarations.forNode? ·.id), i.index < d₁.size := by
    intro i hi
    obtain ⟨s, _, hs⟩ := List.mem_filterMap.1 hi
    rw [Declarations.forNode?_eq] at hs
    obtain ⟨x, hx, _⟩ := Declarations.mem_idsAt.1 (List.mem_of_getLast? hs)
    exact Declarations.lt_size_of_getElem? hx
  refine (reaches_setMembers hd (hc _ (by simp)) hown hown).bind fun _ d₂ g₂ => ?_
  have hle := (g₂ 0).size_le
  have hown₂ := fun i hi => Nat.lt_of_lt_of_le (hown i hi) hle
  refine (reaches_setMembers (g₂ 0).sound (Nat.lt_of_lt_of_le (hc _ (by simp)) hle) hown₂
    fun i hi => ?_).mono fun _ d₃ g₃ k => (g₂ k).trans (g₃ k)
  rcases List.mem_append.1 hi with hi | hi
  · exact hown₂ i hi
  · exact Nat.lt_of_lt_of_le (hfound i hi) hle

theorem walks_condition (e : Expr) (statement : String) :
    Walks st scope (condition reference scope e statement) (e.sites st (.condition statement)) := by
  intro lo hi d ha hr hat
  obtain ⟨hl, hlt⟩ := Ascending.of_snoc ha
  have hfree : Ascending lo hi (e.sites st .free) := .snoc (s := ⟨st, .expr .free e⟩) hl hlt
  refine (walks_free e _ _ _ hfree hr hat).bind fun _ d₁ h₁ => reaches_oblige ?_
  have hu : Underway lo hi e.id d (e.within st) e.id.index (d₁.entry e.id) d₁ := by
    refine ⟨⟨h₁.grown, fun s hs => h₁.leaves s (List.mem_append_left _ hs), fun n hn hs => ?_⟩,
      (hr.next h₁ (hl.le.trans hlt.le) hlt.le).mono (by simp), rfl, hl, Nat.le_refl _, hlt⟩
    refine h₁.only n (by simp) fun s hm => ?_
    rcases List.mem_append.1 hm with hm | hm
    · exact hs s hm
    · rw [List.mem_singleton.1 hm]
      exact fun he => hn (Set.mem_singleton_iff.2 (congrArg NodeId.index he.symm))
  have t := hu.steps.owe (n := e.node) (.condition statement)
  refine (hu.step t).close (s := ⟨st, .expr (.condition statement) e⟩) ?_
  cases h₁.leaves ⟨st, .expr .free e⟩ (e.mem_sites st .free) with
  | expr _ h => exact .condition (h.mono t.grown h₁.grown.sound (by simp))

private def owedReturn (scope : ScopeId) (node : Node) (value : Option Expr) : Walk Unit := do
  match ← check ((← get).tables.scopes.enclosingFunction scope) with
  | none => return
  | some function =>
    match (← declaration function).kind.result?, value with
    | some result, some e => oblige node (.valueReturn result e.node)
    | some result, none => oblige node (.emptyReturn result)
    | none, _ => return

private theorem reaches_owedReturn {d₀ : Draft} {mid : Nat} {l : List Site} (node : Node) (value : Option Expr)
    (h : Underway lo hi node.id d₀ l mid (({} : Entry).put .returns (.set (.flag true))) d) (hat : d.At st scope) :
    Reaches (owedReturn scope node value) d fun _ =>
      Underway lo hi node.id d₀ l mid (.ofReturn st node value) := by
  obtain ⟨r, hf, hresult⟩ := hat.owner
  refine reaches_bind (reaches_get (reaches_bind
    (reaches_check (ScopeTable.enclosingFunction_eq h.sound.rooted hat.opens.2 hf) ?_)))
  unfold Entry.ofReturn
  cases hr : r.join with
  | none =>
    have hnone : st.result = none := by rwa [hr] at hresult
    rw [hnone]
    exact reaches_pure h
  | some function =>
    rw [hr] at hresult
    obtain ⟨y, result, hy, hst, hkind⟩ := hresult
    refine reaches_bind (reaches_declaration hy ?_)
    rw [hkind, hst]
    cases value with
    | none => exact reaches_oblige (h.step (h.steps.owe _))
    | some e => exact reaches_oblige (h.step (h.steps.owe _))

theorem walks_ret (node : Node) (value : Option Expr) :
    Walks st scope (ret reference scope node value) ((Stmt.ret node value).sites st) := by
  intro lo hi d ha hr hat
  have h : Underway lo hi node.id d [] lo {} d :=
    .start hr (ha.lower (Stmt.mem_sites st (.ret node value))) (ha.upper (Stmt.mem_sites st (.ret node value)))
  refine reaches_bind (reaches_setAttribute ?_)
  have t := h.steps.put .returns (v := .flag true) trivial
  have h₁ := h.step t
  cases value with
  | none =>
    exact (reaches_owedReturn node none h₁ (hat.mono t.grown)).mono fun _ _ h₂ =>
      h₂.close (s := ⟨st, .stmt (.ret node none)⟩) (.stmt .ret)
  | some e =>
    obtain ⟨hv, _⟩ := Ascending.of_snoc ha
    refine (walks_free e _ _ _ hv h₁.ready (hat.mono t.grown)).bind fun _ d₂ w₂ => ?_
    exact (reaches_owedReturn node (some e) (h₁.part w₂ hv (Nat.le_refl _))
      ((hat.mono t.grown).mono w₂.grown)).mono fun _ _ h₃ =>
      h₃.close (s := ⟨st, .stmt (.ret node (some e))⟩) (.stmt .ret)

private def inBlock (inner : ScopeId) (node : Node) (body : List Stmt) : Walk Unit := do
  enterBlock inner node
  stmts reference inner body
  leaveBlock node body

/-- A walk succeeds over statements wherever they stand. -/
def WalksAll (body : List Stmt) : Prop :=
  ∀ (st : Setting) (scope : ScopeId), Walks st scope (stmts reference scope body) (Stmt.sitesAll st body)

private theorem reaches_inBlock (node : Node) {body : List Stmt} (hbody : WalksAll body) {part : Part} {st' : Setting}
    {inner : ScopeId} (hs : part.node = node)
    (ha : Ascending lo hi (Stmt.sitesAll st body ++ [⟨st', part⟩])) (hr : d.Ready (Ico lo hi))
    (hat : (d.put (.scopeOf node.id) (.scope inner)).At st inner)
    (hleaves : ∀ d', Site.Leaves d' ⟨st', part⟩ (.ofBlock inner node body)) :
    Reaches (inBlock inner node body) d fun _ d' =>
      Walked (Ico lo hi) d d' (Stmt.sitesAll st body ++ [⟨st', part⟩]) := by
  subst hs
  obtain ⟨hl, hlt⟩ := ha.of_snoc
  have h : Underway lo hi part.node.id d [] lo {} d := .start hr hl.le hlt
  refine reaches_bind (reaches_setAttribute ?_)
  have h₁ := h.step (h.steps.put .scope (v := .scope inner) hat.opens.2)
  refine (hbody _ _ _ _ _ hl h₁.ready hat).bind fun _ d₂ w₂ => ?_
  exact (reaches_leaveBlock part.node body (h₁.part w₂ hl (Nat.le_refl _))).mono fun _ d₃ h₃ =>
    h₃.close (s := ⟨st', part⟩) (hleaves d₃)

private theorem reaches_inBlock_then {β : Type} {inner : ScopeId} {node : Node} {body : List Stmt}
    {R : Unit → Draft → Prop} {next : Walk β} {Q : β → Draft → Prop}
    (h : Reaches (inBlock inner node body) d R) (hnext : ∀ d', R () d' → Reaches next d' Q) :
    Reaches (do
      enterBlock inner node
      stmts reference inner body
      leaveBlock node body
      next) d Q := by
  have hbind := h.bind (f := fun _ => next) fun _ => hnext
  simpa only [inBlock, bind_assoc] using hbind

/-- The body of a function or template behind its head, and the end: it is owed that it returns. -/
private theorem Headed.reaches_body {mid : Nat} {d₁ : Draft} {inner : Node} {name : String}
    {kind : DeclarationKind} {goal : DeclId → Goal} {sites : List Site} {i : ScopeId} {body : List Stmt}
    {st' : Setting} {x : Stmt} {owed : Goal}
    (h : Headed lo mid hi d st' x.node name kind goal sites i d₁) (hwalks : WalksAll body)
    (ha : Ascending mid x.node.id.index (Stmt.sitesAll st' body ++ [⟨st', .body inner body⟩]))
    (hleaves : ∀ id, d₁.Introduces x.node.id name kind none none id → x.Leaves d₁ st (((({} : Entry).declaring id).put
      .scope (.set (.scope i))).owing ⟨x.node, goal id⟩ |>.owing ⟨x.node, owed⟩)) :
    Reaches (do
      enterBlock i inner
      stmts reference i body
      leaveBlock inner body
      oblige x.node owed) d₁ fun _ d' => Walked (Ico lo hi) d d'
        (sites ++ Stmt.sitesAll st' body ++ [⟨st', .body inner body⟩] ++ [⟨st, .stmt x⟩]) := by
  obtain ⟨id, own, hu⟩ := h.own
  refine reaches_inBlock_then (reaches_inBlock inner hwalks rfl ha hu.ready (h.setting.put hu.sound)
    fun _ => .body) fun d₂ w₂ => reaches_oblige ?_
  have h₂ := hu.part w₂ ha (Nat.le_refl _)
  have t := h₂.steps.owe owed
  rw [List.append_assoc sites]
  exact (h₂.step t).close (s := ⟨st, .stmt x⟩) (.stmt (((hleaves id own).mono w₂.grown).mono t.grown))

mutual

theorem walks_stmt : ∀ (x : Stmt) {st : Setting} {scope : ScopeId},
    Walks st scope (stmt reference scope x) (x.sites st)
  | .block node body, st, scope => by
    intro lo hi d ha hr hat
    obtain ⟨hl, hlt⟩ := Ascending.of_snoc ha
    refine reaches_bind (reaches_openScope ?_)
    have g : Grown ∅ ∅ d.size d (d.opening scope .block) := grown_opening hr.sound hat.opens.2 (by simp)
    have hr₁ := hr.step (M := Ico lo hi) g subset_rfl (by simp) (by simp)
    obtain ⟨r, hf, hresult⟩ := hat.owner
    have hat₁ : ((d.opening scope .block).put (.scopeOf node.id) (.scope ⟨d.tables.scopes.size⟩)).At
        ⟨node.id, st.result⟩ ⟨d.tables.scopes.size⟩ :=
      ⟨opens_put (congrArg (·.slots .scope) (hr₁.fresh node.id ⟨hl.le, hlt⟩)) (lt_size_opening scope _), r, finds_owner_opening hf,
        hresult.mono g.declarations⟩
    refine (reaches_inBlock node (walks_stmts body) rfl ha hr₁ hat₁ fun _ => .stmt .block).mono fun _ d₂ h₂ => ?_
    have w₁ : Walked (Ico lo hi) d (d.opening scope .block) [] :=
      (Walking.of_grown g (Set.empty_subset _)).weaken (Set.empty_subset _) subset_rfl
    exact w₁.seq h₂ (by simp) subset_rfl subset_rfl subset_rfl subset_rfl
  | .variable b value, _, _ => walks_variableDecl b value
  | .field b, st, _ => fun _ _ _ ha hr hat => (reaches_field b true (s := ⟨st, .stmt (.field b)⟩) rfl ha hr hat
      fun _ _ h => .stmt (.field h)).bind fun _ _ h => reaches_pure h.1
  | .struct node name fields, _, _ => walks_struct node name fields
  | .ret node value, _, _ => walks_ret node value
  | .function node head inner body, st, scope => by
    intro lo hi d ha hr hat
    obtain ⟨hparts, hlt⟩ := Ascending.of_snoc ha
    rw [List.append_assoc] at hparts
    obtain ⟨mid, hhead, hbody⟩ := hparts.of_append
    refine (reaches_functionHead node head hhead hbody.le hlt hr hat).bind fun i d₁ h₁ => ?_
    exact Headed.reaches_body (x := .function node head inner body) h₁ (walks_stmts body) hbody
      fun _ own => .function own
  | .template node head inner body, st, scope => by
    intro lo hi d ha hr hat
    obtain ⟨hparts, hlt⟩ := Ascending.of_snoc ha
    rw [List.append_assoc] at hparts
    obtain ⟨mid, hhead, hbody⟩ := hparts.of_append
    refine (reaches_templateHead node head hhead hbody.le hlt hr hat).bind ?_
    rintro i d₁ ⟨ids, hids, h₁⟩
    exact Headed.reaches_body (x := .template node head inner body) h₁ (walks_stmts body) hbody
      fun _ own => .template own hids
  | .cls node head inner body, st, scope => by
    intro lo hi d ha hr hat
    obtain ⟨hbody, hlt⟩ := Ascending.of_snoc ha
    have h : Underway lo hi node.id d [] lo {} d := .start hr hbody.le hlt
    refine (reaches_classHead node head h.steps hat.opens.2).bind fun c d₁ h₁ => ?_
    have hu := h.step ⟨h₁.grown, rfl⟩
    refine reaches_inBlock_then (reaches_inBlock inner (walks_stmts body) rfl hbody hu.ready
      (h₁.setting.put h₁.grown.sound) fun _ => .body) fun d₂ w₂ => ?_
    refine (reaches_classMembers c body w₂.grown.sound fun id hid =>
      Nat.lt_of_lt_of_le (h₁.range id hid) w₂.grown.size_le).mono fun _ d₃ g₃ => ?_
    exact ((hu.part w₂ hbody (Nat.le_refl _)).aside (g₃ _)).close (s := ⟨st, .stmt (.cls node head inner body)⟩)
      (.stmt (((h₁.leaves st inner body).mono w₂.grown).mono (g₃ _)))
  | .ifThen node e thenBody, st, _ => (walks_condition e "If").append₂ (walks_stmt thenBody)
      (walks_set (s := ⟨st, .stmt (.ifThen node e thenBody)⟩) (fun _ => trivial) fun _ => .stmt .ifThen)
  | .ifElse node e thenBody elseBody, st, scope => by
    simp only [Stmt.sites, List.append_assoc]
    refine (walks_condition e "If").append ((walks_stmt thenBody).append ((walks_stmt elseBody).append
      (walks_node fun _ _ d _ _ _ _ t => ?_)))
    have hleaves : Site.Leaves d ⟨st, .stmt (.ifElse node e thenBody elseBody)⟩ _ := .stmt .ifElse
    unfold Entry.ofBranches at hleaves
    split
    · next hc => exact reaches_oblige ⟨_, t.owe _, by rwa [if_pos hc] at hleaves⟩
    · next hc => exact reaches_setAttribute ⟨_, t.put _ trivial, by rwa [if_neg hc] at hleaves⟩
  | .loop node e body, st, _ => ((walks_condition e "While").append (walks_stmt body)).close_nothing
      (s := ⟨st, .stmt (.loop node e body)⟩) fun _ => .stmt .loop
  | .action node e, st, _ => (walks_free e).close_nothing (s := ⟨st, .stmt (.action node e)⟩) fun _ => .stmt .action

theorem walks_stmts : ∀ (body : List Stmt), WalksAll body
  | [] => fun _ _ => walks_nil
  | x :: rest => fun st scope => (walks_stmt x).append (walks_stmts rest st scope)

end

end Walk

end ScriptAnalysis
