import ScriptAnalysis.Proofs.Tree.Order
import ScriptAnalysis.Proofs.Typing.Walk.Later

/-!
The moment a walk comes to a reference. A walk can be broken off there (`Walk.breakOff`), and the draft it
is broken off in is what is known at that moment. The whole walk comes through the same draft and only adds
to it (`Walk.Breaks`).
-/
namespace ScriptAnalysis

namespace Walk

variable {α β : Type} {l l' : List Site} {d d' : Draft}

/-- Does the same as `reference`, but for the reference at a node in a scope: there the walk is broken
off. -/
def breakOff (n : NodeId) (scope : ScopeId) (f : Fault) : Resolver := fun here ref =>
  if ref.node.id = n ∧ here = scope then throw f else reference here ref

structure Meeting (n : NodeId) (l : List Site) (broken : ScopeId → Fault → Walk α) (d d' : Draft)
    (ref : Reference) (scope : ScopeId) (d₀ : Draft) : Prop where
  site : ∃ s ∈ l, s.reference? = some ref
  node : ref.node.id = n
  breaks : ∀ f, broken scope f d = .error f d₀
  fresh : (∀ s ∈ l, s.id = n → s.reference?.isSome = true) → ∀ κ, AttributeKind.isBinding κ = true →
    d₀.attributes.slot? ⟨.node n, κ⟩ = d.attributes.slot? ⟨.node n, κ⟩
  resolves : ∃ d₁, reference scope ref d₀ = .ok () d₁ ∧ d₁.Later l d'

theorem Meeting.mono {n : NodeId} {broken : ScopeId → Fault → Walk α} {ref : Reference}
    {scope : ScopeId} {d₀ : Draft} (h : Meeting n l broken d d' ref scope d₀) (hl : l ⊆ l') :
    Meeting n l' broken d d' ref scope d₀ where
  site := by
    obtain ⟨s, hs, hr⟩ := h.site
    exact ⟨s, hl hs, hr⟩
  node := h.node
  breaks := h.breaks
  fresh hrefs := h.fresh fun s hs => hrefs s (hl hs)
  resolves := by
    obtain ⟨d₁, hd₁, hlater⟩ := h.resolves
    exact ⟨d₁, hd₁, hlater.mono hl⟩

def Avoids (n : NodeId) (l : List Site) : Prop :=
  ∀ s ∈ l, ∀ ref, s.reference? = some ref → ref.node.id ≠ n

theorem Avoids.id_ne {n : NodeId} (h : Avoids n l)
    (hrefs : ∀ s ∈ l, s.id = n → s.reference?.isSome = true) : ∀ s ∈ l, s.id ≠ n := by
  intro s hs hid
  obtain ⟨ref, hr⟩ := Option.isSome_iff_exists.1 (hrefs s hs hid)
  exact h s hs ref hr ((Site.id_of_reference? hr).symm.trans hid)

/-- A walk over sites, and the same walk broken off at a node: either no reference is there, and the two
are the same, or the second ends where the first comes to it. -/
structure Breaks (n : NodeId) (l : List Site) (m : Walk α) (broken : ScopeId → Fault → Walk α) :
    Prop where
  adds : Adds l m
  meets : ∀ d a d', m d = .ok a d' →
    Avoids n l ∧ (∀ scope f, broken scope f d = .ok a d') ∨
      ∃ ref scope d₀, Meeting n l broken d d' ref scope d₀

section Breaks

variable {n : NodeId} {l₁ l₂ : List Site} {m : Walk α} {k : α → Walk β}
  {broken : ScopeId → Fault → Walk α} {after : ScopeId → Fault → α → Walk β}

theorem Breaks.subset (h : Breaks n l m broken) (hl : l ⊆ l')
    (hnew : ∀ s ∈ l', s ∈ l ∨ s.reference? = none) : Breaks n l' m broken where
  adds := h.adds.mono hl
  meets d a d' hm := by
    rcases h.meets d a d' hm with ⟨havoids, hsame⟩ | ⟨ref, scope, d₀, hmeet⟩
    · refine .inl ⟨fun s hs ref hr => ?_, hsame⟩
      rcases hnew s hs with hs | hnone
      · exact havoids s hs ref hr
      · rw [hnone] at hr
        cases hr
    · exact .inr ⟨ref, scope, d₀, hmeet.mono hl⟩

theorem Breaks.close (h : Breaks n l m broken) {s : Site} (hs : s.reference? = none) :
    Breaks n (l ++ [s]) m broken := by
  refine h.subset (List.subset_append_left _ _) fun t ht => ?_
  rcases List.mem_append.1 ht with ht | ht
  · exact .inl ht
  · rw [List.mem_singleton.1 ht]
    exact .inr hs

/-- A walk without references cannot be broken off. -/
theorem Does.breaks (h : Does (Change.Allowed l) m) (hl : ∀ s ∈ l, s.reference? = none) :
    Breaks n l m fun _ _ => m := by
  refine ⟨h, fun d a d' hm => .inl ⟨fun s hs ref hr => ?_, fun _ _ => hm⟩⟩
  rw [hl s hs] at hr
  cases hr

theorem Does.breaksAt {s : Site} (h : Does (Change.Allowed [s]) m) (hs : s.reference? = none) :
    Breaks n [s] m fun _ _ => m :=
  h.breaks fun _ ht => List.mem_singleton.1 ht ▸ hs

theorem bind_of_ok {d₁ : Draft} {a : α} (h : m d = .ok a d₁) : (m >>= k) d = k a d₁ := by
  show EStateM.bind m k d = _
  simp [EStateM.bind, h]

theorem bind_of_error {d₁ : Draft} {f : Fault} (h : m d = .error f d₁) :
    (m >>= k) d = .error f d₁ := by
  show EStateM.bind m k d = _
  simp [EStateM.bind, h]

theorem Breaks.bind (hm : Breaks n l₁ m broken)
    (hk : ∀ a, Breaks n l₂ (k a) fun scope f => after scope f a) :
    Breaks n (l₁ ++ l₂) (m >>= k) fun scope f => broken scope f >>= after scope f := by
  have hleft : l₁ ⊆ l₁ ++ l₂ := List.subset_append_left _ _
  have hright : l₂ ⊆ l₁ ++ l₂ := List.subset_append_right _ _
  refine ⟨(hm.adds.mono hleft).bind fun a => (hk a).adds.mono hright, fun d b d' h => ?_⟩
  obtain ⟨a, d₂, h₁, h₂⟩ := bind_eq_ok.1 h
  rcases hm.meets d a d₂ h₁ with ⟨havoids, hsame⟩ | ⟨ref, scope, d₀, hmeet⟩
  · rcases (hk a).meets d₂ b d' h₂ with ⟨havoids', hsame'⟩ | ⟨ref, scope, d₀, hmeet⟩
    · refine .inl ⟨fun s hs => ?_, fun scope f => ?_⟩
      · rcases List.mem_append.1 hs with hs | hs
        · exact havoids s hs
        · exact havoids' s hs
      · exact (bind_of_ok (hsame scope f)).trans (hsame' scope f)
    · have hmeet' := hmeet.mono hright
      refine .inr ⟨ref, scope, d₀, { hmeet' with
        breaks := fun f => (bind_of_ok (hsame scope f)).trans (hmeet.breaks f)
        fresh := fun hrefs κ hκ => ?_ }⟩
      have hbefore := (hm.adds.later h₁).bindings n κ hκ fun s hs hid =>
        havoids.id_ne (fun s hs => hrefs s (hleft hs)) s hs hid
      exact (hmeet'.fresh hrefs κ hκ).trans hbefore
  · have hmeet' := hmeet.mono hleft
    obtain ⟨d₁, hd₁, hlater⟩ := hmeet'.resolves
    exact .inr ⟨ref, scope, d₀, { hmeet' with
      breaks := fun f => bind_of_error (hmeet.breaks f)
      resolves := ⟨d₁, hd₁, hlater.trans (((hk a).adds.mono hright).later h₂)⟩ }⟩

/-- Steps after a walk that has no references in them. -/
theorem Breaks.then (hm : Breaks n l m broken) (hk : ∀ a, Adds [] (k a)) :
    Breaks n l (m >>= k) fun scope f => broken scope f >>= k := by
  have h := hm.bind fun a => (hk a).breaks (n := n) (by simp)
  rwa [List.append_nil] at h

/-- Steps before a walk that have no references in them. -/
theorem Does.then (hm : Does (Change.Allowed []) m) (hk : ∀ a, Breaks n l (k a) fun scope f => after scope f a) :
    Breaks n l (m >>= k) fun scope f => m >>= after scope f :=
  (hm.breaks (by simp)).bind hk

theorem breaks_reference {s : Site} {ref : Reference} (hs : s.reference? = some ref) (scope : ScopeId) :
    Breaks n [s] (reference scope ref) fun here f => breakOff n here f scope ref := by
  have hmem : s ∈ [s] := List.mem_singleton_self s
  refine ⟨adds_reference scope hmem hs, fun d a d' h => ?_⟩
  by_cases hn : ref.node.id = n
  · have hbreak : ∀ f, breakOff n scope f scope ref = throw f := fun f => if_pos ⟨hn, rfl⟩
    exact .inr ⟨ref, scope, d, ⟨s, hmem, hs⟩, hn, fun f => congrFun (hbreak f) d, fun _ _ _ => rfl,
      d', h, .refl d'⟩
  · have hsame : ∀ here f, breakOff n here f scope ref = reference scope ref := fun here f =>
      if_neg fun hboth => hn hboth.1
    refine .inl ⟨fun t ht ref' hr => ?_, fun here f => (congrFun (hsame here f) d).trans h⟩
    rw [List.mem_singleton.1 ht, hs] at hr
    cases hr
    exact hn

end Breaks

section Trees

variable {n : NodeId} {st : Setting}

theorem reference?_written {s : Site} {t : TypeExpr} (h : s ∈ t.sites st) : s.reference? = none := by
  induction t with
  | name node text =>
    rw [List.mem_singleton.1 h]
    rfl
  | container node c component ih =>
    rcases List.mem_append.1 h with h | h
    · exact ih h
    · rw [List.mem_singleton.1 h]
      rfl

mutual

theorem breaks_expr : ∀ (e : Expr) (role : Role) (scope : ScopeId) (x : Expectation),
    Breaks n (e.sites st role) (expr reference scope x e)
      fun here f => expr (breakOff n here f) scope x e
  | .int _ _, _, _, _ | .float _ _, _, _, _ | .string _ _, _, _, _ =>
    ((adds_setAttribute _ _ rfl).breaks (by simp)).close (l := []) rfl
  | .symbol ref, role, scope, _ => breaks_reference (s := ⟨st, .expr role (.symbol ref)⟩) rfl scope
  | .paren _ inner, _, scope, _ =>
    ((breaks_expr inner .free scope .free).then fun _ => adds_oblige _ _).close rfl
  | .literal node c [], role, _, x => by
    have hs : (⟨st, .expr role (.literal node c [])⟩ : Site) ∈
        (Expr.literal node c []).sites st role := Expr.mem_sites _ _ _
    exact (adds_emptyLiteral hs rfl c rfl x).breaks
      (by simp [Expr.sites, Expr.within, Expr.sitesAll, Site.reference?])
  | .literal _ _ (first :: rest), _, scope, _ =>
    ((breaks_exprs (first :: rest) scope).then fun _ => adds_oblige _ _).close rfl
  | .not _ operand, _, scope, _ =>
    ((breaks_expr operand .free scope .free).then fun _ =>
      (adds_setAttribute _ _ rfl).bind fun _ => adds_oblige _ _).close rfl
  | .binary node op left right, _, scope, _ =>
    ((breaks_expr left .free scope .free).bind fun _ => (breaks_expr right .free scope .free).then
      fun _ => does_binary Change.quiet_le_allowed node op left right).close rfl
  | .assign _ target value, _, scope, _ =>
    ((breaks_expr target .free scope .free).bind fun _ => (breaks_expr value .free scope .free).then
      fun _ => adds_oblige _ _).close rfl
  | .index _ base position, _, scope, _ =>
    ((breaks_expr base .free scope .free).bind fun _ => (breaks_expr position .free scope .free).then
      fun _ => adds_oblige _ _).close rfl
  | .call _ callee arguments, _, scope, _ =>
    ((breaks_expr callee .free scope .free).bind fun _ =>
      (breaks_exprArguments callee 0 arguments scope).then fun _ => adds_oblige _ _).close rfl
  | .templateCall _ callee types arguments, _, scope, _ => by
    refine Breaks.subset (l := callee.sites st .free ++ Expr.sitesArguments st callee 0 arguments)
      ((breaks_expr callee .free scope .free).bind fun _ =>
        (does_forM (does_typeExpr Change.quiet_le_allowed scope) types).then fun _ =>
        (breaks_exprArguments callee 0 arguments scope).then fun _ => adds_oblige _ _)
      (fun s hs => ?_) (fun s hs => ?_)
    · simp only [Expr.sites, Expr.within, List.mem_append] at hs ⊢
      tauto
    · simp only [Expr.sites, Expr.within, List.mem_append, List.mem_singleton] at hs ⊢
      rcases hs with ((hs | hs) | hs) | rfl
      · exact .inl (.inl hs)
      · obtain ⟨t, _, hs⟩ := List.mem_flatMap.1 hs
        exact .inr (reference?_written hs)
      · exact .inl (.inr hs)
      · exact .inr rfl
  | .member _ _ stem _, _, scope, _ =>
    ((breaks_expr stem .free scope .free).then fun _ => adds_oblige _ _).close rfl
  | .construct _ _ ref, _, scope, _ =>
    ((breaks_reference (s := ⟨st, .reference ref⟩) rfl scope).then fun _ => adds_oblige _ _).close rfl

theorem breaks_exprs : ∀ (es : List Expr) (scope : ScopeId),
    Breaks n (Expr.sitesAll st es) (exprs reference scope es)
      fun here f => exprs (breakOff n here f) scope es
  | [], _ => (does_pure ()).breaks (l := []) (by simp)
  | e :: rest, scope => (breaks_expr e .free scope .free).bind fun _ => breaks_exprs rest scope

theorem breaks_exprArguments (callee : Expr) : ∀ (i : Nat) (es : List Expr) (scope : ScopeId),
    Breaks n (Expr.sitesArguments st callee i es) (exprArguments reference scope callee.id i es)
      fun here f => exprArguments (breakOff n here f) scope callee.id i es
  | _, [], _ => (does_pure ()).breaks (l := []) (by simp)
  | i, e :: rest, scope =>
    (breaks_expr e (.argument callee i) scope (.argument callee.id i)).bind fun _ =>
      breaks_exprArguments callee (i + 1) rest scope

end

theorem reference?_binders {s : Site} {sort : BinderSort} {bs : List Binder}
    (h : s ∈ Binder.sitesAll st sort bs) : s.reference? = none := by
  obtain ⟨b, _, h⟩ := List.mem_flatMap.1 h
  rcases List.mem_append.1 h with h | h
  · exact reference?_written h
  · rw [List.mem_singleton.1 h]
    rfl

/-- The walk comes to a declaration before what it encloses; in the tree it stands behind that. -/
theorem Breaks.enclosed {m : Walk α} {broken : ScopeId → Fault → Walk α} {own inner : Site}
    {l l' : List Site} (h : Breaks n ([own] ++ ([inner] ++ l')) m broken)
    (hl : ∀ s ∈ l, s.reference? = none) : Breaks n (l ++ l' ++ [inner] ++ [own]) m broken := by
  refine h.subset (fun s hs => ?_) fun s hs => ?_
  · simp only [List.mem_append] at hs ⊢
    tauto
  · have hs' := hl s
    simp only [List.mem_append] at hs ⊢
    tauto

theorem breaks_condition (e : Expr) (statement : String) (scope : ScopeId) :
    Breaks n (e.sites st (.condition statement)) (condition reference scope e statement)
      fun here f => condition (breakOff n here f) scope e statement :=
  (breaks_expr e (.condition statement) scope .free).then fun _ => adds_oblige _ _

theorem breaks_ret (node : Node) (value : Option Expr) (scope : ScopeId) :
    Breaks n ((Stmt.ret node value).sites st) (ret reference scope node value)
      fun here f => ret (breakOff n here f) scope node value := by
  have howed : Adds [] (oweResult scope node value) := does_oweResult Change.quiet_le_allowed scope node value
  cases value with
  | none => exact ((adds_setAttribute _ _ rfl).then fun _ => howed.breaks (by simp)).close (l := []) rfl
  | some e =>
    exact ((adds_setAttribute _ _ rfl).then fun _ =>
      (breaks_expr e .free scope .free).then fun _ => howed).close rfl

mutual

theorem breaks_stmt : ∀ (x : Stmt) (st : Setting) (scope : ScopeId),
    Breaks n (x.sites st) (stmt reference scope x) fun here f => stmt (breakOff n here f) scope x
  | .block node body, st, scope => by
    have hself := List.mem_singleton_self (⟨st, .stmt (.block node body)⟩ : Site)
    refine Breaks.subset ((does_openScope trivial).then fun inner =>
      ((adds_enterBlock inner hself rfl).breaksAt rfl).bind fun _ =>
      (breaks_stmts body ⟨node.id, st.result⟩ inner).then fun _ => does_leaveBlock Change.quiet_le_allowed node body)
      (fun s hs => ?_) (fun s hs => ?_)
    · simp only [Stmt.sites, List.mem_append] at hs ⊢
      exact hs.symm
    · simp only [Stmt.sites, List.mem_append] at hs ⊢
      exact .inl hs.symm
  | .variable b value, st, scope => by
    refine Breaks.subset (l := value.sites st (.value b))
      ((does_typeExpr Change.quiet_le_allowed scope b.type).then fun _ => (does_declare trivial).then fun id =>
        (breaks_expr value (.value b) scope (.variable id)).then fun _ =>
        (does_bindName trivial).bind fun _ => (adds_oblige _ _).bind fun _ => adds_oblige _ _)
      (fun s hs => ?_) (fun s hs => ?_)
    · simp [Stmt.sites, hs]
    · simp only [Stmt.sites, List.mem_append, List.mem_singleton] at hs
      rcases hs with (hs | hs) | rfl
      · exact .inr (reference?_written hs)
      · exact .inl hs
      · exact .inr rfl
  | .field b, st, scope => by
    refine Breaks.subset (l := []) (((does_field Change.plain_le_allowed scope b true).bind fun _ => does_pure ()).breaks
      (by simp)) (by simp) (fun s hs => ?_)
    rcases List.mem_append.1 hs with hs | hs
    · exact .inr (reference?_written hs)
    · rw [List.mem_singleton.1 hs]
      exact .inr rfl
  | .function node head inner body, st, scope => by
    have hself := List.mem_singleton_self (⟨st, .stmt (.function node head inner body)⟩ : Site)
    have hbody := List.mem_singleton_self (⟨head.setting node, .body inner body⟩ : Site)
    exact Breaks.enclosed (((adds_functionHead scope hself rfl head).breaksAt rfl).bind fun i =>
      ((adds_enterBlock i hbody rfl).breaksAt rfl).bind fun _ =>
      (breaks_stmts body (head.setting node) i).then fun _ =>
      (does_leaveBlock Change.quiet_le_allowed inner body).bind fun _ => adds_oblige _ _)
      fun s hs => (List.mem_append.1 hs).elim reference?_binders reference?_written
  | .struct node name fields, st, scope => by
    refine Breaks.subset (l := []) ((does_struct Change.plain_le_allowed scope node name fields).breaks (by simp)) (by simp)
      (fun s hs => ?_)
    rcases List.mem_append.1 hs with hs | hs
    · exact .inr (reference?_binders hs)
    · rw [List.mem_singleton.1 hs]
      exact .inr rfl
  | .cls node head inner body, st, scope => by
    have hself := List.mem_singleton_self (⟨st, .stmt (.cls node head inner body)⟩ : Site)
    have hbody := List.mem_singleton_self (⟨⟨node.id, none⟩, .body inner body⟩ : Site)
    exact Breaks.enclosed (l := [])
      (((adds_classHead scope hself (Site.finds_class st inner body) rfl head).breaksAt rfl).bind fun c =>
      ((adds_enterBlock c.scope hbody rfl).breaksAt rfl).bind fun _ =>
      (breaks_stmts body ⟨node.id, none⟩ c.scope).then fun _ =>
      (does_leaveBlock Change.quiet_le_allowed inner body).bind fun _ => does_classMembers Change.plain_le_allowed c body)
      (by simp)
  | .template node head inner body, st, scope => by
    have hself := List.mem_singleton_self (⟨st, .stmt (.template node head inner body)⟩ : Site)
    have hbody := List.mem_singleton_self (⟨head.setting node, .body inner body⟩ : Site)
    exact Breaks.enclosed (((adds_templateHead scope hself rfl head).breaksAt rfl).bind fun i =>
      ((adds_enterBlock i hbody rfl).breaksAt rfl).bind fun _ =>
      (breaks_stmts body (head.setting node) i).then fun _ =>
      (does_leaveBlock Change.quiet_le_allowed inner body).bind fun _ => adds_oblige _ _) fun s hs =>
      (List.mem_append.1 hs).elim
        (fun hs => (List.mem_append.1 hs).elim reference?_binders reference?_binders) reference?_written
  | .ifThen _ e thenBody, st, scope =>
    ((breaks_condition e "If" scope).bind fun _ =>
      (breaks_stmt thenBody st scope).then fun _ => adds_setAttribute _ _ rfl).close rfl
  | .ifElse node e thenBody elseBody, st, scope => by
    have hlast : Adds [] (if thenBody.isReturnContainer && elseBody.isReturnContainer then
        oblige node (.branchesReturn thenBody.id elseBody.id)
      else setAttribute (.returnsOf node.id) (.flag false)) := by
      split
      · exact adds_oblige _ _
      · exact adds_setAttribute _ _ rfl
    have hwalk : Breaks n (e.sites st (.condition "If") ++ (thenBody.sites st ++ elseBody.sites st))
        (stmt reference scope (.ifElse node e thenBody elseBody))
        fun here f => stmt (breakOff n here f) scope (.ifElse node e thenBody elseBody) :=
      (breaks_condition e "If" scope).bind fun _ => (breaks_stmt thenBody st scope).bind fun _ =>
        (breaks_stmt elseBody st scope).then fun _ => hlast
    rw [← List.append_assoc] at hwalk
    exact hwalk.close rfl
  | .loop _ e body, st, scope =>
    ((breaks_condition e "While" scope).bind fun _ => breaks_stmt body st scope).close rfl
  | .ret node value, _, scope => breaks_ret node value scope
  | .action _ e, st, scope => (breaks_expr e .free scope .free).close rfl

theorem breaks_stmts : ∀ (body : List Stmt) (st : Setting) (scope : ScopeId),
    Breaks n (Stmt.sitesAll st body) (stmts reference scope body)
      fun here f => stmts (breakOff n here f) scope body
  | [], _, _ => (does_pure ()).breaks (l := []) (by simp)
  | x :: rest, st, scope => (breaks_stmt x st scope).bind fun _ => breaks_stmts rest st scope

end

end Trees

end Walk

namespace Program

variable {p : Program}

/-- The walk over a program from the start, with what is done at its names. -/
def walk (p : Program) (resolve : Walk.Resolver) : Walk Unit := do
  Builtin.declareAll
  Walk.programWith resolve p

/-- The walk over a program comes to the reference at a node in a scope, and the draft is then the given
one. -/
def Meets (p : Program) (n : NodeId) (scope : ScopeId) (d₀ : Draft) : Prop :=
  ∀ f, p.walk (Walk.breakOff n scope f) {} = .error f d₀

theorem walk_of_after {d : Draft} (h : Draft.after (p.walk Walk.reference) = .ok d) :
    p.walk Walk.reference {} = .ok () d := by
  unfold Draft.after at h
  split at h
  · next hwalk =>
    cases h
    exact hwalk
  · cases h

/-- The draft in which the walk comes to the statements of a program. -/
theorem exists_start {d : Draft} (h : p.walk Walk.reference {} = .ok () d) :
    ∃ start, (∀ resolve, p.walk resolve {} = Walk.stmts resolve ScopeTable.root p.body start) ∧
      start.diagnostics = [] ∧
      ∀ n κ, AttributeKind.isBinding κ = true → n ≠ p.node.id →
        start.attributes.slot? ⟨.node n, κ⟩ = none := by
  obtain ⟨_, first, hfirst, _⟩ := Walk.bind_eq_ok.1 h
  have hlater : Draft.Later [] {} first := Walk.Adds.later (Walk.does_declareAll Change.plain_le_allowed) hfirst
  refine ⟨first.put (.scopeOf p.node.id) (.scope ScopeTable.root), fun resolve => ?_, ?_,
    fun n κ hκ hn => ?_⟩
  · exact (Walk.bind_of_ok hfirst).trans (Walk.bind_of_ok rfl)
  · rw [List.eq_nil_iff_forall_not_mem]
    intro x hx
    rcases hlater.told x hx with hx | ⟨s, hs, _⟩
    · cases hx
    · cases hs
  · have hnone := hlater.bindings n κ hκ (by simp)
    have hne : (Attribute.scopeOf p.node.id) ≠ ⟨.node n, κ⟩ := by
      rintro he
      cases he
      exact hn rfl
    rw [Draft.put, Attributes.slot?_set, if_neg hne, hnone]
    exact Attributes.slot?_empty _

/-- The walk over a program comes to each of its references, of which nothing is said yet, resolves it as
things stand, and goes on. -/
theorem exists_meets (hp : p.Numbered) {d : Draft} {s : Site} {ref : Reference}
    (h : Draft.after (p.walk Walk.reference) = .ok d) (hs : s ∈ p.sites)
    (hr : s.reference? = some ref) :
    ∃ scope d₀ d₁, p.Meets ref.node.id scope d₀ ∧
      (∀ κ, AttributeKind.isBinding κ = true → d₀.attributes.slot? ⟨.node ref.node.id, κ⟩ = none) ∧
      Walk.reference scope ref d₀ = .ok () d₁ ∧ d₁.Later p.sites d := by
  have hwalk := walk_of_after h
  have hid := Site.id_of_reference? hr
  obtain ⟨start, hstart, _, hfresh⟩ := exists_start hwalk
  rw [hstart] at hwalk
  rcases (Walk.breaks_stmts p.body p.setting ScopeTable.root).meets _ _ _ hwalk with
    ⟨havoids, _⟩ | ⟨ref', scope, d₀, hmeet⟩
  · exact absurd rfl (havoids s hs ref hr)
  · have honly : ∀ s' ∈ p.sites, s'.id = ref.node.id → s' = s := fun s' hs' hid' =>
      hp.eq_of_id hs' hs (hid'.trans hid.symm)
    obtain ⟨s', hs', hr'⟩ := hmeet.site
    obtain rfl := honly s' hs' ((Site.id_of_reference? hr').trans hmeet.node)
    obtain rfl : ref' = ref := Option.some.inj (hr'.symm.trans hr)
    obtain ⟨d₁, hd₁, hlater⟩ := hmeet.resolves
    refine ⟨scope, d₀, d₁, fun f => (hstart _).trans (hmeet.breaks f), fun κ hκ => ?_, hd₁, hlater⟩
    refine (hmeet.fresh (fun s' hs' hid' => ?_) κ hκ).trans (hfresh _ _ hκ ?_)
    · rw [honly s' hs' hid', hr]
      rfl
    · exact hid ▸ hp.id_ne hs

/-- What the walk over a program tells is about its literals and its classes. -/
theorem found_of_walk {d : Draft} (h : Draft.after (p.walk Walk.reference) = .ok d) {x : Diagnostic}
    (hx : x ∈ d.diagnostics) : ∃ s ∈ p.sites, s.finds x.cause = true ∧ x.node = some s.id := by
  have hwalk := walk_of_after h
  obtain ⟨start, hstart, hnil, _⟩ := exists_start hwalk
  rw [hstart] at hwalk
  have hadds := (Walk.breaks_stmts (n := p.node.id) p.body p.setting ScopeTable.root).adds
  rcases (hadds.later hwalk).told x hx with hx | hx
  · rw [hnil] at hx
    cases hx
  · exact hx

theorem told_of_walk {d : Draft} (h : Draft.after (p.walk Walk.reference) = .ok d) {x : Diagnostic}
    (hx : x ∈ d.diagnostics) : ∃ s ∈ p.sites, s.reference? = none ∧ x.node = some s.id :=
  let ⟨s, hs, hfinds, hx⟩ := found_of_walk h hx
  ⟨s, hs, (Site.early_of_finds hfinds).2, hx⟩

end Program

end ScriptAnalysis
