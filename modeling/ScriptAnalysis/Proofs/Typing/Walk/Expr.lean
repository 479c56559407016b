import ScriptAnalysis.Proofs.Typing.Record

/-!
The walk over written types and expressions. From a draft that is ready for the nodes of an
expression, the walk succeeds and leaves at each of its sites what belongs there: `Walk.walks_expr`. Walks
are put together from those over parts (`Walk.Walks.append`); at the node of a construct `Underway` says how
far it has got.
-/
namespace ScriptAnalysis

open Set (Ico)

namespace Draft

variable {d d' d₁ d₂ : Draft} {V N : Set Nat} {k lo mid hi : Nat} {l : List Site}

/-- The written result type that belongs to the function a scope is part of. -/
def ResultIs (d : Draft) : Option DeclId → Option TypeExpr → Prop
  | none, t => t = none
  | some id, t => ∃ x result, d.tables.declarations.items[id.index]? = some x ∧ t = some result ∧
      x.kind.result? = some result.id

structure At (d : Draft) (st : Setting) (scope : ScopeId) : Prop where
  opens : d.Opens st.home scope
  owner : ∃ r, d.tables.scopes.Finds ScopeTable.owner scope r ∧ d.ResultIs r.join st.result

theorem ResultIs.mono {owner : Option DeclId} {t : Option TypeExpr} (h : d.ResultIs owner t)
    (hd : d.tables.declarations.Extends d'.tables.declarations) : d'.ResultIs owner t := by
  cases owner with
  | none => exact h
  | some id =>
    obtain ⟨x, result, hx, ht, hr⟩ := h
    obtain ⟨x', hx', _, _, hk⟩ := hd _ x hx
    have hr' : x'.kind.result? = x.kind.result? := by
      rw [← DeclarationKind.result?_blank, hk, DeclarationKind.result?_blank]
    exact ⟨x', result, hx', ht, hr'.trans hr⟩

theorem At.mono {st : Setting} {scope : ScopeId} (h : d.At st scope) (g : Grown V N k d d') :
    d'.At st scope := by
  obtain ⟨r, hf, hr⟩ := h.owner
  exact ⟨h.opens.mono g, r, hf.owner_of_extends g.scopes, hr.mono g.declarations⟩

/-- A scope is still where it was once it is recorded at one more node. -/
theorem At.put {n : NodeId} {st : Setting} {scope : ScopeId} (hat : d.At st scope) (hd : d.Sound) :
    (d.put (.scopeOf n) (.scope scope)).At st scope :=
  hat.mono (grown_put (k := 0) (V := ∅) hd (Set.mem_singleton n.index) .scope hat.opens.2)

inductive Expects (d : Draft) : Role → Expectation → Prop
  | free : Expects d .free .free
  | value {b : Binder} {id : DeclId} (h : id ∈ d.tables.declarations.idsAt b.node.id) :
      Expects d (.value b) (.variable id)
  | argument {callee : Expr} {i : Nat} : Expects d (.argument callee i) (.argument callee.id i)

theorem Ready.next (hr : d.Ready (Ico lo hi)) (h : Walked (Ico lo mid) d d₁ l) (hlo : lo ≤ mid)
    {hi' : Nat} (hhi : hi' ≤ hi) : d₁.Ready (Ico mid hi') := by
  refine hr.step h.grown (fun n hn => ?_) (fun m hm n hn => ?_) (fun n hn hm => ?_)
  · simp only [Set.mem_Ico] at hn ⊢
    omega
  · simp only [Set.mem_Ico] at hm hn
    omega
  · simp only [Set.mem_Ico] at hm hn
    omega

theorem Ready.initial (hr : d.Ready (Ico lo hi)) {hi' : Nat} (hhi : hi' ≤ hi) :
    d.Ready (Ico lo hi') :=
  hr.mono (Set.Ico_subset_Ico_right hhi)

structure Steps (d₀ : Draft) (n : NodeId) (e : Entry) (d : Draft) : Prop where
  grown : Grown ∅ {n.index} d₀.size d₀ d
  entry : d.entry n = e

namespace Steps

variable {n : NodeId} {d₀ : Draft} {e e' : Entry}

theorem step (t : d₀.Steps n e d) (g : Grown ∅ {n.index} d₀.size d d') (he : d'.entry n = e') : d₀.Steps n e' d' :=
  ⟨t.grown.trans g, he⟩

theorem owe {n : Node} (t : d₀.Steps n.id e d) (goal : Goal) : d₀.Steps n.id (e.owing ⟨n, goal⟩) (d.owe n goal) :=
  t.step (grown_owe t.grown.sound (Set.mem_singleton _) goal) (by rw [entry_owe, if_pos rfl, t.entry])

theorem put (t : d₀.Steps n e d) (κ : AttributeKind) {v : Value} (hv : InTable d.tables.scopes v) :
    d₀.Steps n (e.put κ (.set v)) (d.put ⟨.node n, κ⟩ v) :=
  t.step (grown_put t.grown.sound (Set.mem_singleton _) κ hv) (by rw [entry_put, if_pos rfl, t.entry])

end Steps

end Draft

namespace Walked

variable {d d₁ d₂ : Draft} {lo mid hi : Nat} {l m : List Site} {s : Site}

theorem nil (h : d.Sound) : Walked (Ico lo hi) d d [] := ⟨.refl h, by simp, fun _ _ _ => rfl⟩

theorem append (h : Walked (Ico lo mid) d d₁ l) (h' : Walked (Ico mid hi) d₁ d₂ m)
    (hl : Ascending lo mid l) (hm : mid ≤ hi) : Walked (Ico lo hi) d d₂ (l ++ m) := by
  refine h.seq h' (fun s hs n hn => ?_) (Set.Ico_subset_Ico_right hm)
    (Set.Ico_subset_Ico_left hl.le) subset_rfl subset_rfl
  have hs := hl.upper hs
  have hn := hn.1
  omega

end Walked

/-- A walk is at a construct. Since the first draft it has walked the sites of the parts, all before a
number, and what the second draft says of the node of the construct is the entry. -/
structure Underway (lo hi : Nat) (n : NodeId) (d₀ : Draft) (l : List Site) (mid : Nat) (e : Entry)
    (d : Draft) : Prop where
  walking : Walking (Ico lo hi) {n.index} d₀ d l
  ready : d.Ready (Ico mid n.index)
  entry : d.entry n = e
  parts : Ascending lo mid l
  le : mid ≤ n.index
  lt : n.index < hi

namespace Underway

variable {lo hi mid mid' : Nat} {n : NodeId} {d₀ d d' : Draft} {l m : List Site} {e e' : Entry}

theorem start (hr : d.Ready (Ico lo hi)) (hlo : lo ≤ n.index) (hhi : n.index < hi) :
    Underway lo hi n d [] lo {} d :=
  ⟨⟨.refl hr.sound, by simp, fun _ _ _ => rfl⟩, hr.initial hhi.le, hr.fresh n ⟨hlo, hhi⟩, Nat.le_refl lo, hlo, hhi⟩

theorem sound (h : Underway lo hi n d₀ l mid e d) : d.Sound := h.walking.grown.sound

/-- Steps at the node of the construct; only behind all parts a variable may be bound. -/
theorem touch {V : Set Nat} (h : Underway lo hi n d₀ l mid e d) (g : Draft.Grown V {n.index} d.size d d')
    (he : d'.entry n = e') (hV : V ⊆ {n.index}) (hm : mid ≤ mid') (hle : mid' ≤ n.index)
    (hlast : ∀ v ∈ V, mid' = n.index) : Underway lo hi n d₀ l mid' e' d' := by
  have hup : ∀ s ∈ l, s.index < n.index := fun s hs => Nat.lt_of_lt_of_le (h.parts.upper hs) h.le
  have hw : Walking (Ico lo hi) {n.index} d₀ d' (l ++ []) := by
    refine h.walking.seq (.of_grown g hV) (fun s hs k hk => ?_) subset_rfl (fun k hk => ?_) subset_rfl subset_rfl
    · exact Set.mem_singleton_iff.1 hk ▸ hup s hs
    · exact Set.mem_singleton_iff.1 hk ▸ ⟨h.parts.le.trans h.le, h.lt⟩
  rw [List.append_nil] at hw
  refine ⟨hw, h.ready.step g (Set.Ico_subset_Ico_left hm) (fun v hv k hk => ?_) (fun k hk hmem => ?_), he,
    h.parts.weaken (Nat.le_refl _) hm, hle, h.lt⟩
  · exact absurd hk.2 (Nat.not_lt.2 (hlast v hv ▸ hk.1))
  · exact absurd hk.2 (Nat.not_lt.2 (Nat.le_of_eq (Set.mem_singleton_iff.1 hmem).symm))

theorem steps (h : Underway lo hi n d₀ l mid e d) : d.Steps n e d := ⟨.refl h.sound, h.entry⟩

theorem step (h : Underway lo hi n d₀ l mid e d) (t : d.Steps n e' d') : Underway lo hi n d₀ l mid e' d' :=
  h.touch t.grown t.entry (Set.empty_subset _) (Nat.le_refl _) h.le (by simp)

theorem aside (h : Underway lo hi n d₀ l mid e d) (g : Draft.Grown ∅ ∅ d.size d d') :
    Underway lo hi n d₀ l mid e d' :=
  h.step ⟨g.weaken subset_rfl (Set.empty_subset _) (Nat.le_refl _), (g.frame n (by simp)).trans h.entry⟩

theorem part (h : Underway lo hi n d₀ l mid e d) (h' : Walked (Ico mid mid') d d' m)
    (hm : Ascending mid mid' m) (hle : mid' ≤ n.index) : Underway lo hi n d₀ (l ++ m) mid' e d' where
  walking := h.walking.seq h' (fun _ hs _ hk => Nat.lt_of_lt_of_le (h.parts.upper hs) hk.1) subset_rfl
    (Set.Ico_subset_Ico h.parts.le (hle.trans h.lt.le)) subset_rfl (Set.empty_subset _)
  ready := h.ready.next h' hm.le (Nat.le_refl _)
  entry := (h'.grown.frame n fun hmem => absurd hmem.2 (Nat.not_lt.2 hle)).trans h.entry
  parts := h.parts.append hm
  le := hle
  lt := h.lt

theorem close {s : Site} (h : Underway lo hi s.id d₀ l mid e d) (hs : s.Leaves d e) :
    Walked (Ico lo hi) d₀ d (l ++ [s]) :=
  h.walking.snoc_entry h.entry hs

end Underway

namespace Walk

open Draft

variable {d : Draft} {lo hi : Nat} {st : Setting} {scope : ScopeId}

/-- A walk over sites succeeds wherever they stand, and leaves at each what belongs there. -/
def Walks (st : Setting) (scope : ScopeId) (m : Walk Unit) (l : List Site) : Prop :=
  ∀ (lo hi : Nat) (d : Draft), Ascending lo hi l → d.Ready (Ico lo hi) → d.At st scope →
    Reaches m d fun _ d' => Walked (Ico lo hi) d d' l

section Walks

variable {m m' : Walk Unit} {l l' : List Site} {s : Site}

theorem walks_nil : Walks st scope (pure ()) [] := fun _ _ _ _ hr _ => reaches_pure (.nil hr.sound)

theorem Walks.append (h : Walks st scope m l) (h' : Walks st scope m' l') :
    Walks st scope (m >>= fun _ => m') (l ++ l') := by
  intro lo hi d ha hr hat
  obtain ⟨mid, hl, hl'⟩ := ha.of_append
  refine (h _ _ _ hl (hr.initial hl'.le) hat).bind fun _ d₁ h₁ => ?_
  refine (h' _ _ _ hl' (hr.next h₁ hl.le (Nat.le_refl _)) (hat.mono h₁.grown)).mono fun _ d₂ h₂ => ?_
  exact h₁.append h₂ hl hl'.le

/-- Two parts, and the construct that they are parts of. -/
theorem Walks.append₂ {k : Walk Unit} (h : Walks st scope m l) (h' : Walks st scope m' l')
    (hk : Walks st scope k [s]) : Walks st scope (m >>= fun _ => m' >>= fun _ => k) (l ++ l' ++ [s]) := by
  rw [List.append_assoc]
  exact h.append (h'.append hk)

/-- Steps at the node of a construct, behind its parts. -/
theorem walks_node (h : ∀ lo hi d, lo ≤ s.index → s.index < hi → d.Ready (Ico lo hi) → d.At st scope →
    d.Steps s.id {} d → Reaches m d fun _ d' => ∃ e, d.Steps s.id e d' ∧ s.Leaves d e) :
    Walks st scope m [s] := by
  intro lo hi d ha hr hat
  have hu := Underway.start hr ha.1 ha.2
  refine (h lo hi d ha.1 ha.2 hr hat hu.steps).mono ?_
  rintro _ d' ⟨e, t, hs⟩
  exact (hu.step t).close (hs.mono t.grown hr.sound (by simp))

/-- Nothing is done at the node of the construct itself. -/
theorem Walks.close_nothing (h : Walks st scope m l) (hs : ∀ d, s.Leaves d {}) : Walks st scope m (l ++ [s]) := by
  intro lo hi d ha hr hat
  obtain ⟨hl, hlt⟩ := ha.of_snoc
  refine (h _ _ _ hl (hr.initial hlt.le) hat).mono fun _ d₁ h₁ => ?_
  exact ((Underway.start hr hl.le hlt).part h₁ hl (Nat.le_refl _)).close (hs d₁)

theorem walks_oblige {goal : Goal}
    (hs : ∀ d, d.At st scope → s.Leaves d (({} : Entry).owing ⟨s.part.node, goal⟩)) :
    Walks st scope (oblige s.part.node goal) [s] :=
  walks_node fun _ _ _ _ _ _ hat t => reaches_oblige ⟨_, t.owe (n := s.part.node) goal, hs _ hat⟩

theorem walks_set {κ : AttributeKind} {v : Value} (hv : ∀ t, InTable t v)
    (hs : ∀ d, s.Leaves d (({} : Entry).put κ (.set v))) :
    Walks st scope (setAttribute ⟨.node s.id, κ⟩ v) [s] :=
  walks_node fun _ _ _ _ _ _ _ t => reaches_setAttribute ⟨_, t.put κ (hv _), hs _⟩

theorem walks_set_oblige {κ : AttributeKind} {v : Value} {goal : Goal} (hv : ∀ t, InTable t v)
    (hs : ∀ d, s.Leaves d ((({} : Entry).put κ (.set v)).owing ⟨s.part.node, goal⟩)) :
    Walks st scope (do setAttribute ⟨.node s.id, κ⟩ v; oblige s.part.node goal) [s] :=
  walks_node fun _ _ _ _ _ _ _ t => reaches_bind (reaches_setAttribute
    (reaches_oblige ⟨_, (t.put κ (hv _)).owe (n := s.part.node) goal, hs _⟩))

end Walks

theorem walks_typeExpr (t : TypeExpr) : Walks st scope (typeExpr scope t) (t.sites st) := by
  induction t with
  | name node text =>
    exact walks_oblige (s := ⟨st, .written (.name node text)⟩) fun _ hat => .typeName hat.opens
  | container node c component ih =>
    exact ih.append (walks_oblige (s := ⟨st, .written (.container node c component)⟩) fun _ _ => .containerType)

theorem walks_typeExprs (types : List TypeExpr) :
    Walks st scope (types.forM (typeExpr scope)) (TypeExpr.sitesAll st types) := by
  induction types with
  | nil => exact walks_nil
  | cons t rest ih => exact (walks_typeExpr t).append ih

/-- A reference is resolved at once, or left for later if nothing binds its name yet. -/
theorem walks_reference (ref : Reference) {s : Site} (hs : s.id = ref.node.id)
    (hleaves : ∀ d e, ref.Leaves d st e → s.Leaves d e) : Walks st scope (reference scope ref) [s] := by
  refine walks_node fun lo hi d hlo hhi hr hat t => ?_
  rw [hs] at t ⊢
  refine reaches_bind (reaches_lookup hr.sound.rooted hat.opens.2 fun r hf => ?_)
  cases r with
  | none =>
    refine reaches_oblige ⟨_, t.owe _, hleaves _ _ (.late hat.opens fun f hf' => ?_)⟩
    cases hf.unique hf'
  | some found =>
    obtain ⟨b, hb, hmem⟩ := ScopeTable.mem_of_finds hf rfl
    have t₁ := t.put .decl (v := .decl found.declaration) trivial
    refine reaches_bind (reaches_setAttribute (reaches_bind (reaches_setAttribute (reaches_oblige
      ⟨_, (t₁.put .scope (v := .scope found.scope) (ScopeTable.lt_size_of_getElem? hb)).owe _, hleaves _ _ ?_⟩))))
    refine .early hat.opens (ScopeTable.visible_of_finds hf) ?_
    refine (hr.before _ b hb _ hmem).mono (.refl _) fun m hm => ?_
    have hlt := hm s.index ⟨hlo, hhi⟩
    rwa [Site.index, hs] at hlt

/-- An empty literal takes its type from what is expected of it. -/
theorem reaches_emptyLiteral {role : Role} {x : Expectation} (node : Node) (c : Container)
    (ha : Ascending lo hi [⟨st, .expr role (.literal node c [])⟩]) (hr : d.Ready (Ico lo hi))
    (hx : d.Expects role x) :
    Reaches (emptyLiteral node c x) d fun _ d' =>
      Walked (Ico lo hi) d d' [⟨st, .expr role (.literal node c [])⟩] := by
  have h : Underway lo hi node.id d [] lo {} d := .start hr ha.1 ha.2
  cases hx with
  | free =>
    have t : d.Steps node.id _ (d.refuse (.atNode (.uninferableLiteral c.word) node) ⟨.node node.id, .type⟩) :=
      ⟨grown_refuse hr.sound rfl rfl rfl (Set.mem_singleton _) .type, by
        rw [entry_refuse d rfl rfl, if_pos rfl, h.entry]⟩
    exact reaches_bind (reaches_report (reaches_failAttribute
      ((h.step t).close (s := ⟨st, .expr .free (.literal node c [])⟩) (.expr rfl .emptyFree))))
  | value hid =>
    exact reaches_oblige ((h.step (h.steps.owe _)).close (s := ⟨st, .expr (.value _) (.literal node c [])⟩)
      (.expr rfl (.emptyValue hid)))
  | argument =>
    exact reaches_oblige ((h.step (h.steps.owe _)).close (s := ⟨st, .expr (.argument _ _) (.literal node c [])⟩)
      (.expr rfl .emptyArgument))

theorem walks_binary {role : Role} (hrole : role.isCondition = false) (node : Node) (op : BinaryOp)
    (left right : Expr) :
    Walks st scope (binary node op left right) [⟨st, .expr role (.binary node op left right)⟩] := by
  unfold binary
  split
  · next hop =>
    exact walks_oblige (s := ⟨st, .expr role (.binary node op left right)⟩) fun _ _ => .expr hrole (.arithmetic hop)
  · next hop =>
    exact walks_set_oblige (s := ⟨st, .expr role (.binary node op left right)⟩) (fun _ => trivial)
      fun _ => .expr hrole (.equality hop)
  · next hop =>
    exact walks_set_oblige (s := ⟨st, .expr role (.binary node op left right)⟩) (fun _ => trivial)
      fun _ => .expr hrole (.comparison hop)
  · next hop =>
    exact walks_set_oblige (s := ⟨st, .expr role (.binary node op left right)⟩) (fun _ => trivial)
      fun _ => .expr hrole (.logic hop)

mutual

/-- The walk over an expression. What is expected matters for an empty literal only. -/
theorem walks_expr : ∀ (e : Expr) {role : Role} {x : Expectation}, role.isCondition = false →
    (∀ d : Draft, (∃ node c, e = .literal node c []) → d.Expects role x) →
    Walks st scope (expr reference scope x e) (e.sites st role)
  | .int node value, role, _, hr, _ =>
    walks_set (s := ⟨st, .expr role (.int node value)⟩) (fun _ => trivial) fun _ => .expr hr .int
  | .float node value, role, _, hr, _ =>
    walks_set (s := ⟨st, .expr role (.float node value)⟩) (fun _ => trivial) fun _ => .expr hr .float
  | .string node value, role, _, hr, _ =>
    walks_set (s := ⟨st, .expr role (.string node value)⟩) (fun _ => trivial) fun _ => .expr hr .string
  | .symbol ref, role, _, hr, _ =>
    walks_reference ref (s := ⟨st, .expr role (.symbol ref)⟩) rfl fun _ _ h => .expr hr (.symbol h)
  | .paren node inner, role, _, hr, _ =>
    (walks_expr inner rfl fun _ _ => .free).append
      (walks_oblige (s := ⟨st, .expr role (.paren node inner)⟩) fun _ _ => .expr hr .paren)
  | .literal node c [], _, _, _, hx => fun lo hi d ha hr hat => reaches_emptyLiteral node c ha hr (hx d ⟨node, c, rfl⟩)
  | .literal node c (first :: rest), role, _, hr, _ =>
    (walks_exprs (first :: rest)).append
      (walks_oblige (s := ⟨st, .expr role (.literal node c (first :: rest))⟩) fun _ _ => .expr hr .literal)
  | .not node operand, role, _, hr, _ =>
    (walks_expr operand rfl fun _ _ => .free).append
      (walks_set_oblige (s := ⟨st, .expr role (.not node operand)⟩) (fun _ => trivial) fun _ => .expr hr .not)
  | .binary node op left right, role, _, hr, _ =>
    (walks_expr left rfl fun _ _ => .free).append₂ (walks_expr right rfl fun _ _ => .free)
      (walks_binary hr node op left right)
  | .assign node target value, role, _, hr, _ =>
    (walks_expr target rfl fun _ _ => .free).append₂ (walks_expr value rfl fun _ _ => .free)
      (walks_oblige (s := ⟨st, .expr role (.assign node target value)⟩) fun _ _ => .expr hr .assign)
  | .index node base position, role, _, hr, _ =>
    (walks_expr base rfl fun _ _ => .free).append₂ (walks_expr position rfl fun _ _ => .free)
      (walks_oblige (s := ⟨st, .expr role (.index node base position)⟩) fun _ _ => .expr hr .index)
  | .call node callee arguments, role, _, hr, _ =>
    (walks_expr callee rfl fun _ _ => .free).append₂ (walks_exprArguments callee 0 arguments)
      (walks_oblige (s := ⟨st, .expr role (.call node callee arguments)⟩) fun _ _ => .expr hr .call)
  | .templateCall node callee types arguments, role, _, hr, _ => by
    have hall := (walks_expr callee rfl fun _ _ => .free).append ((walks_typeExprs types).append₂
      (walks_exprArguments callee 0 arguments) (walks_oblige
        (s := ⟨st, .expr role (.templateCall node callee types arguments)⟩) fun _ _ => .expr hr .templateCall))
    simp only [← List.append_assoc] at hall
    exact hall
  | .member node c stem name, role, _, hr, _ =>
    (walks_expr stem rfl fun _ _ => .free).append
      (walks_oblige (s := ⟨st, .expr role (.member node c stem name)⟩) fun _ _ => .expr hr .member)
  | .construct node c ref, role, _, hr, _ =>
    (walks_reference ref (s := ⟨st, .reference ref⟩) rfl fun _ _ => .reference).append
      (walks_oblige (s := ⟨st, .expr role (.construct node c ref)⟩) fun _ _ => .expr hr .construct)

theorem walks_exprs : ∀ es : List Expr, Walks st scope (exprs reference scope es) (Expr.sitesAll st es)
  | [] => walks_nil
  | e :: rest => (walks_expr e rfl fun _ _ => .free).append (walks_exprs rest)

theorem walks_exprArguments (callee : Expr) : ∀ (i : Nat) (es : List Expr),
    Walks st scope (exprArguments reference scope callee.id i es) (Expr.sitesArguments st callee i es)
  | _, [] => walks_nil
  | i, e :: rest => (walks_expr e rfl fun _ _ => .argument).append (walks_exprArguments callee (i + 1) rest)

end

theorem walks_free (e : Expr) : Walks st scope (expr reference scope .free e) (e.sites st .free) :=
  walks_expr e rfl fun _ _ => .free

theorem reaches_value {b : Binder} {id : DeclId} (e : Expr) (ha : Ascending lo hi (e.sites st (.value b)))
    (hr : d.Ready (Ico lo hi)) (hat : d.At st scope) (hid : id ∈ d.tables.declarations.idsAt b.node.id) :
    Reaches (expr reference scope (.variable id) e) d fun _ d' =>
      Walked (Ico lo hi) d d' (e.sites st (.value b)) := by
  by_cases he : ∃ node c, e = .literal node c []
  · obtain ⟨node, c, rfl⟩ := he
    exact reaches_emptyLiteral node c ha hr (.value hid)
  · exact walks_expr e rfl (fun _ h => absurd h he) lo hi d ha hr hat

end Walk

end ScriptAnalysis
