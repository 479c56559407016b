import ScriptAnalysis.Proofs.Table.Growth

/-!
Looking names up in every table that can be built. A table is built by opening scopes below scopes that
are there and by binding names in them; the list of these events says what each scope binds and which
scope it was opened below. A lookup follows that list (`ScopeTable.lookup_events`): it always ends, it
finds what was bound last in the first scope that binds the name, and one more binding shows only where
it is the first.
-/
namespace ScriptAnalysis.ScopeTable

inductive Event where
  | push (parent : ScopeId) (kind : ScopeKind)
  | declare (scope : ScopeId) (name : String) (declaration : DeclId)

def Event.parent? : Event → Option ScopeId
  | .push parent _ => some parent
  | .declare .. => none

def Event.bound? (scope : ScopeId) (name : String) : Event → Option DeclId
  | .push .. => none
  | .declare scope' name' declaration =>
    if scope' = scope ∧ name' = name then some declaration else none

/-- The table after events in the order of the list, each about scopes that are there at its time. -/
inductive Built : List Event → ScopeTable → Prop
  | initial : Built [] .initial
  | push {log : List Event} {t : ScopeTable} (parent : ScopeId) (kind : ScopeKind) (h : Built log t)
    (hparent : parent.index < t.size) : Built (log ++ [.push parent kind]) (t.push parent kind).1
  | declare {log : List Event} {t u : ScopeTable} {scope : ScopeId} {name : String} {d : DeclId}
    (h : Built log t) (hscope : scope.index < t.size) (hu : t.declare scope name d = .ok u) :
    Built (log ++ [.declare scope name d]) u

def parents (log : List Event) : List ScopeId := log.filterMap Event.parent?

/-- The scope that a scope was opened below. Scopes have their numbers in the order they were opened, and
the root was not opened. -/
def parentIn (log : List Event) (id : ScopeId) : Option ScopeId :=
  match id.index with
  | 0 => none
  | i + 1 => (parents log)[i]?

/-- The declaration that was last bound to a name in a scope. -/
def latest? (log : List Event) (scope : ScopeId) (name : String) : Option DeclId :=
  (log.filterMap (Event.bound? scope name)).getLast?

inductive Chain (log : List Event) : ScopeId → List ScopeId → Prop
  | root {id : ScopeId} (h : parentIn log id = none) : Chain log id [id]
  | up {id p : ScopeId} {chain : List ScopeId} (h : parentIn log id = some p)
    (hchain : Chain log p chain) : Chain log id (id :: chain)

/-- A scope is on a chain, and none in front of it binds the name. -/
def Unshadowed (log : List Event) (chain : List ScopeId) (scope : ScopeId) (name : String) : Prop :=
  ∃ before after, chain = before ++ scope :: after ∧ ∀ b ∈ before, latest? log b name = none

def bindingIn (log : List Event) (name : String) (scope : ScopeId) : Option Binding :=
  (latest? log scope name).map (⟨·, scope⟩)

variable {log : List Event} {t u : ScopeTable} {id scope : ScopeId} {name : String} {d : DeclId}
  {chain : List ScopeId}

theorem latest?_push (parent : ScopeId) (kind : ScopeKind) :
    latest? (log ++ [.push parent kind]) scope name = latest? log scope name := by
  simp [latest?, Event.bound?]

theorem latest?_declare (scope' : ScopeId) (name' : String) :
    latest? (log ++ [.declare scope name d]) scope' name' =
      if scope = scope' ∧ name = name' then some d else latest? log scope' name' := by
  by_cases h : scope = scope' ∧ name = name' <;> simp [latest?, Event.bound?, h]

theorem parents_push (parent : ScopeId) (kind : ScopeKind) :
    parents (log ++ [.push parent kind]) = parents log ++ [parent] :=
  List.filterMap_append

theorem parents_declare : parents (log ++ [.declare scope name d]) = parents log :=
  List.filterMap_append.trans (List.append_nil _)

theorem parentIn_declare : parentIn (log ++ [.declare scope name d]) id = parentIn log id := by
  rw [parentIn, parents_declare]
  rfl

theorem chain_declare : Chain (log ++ [.declare scope name d]) id chain ↔ Chain log id chain := by
  constructor
  · intro h
    induction h with
    | root h => exact .root (parentIn_declare.symm.trans h)
    | up h _ ih => exact .up (parentIn_declare.symm.trans h) ih
  · intro h
    induction h with
    | root h => exact .root (parentIn_declare.trans h)
    | up h _ ih => exact .up (parentIn_declare.trans h) ih

structure Follows (t : ScopeTable) (log : List Event) : Prop where
  rooted : t.Rooted
  size : t.size = (parents log).length + 1
  parent : ∀ id s, t.scopes[id.index]? = some s → s.parent = parentIn log id
  bound : ∀ id s, t.scopes[id.index]? = some s → ∀ name, s.get? name = latest? log id name
  inside : ∀ id name d, latest? log id name = some d → id.index < t.size

theorem follows_initial : Follows .initial [] := by
  have hroot : ∀ i s, initial.scopes[i]? = some s → i = 0 ∧ s = { parent := none, kind := .root } := by
    intro i s hs
    obtain ⟨hi, rfl⟩ := Array.getElem?_eq_some_iff.1 hs
    obtain rfl : i = 0 := Nat.lt_one_iff.1 hi
    exact ⟨rfl, rfl⟩
  refine ⟨⟨by decide, fun i s hs p hp => ?_⟩, rfl, fun id s hs => ?_, fun id s hs name => ?_, nofun⟩
  · rw [(hroot i s hs).2] at hp
    cases hp
  · obtain ⟨hi, rfl⟩ := hroot _ s hs
    rw [parentIn, hi]
  · rw [(hroot _ s hs).2]
    rfl

theorem Follows.push (h : Follows t log) {parent : ScopeId} (hparent : parent.index < t.size)
    (kind : ScopeKind) : Follows (t.push parent kind).1 (log ++ [.push parent kind]) where
  rooted := h.rooted.push hparent kind
  size := by
    have := h.size
    simp_all [ScopeTable.push, ScopeTable.size, parents_push]
  parent id s hs := by
    have hsize := h.size
    obtain ⟨i⟩ := id
    rcases mem_scopes_push hs with hold | ⟨hi, rfl⟩
    · have hlt : i < t.size := lt_size_of_getElem? hold
      rw [h.parent ⟨i⟩ s hold]
      cases i with
      | zero => rfl
      | succ i =>
        have hi : i < (parents log).length := by omega
        simp [parentIn, parents_push, List.getElem?_append_left hi]
    · obtain rfl : i = _ := hi.trans hsize
      simp [parentIn, parents_push]
  bound id s hs name := by
    rw [latest?_push]
    rcases mem_scopes_push hs with hold | ⟨hi, rfl⟩
    · exact h.bound id s hold name
    · cases hlatest : latest? log id name with
      | none => rfl
      | some d =>
        have := h.inside id name d hlatest
        omega
  inside id name d hd := by
    rw [latest?_push] at hd
    have := h.inside id name d hd
    simp only [ScopeTable.push, ScopeTable.size, Array.size_push] at this ⊢
    omega

theorem Follows.binds (h : Follows t log) (hbinds : t.Binds scope name d u) :
    Follows u (log ++ [.declare scope name d]) where
  rooted := hbinds.rooted h.rooted
  size := by
    obtain ⟨_, _, hsize, _⟩ := hbinds
    rw [hsize, h.size, parents_declare]
  parent id s hs := by
    obtain ⟨s₀, hs₀, _, hu⟩ := hbinds
    rw [parentIn_declare]
    rw [hu] at hs
    split at hs
    · next hi =>
      cases hs
      exact h.parent id s₀ (hi ▸ hs₀)
    · exact h.parent id s hs
  bound id s hs name' := by
    obtain ⟨s₀, hs₀, _, hu⟩ := hbinds
    obtain ⟨i⟩ := id
    obtain ⟨j⟩ := scope
    rw [latest?_declare]
    rw [hu] at hs
    by_cases hi : i = j
    · subst hi
      rw [if_pos rfl] at hs
      cases hs
      rw [← h.bound ⟨i⟩ s₀ hs₀, Scope.get?, List.lookup_cons]
      by_cases hname : name = name'
      · simp [hname]
      · simp [hname, beq_eq_false_iff_ne.2 (Ne.symm hname), Scope.get?]
    · rw [if_neg hi] at hs
      rw [if_neg (by simp [Ne.symm hi]), h.bound ⟨i⟩ s hs]
  inside id name' d' hd := by
    obtain ⟨s₀, hs₀, hsize, _⟩ := hbinds
    rw [latest?_declare] at hd
    rw [hsize]
    split at hd
    · next heq => exact heq.1 ▸ lt_size_of_getElem? hs₀
    · exact h.inside id name' d' hd

theorem Built.follows (h : Built log t) : Follows t log := by
  induction h with
  | initial => exact follows_initial
  | push parent kind _ hparent ih => exact ih.push hparent kind
  | @declare log t u scope name d _ hscope hu ih =>
    obtain ⟨u', hu', hbinds⟩ := declare_eq_ok hscope name d
    obtain rfl : u' = u := Except.ok.inj (hu'.symm.trans hu)
    exact ih.binds hbinds

/-- The chain from a scope outwards ends, since parents are older than their children. -/
theorem Follows.exists_chain (h : Follows t log) (hid : id.index < t.size) :
    ∃ chain, Chain log id chain := by
  obtain ⟨i⟩ := id
  induction i using Nat.strongRecOn with
  | ind i ih =>
    obtain ⟨s, hs⟩ := exists_scope hid
    have hparent := h.parent ⟨i⟩ s hs
    cases hp : parentIn log ⟨i⟩ with
    | none => exact ⟨_, .root hp⟩
    | some p =>
      have hlt := h.rooted.2 i s hs p (hparent.trans hp)
      obtain ⟨chain, hchain⟩ := ih p.index hlt (Nat.lt_trans hlt hid)
      exact ⟨_, .up hp hchain⟩

theorem Follows.binds_eq (h : Follows t log) {s : Scope} (hs : t.scopes[id.index]? = some s)
    (name : String) : ScopeTable.binds name id s = bindingIn log name id := by
  rw [ScopeTable.binds, h.bound id s hs]
  rfl

theorem Follows.lookup_eq (h : Follows t log) (hid : id.index < t.size) (hchain : Chain log id chain)
    (name : String) : t.lookup id name = .ok (chain.findSome? (bindingIn log name)) := by
  have hfinds : Finds t (ScopeTable.binds name) id (chain.findSome? (bindingIn log name)) := by
    induction hchain with
    | @root id hroot =>
      obtain ⟨s, hs⟩ := exists_scope hid
      rw [List.findSome?_cons, List.findSome?_nil, ← h.binds_eq hs]
      cases hv : ScopeTable.binds name id s with
      | some f => exact .here hs hv
      | none => exact .top hs hv ((h.parent id s hs).trans hroot)
    | @up id p chain hp _ ih =>
      obtain ⟨s, hs⟩ := exists_scope hid
      have hparent := (h.parent id s hs).trans hp
      have hlt := h.rooted.2 _ s hs p hparent
      rw [List.findSome?_cons, ← h.binds_eq hs]
      cases hv : ScopeTable.binds name id s with
      | some f => exact .here hs hv
      | none => exact .up hs hv hparent (ih (Nat.lt_trans hlt hid))
  exact (search_eq_iff h.rooted hid).2 hfinds

theorem findSome?_bindingIn (f : Binding) :
    chain.findSome? (bindingIn log name) = some f ↔
      Unshadowed log chain f.scope name ∧ latest? log f.scope name = some f.declaration := by
  rw [List.findSome?_eq_some_iff]
  constructor
  · rintro ⟨before, g, after, rfl, hg, hbefore⟩
    obtain ⟨d, hd, rfl⟩ := Option.map_eq_some_iff.1 hg
    exact ⟨⟨before, after, rfl, fun b hb => Option.map_eq_none_iff.1 (hbefore b hb)⟩, hd⟩
  · rintro ⟨⟨before, after, rfl, hbefore⟩, hd⟩
    refine ⟨before, f.scope, after, rfl, by simp [bindingIn, hd], fun b hb => ?_⟩
    simp [bindingIn, hbefore b hb]

theorem unshadowed_cons {b : ScopeId} (hb : b ≠ scope) :
    Unshadowed log (b :: chain) scope name ↔
      latest? log b name = none ∧ Unshadowed log chain scope name := by
  constructor
  · rintro ⟨_ | ⟨b', before⟩, after, hchain, hnone⟩
    · exact absurd (List.cons.inj hchain).1 hb
    · rw [List.cons_append, List.cons.injEq] at hchain
      obtain ⟨rfl, hchain⟩ := hchain
      obtain ⟨hhead, htail⟩ := List.forall_mem_cons.1 hnone
      exact ⟨hhead, before, after, hchain, htail⟩
  · rintro ⟨hhead, before, after, rfl, htail⟩
    exact ⟨b :: before, after, rfl, List.forall_mem_cons.2 ⟨hhead, htail⟩⟩

/-- One more binding hides what is behind it on the chain, and nothing else. -/
theorem findSome?_declare (chain : List ScopeId) (other : String) :
    (Unshadowed log chain scope name → chain.findSome?
      (bindingIn (log ++ [.declare scope name d]) name) = some ⟨d, scope⟩) ∧
    (¬(other = name ∧ Unshadowed log chain scope name) → chain.findSome?
      (bindingIn (log ++ [.declare scope name d]) other) = chain.findSome? (bindingIn log other)) := by
  induction chain with
  | nil =>
    refine ⟨?_, fun _ => rfl⟩
    rintro ⟨before, after, hchain, _⟩
    simp at hchain
  | cons b chain ih =>
    by_cases hb : b = scope
    · subst hb
      have hhead : Unshadowed log (b :: chain) b name := ⟨[], chain, rfl, by simp⟩
      refine ⟨fun _ => by simp [bindingIn, latest?_declare], fun hother => ?_⟩
      have hname : name ≠ other := fun heq => hother ⟨heq.symm, hhead⟩
      have hsame : bindingIn (log ++ [.declare b name d]) other = bindingIn log other := by
        funext g
        simp [bindingIn, latest?_declare, hname]
      rw [hsame]
    · have hsame : ∀ n, bindingIn (log ++ [.declare scope name d]) n b = bindingIn log n b := by
        intro n
        simp [bindingIn, latest?_declare, Ne.symm hb]
      simp only [List.findSome?_cons, hsame, unshadowed_cons hb]
      constructor
      · rintro ⟨hnone, hchain⟩
        simp only [bindingIn, hnone, Option.map_none]
        exact ih.1 hchain
      · intro hother
        cases hbound : bindingIn log other b with
        | some f => rfl
        | none =>
          refine ih.2 ?_
          rintro ⟨rfl, hchain⟩
          exact hother ⟨rfl, Option.map_eq_none_iff.1 hbound, hchain⟩

/-- Lookups and functions around a scope in a table that was built by events. A lookup ends, and it finds
a binding iff its scope is the first on the chain that binds the name and its declaration was the last to
be bound there. One more binding is found where it is the first on the chain; all other lookups, and the
function that a scope belongs to, stay as they are. -/
theorem lookup_events (h : Built log t) (id : ScopeId) (hid : id.index < t.size) :
    ∃ chain, Chain log id chain ∧
      (∀ name, ∃ r, t.lookup id name = .ok r ∧ ∀ d g, r = some ⟨d, g⟩ ↔
        Unshadowed log chain g name ∧ latest? log g name = some d) ∧
      ∀ scope name d, scope.index < t.size → ∃ u, t.declare scope name d = .ok u ∧
        (Unshadowed log chain scope name → u.lookup id name = .ok (some ⟨d, scope⟩)) ∧
        (∀ other, ¬(other = name ∧ Unshadowed log chain scope name) →
          u.lookup id other = t.lookup id other) ∧
        ∃ f, u.enclosingFunction id = .ok f ∧ t.enclosingFunction id = .ok f := by
  have hfollows := h.follows
  obtain ⟨chain, hchain⟩ := hfollows.exists_chain hid
  refine ⟨chain, hchain, fun name => ?_, fun scope name d hscope => ?_⟩
  · exact ⟨_, hfollows.lookup_eq hid hchain name, fun d g => findSome?_bindingIn ⟨d, g⟩⟩
  · obtain ⟨u, hu, hbinds⟩ := declare_eq_ok hscope name d
    have hfollows' := hfollows.binds hbinds
    have hid' : id.index < u.size := by
      obtain ⟨_, _, hsize, _⟩ := hbinds
      rwa [hsize]
    have hlookup := hfollows'.lookup_eq hid' (chain_declare.2 hchain)
    refine ⟨u, hu, fun hfirst => ?_, fun other hother => ?_, ?_⟩
    · rw [hlookup, (findSome?_declare chain name).1 hfirst]
    · rw [hlookup, (findSome?_declare chain other).2 hother, hfollows.lookup_eq hid hchain]
    · obtain ⟨r, _, hr⟩ := search_finds hfollows.rooted owner hid hid
      exact ⟨_, enclosingFunction_eq hfollows'.rooted hid'
        (hr.owner_of_extends (hbinds.extends (P := (· = d)) rfl)),
        enclosingFunction_eq hfollows.rooted hid hr⟩

/-- A block in a function: a name that is bound outside of the function and twice in it. -/
def blockEvents : List Event :=
  [.push root (.function ⟨7⟩), .push ⟨1⟩ .block, .declare root "x" ⟨1⟩, .declare ⟨1⟩ "x" ⟨2⟩,
    .declare ⟨1⟩ "x" ⟨3⟩]

theorem lookup_events_block :
    ∃ t, Built blockEvents t ∧ 2 < t.size ∧ ∃ chain, Chain blockEvents ⟨2⟩ chain ∧
      ∃ r, t.lookup ⟨2⟩ "x" = .ok r ∧ ∀ d g, r = some ⟨d, g⟩ ↔
        Unshadowed blockEvents chain g "x" ∧ latest? blockEvents g "x" = some d := by
  have hpushed := (Built.initial.push root (.function ⟨7⟩) (by decide)).push ⟨1⟩ .block (by decide)
  have hbuilt : Built blockEvents _ :=
    ((hpushed.declare (by decide) rfl).declare (by decide) rfl).declare (by decide) rfl
  obtain ⟨chain, hchain, hlookup, _⟩ := lookup_events hbuilt ⟨2⟩ (by decide)
  exact ⟨_, hbuilt, by decide, chain, hchain, hlookup "x"⟩

end ScriptAnalysis.ScopeTable
