import ScriptAnalysis.Proofs.Typing.Walk.Framing

/-!
What the walk does at a class. Its head declares it, once more if something stands behind `from`
(`Walk.headWalked_of_classHead`). Its end gives the last declaration the members of its body and those that
its superclasses have at that time (`Walk.flattens_of_classMembers`): a superclass that has been left has
all its members, one that is still open has none.
-/
namespace ScriptAnalysis

namespace Declarations

variable {t u : Declarations}

theorem sorted_idsAt (n : NodeId) : (t.idsAt n).Pairwise fun i j => i.index < j.index := by
  have hnumbers : (t.items.toList.map Declaration.node).zipIdx.Pairwise fun x y => x.2 < y.2 := by
    rw [← List.pairwise_map (f := Prod.snd) (R := (· < ·)), List.zipIdx_map_snd]
    exact List.pairwise_lt_range'
  exact List.pairwise_map.2 (hnumbers.filter _)

def StandsAt (t : Declarations) (i : Nat) (n : NodeId) : Prop := ∃ x, t.items[i]? = some x ∧ x.node = some n

/-- The declaration of a node is the last that stands there. -/
theorem forNode?_eq_some_iff {n : NodeId} {id : DeclId} :
    t.forNode? n = some id ↔ t.StandsAt id.index n ∧ ∀ i, t.StandsAt i n → i ≤ id.index := by
  have hlast : ∀ {id : DeclId}, t.forNode? n = some id →
      id ∈ t.idsAt n ∧ ∀ j ∈ t.idsAt n, j.index ≤ id.index := by
    intro id h
    rw [forNode?_eq, List.getLast?_eq_some_iff] at h
    obtain ⟨before, hids⟩ := h
    have hsorted := t.sorted_idsAt n
    rw [hids, List.pairwise_append] at hsorted
    rw [hids]
    refine ⟨by simp, fun j hj => ?_⟩
    rcases List.mem_append.1 hj with hj | hj
    · exact Nat.le_of_lt (hsorted.2.2 j hj id (List.mem_singleton_self id))
    · rw [List.mem_singleton.1 hj]
  constructor
  · intro h
    obtain ⟨hmem, hmax⟩ := hlast h
    exact ⟨mem_idsAt.1 hmem, fun i hi => hmax ⟨i⟩ (mem_idsAt.2 hi)⟩
  · rintro ⟨hx, hmax⟩
    have hmem := mem_idsAt.2 hx
    cases h : t.forNode? n with
    | none =>
      rw [forNode?_eq, List.getLast?_eq_none_iff] at h
      rw [h] at hmem
      cases hmem
    | some last =>
      obtain ⟨hlast, hge⟩ := hlast h
      have heq : last.index = id.index := Nat.le_antisymm (hmax _ (mem_idsAt.1 hlast)) (hge id hmem)
      cases last
      cases id
      cases heq
      rfl

theorem forNode?_congr {n : NodeId} (h : ∀ i, t.StandsAt i n ↔ u.StandsAt i n) :
    t.forNode? n = u.forNode? n := by
  ext id
  simp only [forNode?_eq_some_iff, h]

/-- The own members that a class hands down to a class inside of the given statements. A class that is not
left yet has none to hand down. -/
def handedDown (t : Declarations) (opened : List NodeId) (id : DeclId) : List DeclId :=
  match t.items[id.index]? with
  | some x => if x.node.any (· ∈ opened) then [] else (x.kind.class?.map (·.ownMembers)).getD []
  | none => []

end Declarations

inductive Superclass.Resolved (t : Declarations) (told : List Diagnostic) (node : Node) (s : Superclass) :
    Option DeclId → Prop
  | cls {id x info} (hx : t.items[id.index]? = some x) (hname : x.name = s.name)
      (hkind : x.kind = .cls info) : Resolved t told node s (some id)
  | unbound (h : .atNode (.unresolvedName s.name) ⟨node.id, s.span⟩ ∈ told) : Resolved t told node s none
  | otherKind {word} (h : .atNode (.invalidSuperclass s.name word) ⟨node.id, s.span⟩ ∈ told) :
      Resolved t told node s none

structure ClassInfo.Flattened (t : Declarations) (told : List Diagnostic) (around : List NodeId)
    (node : Node) (head : ClassHead) (body : List Stmt) (info : ClassInfo) : Prop where
  own : info.ownMembers = (body.filter Stmt.isMember).filterMap (t.forNode? ·.id)
  superclasses : ∃ found, List.Forall₂ (Superclass.Resolved t told node) head.superclasses found ∧
    info.superclasses = found.filterMap id
  members : info.members = info.ownMembers ++ info.superclasses.flatMap (t.handedDown (node.id :: around))

namespace Draft

variable {d d' : Draft} {S : NodeId → Prop} {around : List NodeId}

/-- The declaration of a class, inside of other classes, has its members. -/
def Flattens (d : Draft) (around : List NodeId) (node : Node) (head : ClassHead) (body : List Stmt) : Prop :=
  node.id ∉ around ∧ ∃ id x info, d.tables.declarations.forNode? node.id = some id ∧
    d.tables.declarations.items[id.index]? = some x ∧ x.name = head.name ∧ x.kind = .cls info ∧
    info.Flattened d.tables.declarations d.diagnostics around node head body

theorem Spares.mono {opened : List NodeId} {T : NodeId → Prop} (h : d.Spares around S d')
    (hopened : around ⊆ opened) (hT : ∀ n, S n → T n) : d.Spares opened T d' where
  items i x hx hout := h.items i x hx fun n hn => hout n (hopened hn)
  declarations := h.declarations
  nodes i x hx hi := by
    obtain ⟨n, hn, hS⟩ := h.nodes i x hx hi
    exact ⟨n, hn, hT n hS⟩
  diagnostics := h.diagnostics

theorem Spares.standsAt (h : d.Spares around S d') {n : NodeId} (hn : ¬S n) (i : Nat) :
    d.tables.declarations.StandsAt i n ↔ d'.tables.declarations.StandsAt i n := by
  constructor
  · rintro ⟨x, hx, hnode⟩
    obtain ⟨x', hx', _, hnode', _⟩ := h.declarations i x hx
    exact ⟨x', hx', hnode'.trans hnode⟩
  · rintro ⟨x', hx', hnode⟩
    by_cases hi : i < d.size
    · obtain ⟨x, hx⟩ := Declarations.exists_item hi
      obtain ⟨y, hy, _, hnode', _⟩ := h.declarations i x hx
      obtain rfl : y = x' := Option.some.inj (hy.symm.trans hx')
      exact ⟨x, hx, hnode'.symm.trans hnode⟩
    · obtain ⟨m, hm, hS⟩ := h.nodes i x' hx' (Nat.not_lt.1 hi)
      rw [hnode] at hm
      cases hm
      exact absurd hS hn

theorem Spares.resolved (h : d.Spares around S d') {node : Node} {s : Superclass} {o : Option DeclId}
    (ho : s.Resolved d.tables.declarations d.diagnostics node o) :
    s.Resolved d'.tables.declarations d'.diagnostics node o := by
  cases ho with
  | cls hx hname hkind =>
    obtain ⟨x', hx', hname', _, hkind'⟩ := h.declarations _ _ hx
    rw [hkind] at hkind'
    obtain ⟨info', hinfo⟩ := DeclarationKind.exists_cls_of_blank hkind'
    exact .cls hx' (hname'.trans hname) hinfo
  | unbound hx => exact .unbound (h.diagnostics hx)
  | otherKind hx => exact .otherKind (h.diagnostics hx)

theorem Spares.handedDown (h : d.Spares around S d') {opened : List NodeId} (hopened : around ⊆ opened)
    {id : DeclId} {x : Declaration} (hx : d.tables.declarations.items[id.index]? = some x) :
    d'.tables.declarations.handedDown opened id = d.tables.declarations.handedDown opened id := by
  obtain ⟨x', hx', _, hnode, _⟩ := h.declarations _ x hx
  simp only [Declarations.handedDown, hx, hx', hnode]
  split
  · rfl
  · next hopen =>
    have hout : ∀ m ∈ around, x.node ≠ some m := by
      rintro m hm hnode
      simp [hnode, hopened hm] at hopen
    rw [h.items _ x hx hout] at hx'
    cases hx'
    rfl

/-- What a class was given is never changed. -/
theorem Flattens.later {node : Node} {head : ClassHead} {body : List Stmt}
    (h : d.Flattens around node head body) (hlater : d.Spares around S d')
    (hnode : ¬S node.id) (hbody : ∀ x ∈ body, ¬S x.id) : d'.Flattens around node head body := by
  obtain ⟨hself, id, x, info, hid, hx, hname, hkind, hflat⟩ := h
  obtain ⟨found, hfound, hsuper⟩ := hflat.superclasses
  have hforNode : ∀ {n : NodeId}, ¬S n →
      d.tables.declarations.forNode? n = d'.tables.declarations.forNode? n :=
    fun hn => Declarations.forNode?_congr (hlater.standsAt hn)
  obtain ⟨y, hy, hat⟩ := (Declarations.forNode?_eq_some_iff.1 hid).1
  obtain rfl : y = x := Option.some.inj (hy.symm.trans hx)
  have hx' : d'.tables.declarations.items[id.index]? = some y := by
    refine hlater.items _ y hx fun n hn heq => hself ?_
    rw [hat] at heq
    cases heq
    exact hn
  refine ⟨hself, id, y, info, hforNode hnode ▸ hid, hx', hname, hkind, ?_,
    ⟨found, hfound.imp fun _ _ => hlater.resolved, hsuper⟩, ?_⟩
  · rw [hflat.own]
    refine List.filterMap_congr fun s hs => hforNode (hbody s (List.mem_filter.1 hs).1)
  · rw [hflat.members]
    refine congrArg (info.ownMembers ++ ·) (List.flatMap_congr fun i hi => ?_)
    obtain ⟨z, hz⟩ : ∃ z, d.tables.declarations.items[i.index]? = some z := by
      rw [hsuper, List.mem_filterMap] at hi
      obtain ⟨o, ho, rfl⟩ := hi
      obtain ⟨s, _, hs⟩ := forall_of_forall₂ (P := fun o => ∃ s ∈ head.superclasses,
        Superclass.Resolved d.tables.declarations d.diagnostics node s o) hfound
        (fun s hs o ho => ⟨s, hs, ho⟩) _ ho
      cases hs with
      | cls hz _ _ => exact ⟨_, hz⟩
    exact (hlater.handedDown (List.subset_cons_self _ _) hz).symm

/-- The classes at the nodes have not been left, so they have no members yet. -/
def Pending (d : Draft) (opened : List NodeId) : Prop :=
  ∀ (i : Nat) (x : Declaration) (info : ClassInfo) (n : NodeId),
    d.tables.declarations.items[i]? = some x → x.node = some n → n ∈ opened →
    x.kind = .cls info → info.ownMembers = []

structure Before (d : Draft) (around : List NodeId) (l : List Site) : Prop where
  named : d.Named
  vacant : ∀ s ∈ l, ∀ i, ¬d.tables.declarations.StandsAt i s.id
  pending : d.Pending around
  distinct : Site.Distinct l
  apart : ∀ s ∈ l, s.id ∉ around

theorem Pending.later (h : d.Pending around) (hlater : d.Spares [] S d') (hS : ∀ n ∈ around, ¬S n) :
    d'.Pending around := by
  intro i x info n hx hn hin hkind
  by_cases hi : i < d.size
  · obtain ⟨y, hy⟩ := Declarations.exists_item hi
    obtain rfl : y = x := Option.some.inj ((hlater.items i y hy (by simp)).symm.trans hx)
    exact h i y info n hy hn hin hkind
  · obtain ⟨m, hm, hSm⟩ := hlater.nodes i x hx (Nat.not_lt.1 hi)
    rw [hn] at hm
    cases hm
    exact absurd hSm (hS n hin)

/-- A walk over some of the sites leaves the draft ready for the others. -/
theorem Before.spares {l m : List Site} (h : d.Before around l) (hspares : d.Spares [] S d')
    (hnamed : d'.Named) (hm : m.Sublist l) (hS : ∀ s ∈ m, ¬S s.id) (haround : ∀ n ∈ around, ¬S n) :
    d'.Before around m where
  named := hnamed
  vacant s hs i hat := by
    refine h.vacant s (hm.subset hs) i ?_
    exact (hspares.standsAt (hS s hs) i).2 hat
  pending := h.pending.later hspares haround
  distinct := h.distinct.sublist hm
  apart s hs := h.apart s (hm.subset hs)

end Draft

namespace Declarations

variable {t u v : Declarations}

/-- Tables whose declarations differ in their scopes only. -/
def Rescoped (t u : Declarations) : Prop :=
  u.size = t.size ∧ ∀ (i : Nat) (x : Declaration), t.items[i]? = some x →
    ∃ s, u.items[i]? = some { x with bodyScope := s }

theorem Rescoped.trans (h : t.Rescoped u) (h' : u.Rescoped v) : t.Rescoped v := by
  refine ⟨h'.1.trans h.1, fun i x hx => ?_⟩
  obtain ⟨s, hs⟩ := h.2 i x hx
  obtain ⟨s', hs'⟩ := h'.2 i _ hs
  exact ⟨s', hs'⟩

theorem rescoped_of_changes {id : DeclId} {s : ScopeId}
    (h : t.Changes id (fun x => { x with bodyScope := some s }) u) : t.Rescoped u := by
  obtain ⟨x, hx, hsize, hu⟩ := h
  refine ⟨hsize, fun i y hy => ?_⟩
  by_cases hi : i = id.index
  · subst hi
    obtain rfl : x = y := Option.some.inj (hx.symm.trans hy)
    exact ⟨some s, by rw [hu, if_pos rfl]⟩
  · exact ⟨y.bodyScope, by rw [hu, if_neg hi]; exact hy⟩

theorem Rescoped.later (h : t.Rescoped u) (i : Nat) (x : Declaration) (hx : t.items[i]? = some x) :
    ∃ x', u.items[i]? = some x' ∧ x'.name = x.name ∧ x'.node = x.node ∧ x'.kind = x.kind := by
  obtain ⟨s, hs⟩ := h.2 i x hx
  exact ⟨_, hs, rfl, rfl, rfl⟩

theorem Rescoped.before (h : t.Rescoped u) (i : Nat) (x' : Declaration) (hx' : u.items[i]? = some x') :
    ∃ x, t.items[i]? = some x ∧ x'.name = x.name ∧ x'.node = x.node ∧ x'.kind = x.kind := by
  have hi := lt_size_of_getElem? hx'
  obtain ⟨x, hx⟩ := exists_item (h.1 ▸ hi)
  obtain ⟨y, hy, hsame⟩ := h.later i x hx
  obtain rfl : y = x' := Option.some.inj (hy.symm.trans hx')
  exact ⟨x, hx, hsame⟩

end Declarations

namespace Walk

variable {d d' : Draft} {scope : ScopeId} {node : Node} {head : ClassHead}

theorem lookup_eq_ok {name : String} {o : Option Binding} (h : lookup scope name d = .ok o d') :
    d' = d ∧ d.tables.scopes.lookup scope name = .ok o := by
  obtain ⟨_, _, hget, hcheck⟩ := bind_eq_ok.1 h
  cases hget
  cases hfound : d.tables.scopes.lookup scope name <;> rw [hfound] at hcheck <;> cases hcheck
  exact ⟨rfl, rfl⟩

theorem declaration_eq_ok {id : DeclId} {x : Declaration} (h : declaration id d = .ok x d') :
    d' = d ∧ d.tables.declarations.items[id.index]? = some x := by
  obtain ⟨_, _, hget, hcheck⟩ := bind_eq_ok.1 h
  cases hget
  cases hfound : d.tables.declarations.get id <;> rw [hfound] at hcheck <;> cases hcheck
  exact ⟨rfl, Declarations.get_eq_ok.1 hfound⟩

theorem superclass_eq_ok {s : Superclass} {o : Option DeclId} (hd : d.Named)
    (h : superclass scope node s d = .ok o d') :
    d'.tables = d.tables ∧ d.diagnostics ⊆ d'.diagnostics ∧
      s.Resolved d'.tables.declarations d'.diagnostics node o := by
  obtain ⟨binding, d₁, hlookup, h⟩ := bind_eq_ok.1 h
  obtain ⟨rfl, hbinding⟩ := lookup_eq_ok hlookup
  cases binding with
  | none =>
    cases h
    exact ⟨rfl, List.subset_append_left _ _, .unbound (List.mem_append_right _ (List.mem_singleton_self _))⟩
  | some found =>
    obtain ⟨x, d₂, hdeclaration, h⟩ := bind_eq_ok.1 h
    obtain ⟨rfl, hx⟩ := declaration_eq_ok hdeclaration
    obtain ⟨y, hy, hname⟩ := hd.lookup hbinding
    obtain rfl : y = x := Option.some.inj (hy.symm.trans hx)
    cases hclass : y.kind.class? with
    | none =>
      simp only [hclass] at h
      cases h
      exact ⟨rfl, List.subset_append_left _ _,
        .otherKind (List.mem_append_right _ (List.mem_singleton_self _))⟩
    | some info =>
      simp only [hclass] at h
      cases h
      refine ⟨rfl, List.Subset.refl _, .cls hx hname (?_ : y.kind = .cls info)⟩
      cases hkind : y.kind <;> rw [hkind] at hclass <;> cases hclass
      rfl

theorem superclasses_eq_ok {sups : List Superclass} {found : List (Option DeclId)} (hd : d.Named)
    (h : sups.mapM (superclass scope node) d = .ok found d') :
    d'.tables = d.tables ∧ d.diagnostics ⊆ d'.diagnostics ∧
      List.Forall₂ (Superclass.Resolved d'.tables.declarations d'.diagnostics node) sups found := by
  induction sups generalizing d found with
  | nil =>
    cases h
    exact ⟨rfl, List.Subset.refl _, .nil⟩
  | cons sup sups ih =>
    rw [List.mapM_cons] at h
    obtain ⟨o, d₁, hfirst, h⟩ := bind_eq_ok.1 h
    obtain ⟨htables, htold, hresolved⟩ := superclass_eq_ok hd hfirst
    obtain ⟨os, d₂, hrest, h⟩ := bind_eq_ok.1 h
    cases h
    have hd₁ : d₁.Named := by simpa only [Draft.Named, htables] using hd
    obtain ⟨htables', htold', hresolved'⟩ := ih hd₁ hrest
    have hspares : d₁.Spares [] (fun _ => False) d' :=
      .of_subset (congrArg Tables.declarations htables') htold' []
    exact ⟨htables'.trans htables, fun x hx => htold' (htold hx),
      .cons (hspares.resolved hresolved) hresolved'⟩

structure HeadWalked (d d' : Draft) (node : Node) (head : ClassHead) (c : OpenClass) : Prop where
  effective : ∃ x info, d'.tables.declarations.items[c.effective.index]? = some x ∧ x.name = head.name ∧
    x.node = some node.id ∧ x.kind = .cls info ∧ info.superclasses = c.superclasses
  written : d'.tables.declarations.StandsAt c.written.index node.id
  last : d'.size ≤ c.effective.index + 1
  blank : ∀ (i : Nat) (x : Declaration), d'.tables.declarations.items[i]? = some x → d.size ≤ i →
    ∃ info, x.kind = .cls info ∧ info.ownMembers = []
  resolved : ∃ found, List.Forall₂ (Superclass.Resolved d'.tables.declarations d'.diagnostics node)
    head.superclasses found ∧ c.superclasses = found.filterMap id

/-- The end of the head of a class changes no more of declarations than their scopes. -/
theorem openClass_eq_ok {superclasses : List DeclId} {w e : DeclId} {c : OpenClass}
    (h : openClass scope node head superclasses w e d = .ok c d') :
    (∃ inner, c = ⟨w, e, superclasses, inner⟩) ∧ d'.diagnostics = d.diagnostics ∧
      d.tables.declarations.Rescoped d'.tables.declarations := by
  simp only [openClass, List.forIn_cons, List.forIn_nil, bind_assoc, pure_bind] at h
  obtain ⟨_, _, h₁, h⟩ := bind_eq_ok.1 h
  cases h₁
  obtain ⟨_, _, h₂, h⟩ := bind_eq_ok.1 h
  cases h₂
  obtain ⟨_, _, h₃, h⟩ := bind_eq_ok.1 h
  cases h₃
  obtain ⟨_, _, h₄, h⟩ := bind_eq_ok.1 h
  cases h₄
  obtain ⟨inner, _, hopen, h⟩ := bind_eq_ok.1 h
  cases hopen
  obtain ⟨_, _, hwritten, h⟩ := bind_eq_ok.1 h
  obtain ⟨t, ht, rfl⟩ := modifyDeclaration_eq_ok hwritten
  obtain ⟨_, _, heffective, h⟩ := bind_eq_ok.1 h
  obtain ⟨u, hu, rfl⟩ := modifyDeclaration_eq_ok heffective
  cases h
  have hwritten := Declarations.rescoped_of_changes (Declarations.changes_of_modify ht)
  have heffective := Declarations.rescoped_of_changes (Declarations.changes_of_modify hu)
  exact ⟨⟨_, rfl⟩, rfl, hwritten.trans heffective⟩

theorem HeadWalked.rescoped {e : Draft} {c c' : OpenClass} (h : HeadWalked d e node head c)
    (ht : e.tables.declarations.Rescoped d'.tables.declarations) (hx : d'.diagnostics = e.diagnostics)
    (hw : c'.written = c.written) (he : c'.effective = c.effective)
    (hs : c'.superclasses = c.superclasses) : HeadWalked d d' node head c' where
  effective := by
    obtain ⟨x, info, hx, hname, hnode, hkind, hsuper⟩ := h.effective
    obtain ⟨x', hx', hname', hnode', hkind'⟩ := ht.later _ x hx
    exact ⟨x', info, he ▸ hx', hname'.trans hname, hnode'.trans hnode, hkind'.trans hkind,
      hsuper.trans hs.symm⟩
  written := by
    obtain ⟨x, hx, hnode⟩ := h.written
    obtain ⟨x', hx', _, hnode', _⟩ := ht.later _ x hx
    exact ⟨x', hw ▸ hx', hnode'.trans hnode⟩
  last := by
    rw [Draft.size, ht.1, he]
    exact h.last
  blank i x' hx' hi := by
    obtain ⟨x, hx, _, _, hkind⟩ := ht.before i x' hx'
    exact hkind ▸ h.blank i x hx hi
  resolved := by
    obtain ⟨found, hfound, hsuper⟩ := h.resolved
    refine ⟨found, hfound.imp fun s o ho => ?_, hs.trans hsuper⟩
    rw [hx]
    cases ho with
    | cls hx hname hkind =>
      obtain ⟨x', hx', hname', _, hkind'⟩ := ht.later _ _ hx
      exact .cls hx' (hname'.trans hname) (hkind'.trans hkind)
    | unbound hx => exact .unbound hx
    | otherKind hx => exact .otherKind hx

/-- The head of a class declares it, and once more if something stands behind `from`. -/
theorem headWalked_of_classHead {c : OpenClass} (hd : d.Named)
    (h : classHead scope node head d = .ok c d') : HeadWalked d d' node head c := by
  rw [classHead_eq] at h
  obtain ⟨_, _, hdeclare, h⟩ := bind_eq_ok.1 h
  cases hdeclare
  obtain ⟨_, _, hbind, h⟩ := bind_eq_ok.1 h
  obtain ⟨t, ht, rfl⟩ := bindName_eq_ok hbind
  obtain ⟨found, e, hsuper, h⟩ := bind_eq_ok.1 h
  let first : Declaration := .ofNode node head.name (.cls { visibility := head.visibility })
  have hd₁ : ((d.declaring first).withScopes t).Named := by
    have hnamed : (d.declaring first).Named := fun i s hs b hb => (hd i s hs b hb).add first
    refine hnamed.binding (ScopeTable.binds_of_declare ht) ⟨first, ?_, rfl⟩
    exact (Declarations.add_getElem? first d.size).trans (if_pos rfl)
  obtain ⟨htables, -, hresolved⟩ := superclasses_eq_ok hd₁ hsuper
  have hitems (i : Nat) : e.tables.declarations.items[i]? =
      if i = d.size then some first else d.tables.declarations.items[i]? := by
    rw [htables]
    exact Declarations.add_getElem? first i
  have hfirst := (hitems d.size).trans (if_pos rfl)
  have hsize : e.size = d.size + 1 := by
    simp only [Draft.size, htables]
    exact Declarations.size_add ..
  have hblank : ∀ (i : Nat) (x : Declaration), e.tables.declarations.items[i]? = some x → d.size ≤ i →
      ∃ info, x.kind = .cls info ∧ info.ownMembers = [] := by
    intro i x hx hi
    have hlt : i < e.size := Declarations.lt_size_of_getElem? hx
    obtain rfl : i = d.size := by omega
    rw [hfirst] at hx
    cases hx
    exact ⟨_, rfl, rfl⟩
  split at h
  · next hempty =>
    obtain ⟨⟨inner, rfl⟩, htold, hrescoped⟩ := openClass_eq_ok h
    have hnone : found = [] := by
      rw [List.isEmpty_iff.1 hempty] at hresolved
      cases hresolved
      rfl
    have hwalked : HeadWalked d e node head ⟨⟨d.size⟩, ⟨d.size⟩, found.filterMap id, scope⟩ :=
      { effective := ⟨first, _, hfirst, rfl, rfl, rfl, by rw [hnone]; rfl⟩
        written := ⟨first, hfirst, rfl⟩
        last := Nat.le_of_eq hsize
        blank := hblank
        resolved := ⟨found, hresolved, rfl⟩ }
    exact hwalked.rescoped hrescoped htold rfl rfl rfl
  · obtain ⟨_, _, hdeclare, h⟩ := bind_eq_ok.1 h
    cases hdeclare
    obtain ⟨_, _, hbind, h⟩ := bind_eq_ok.1 h
    obtain ⟨u, hu, rfl⟩ := bindName_eq_ok hbind
    obtain ⟨⟨inner, rfl⟩, htold, hrescoped⟩ := openClass_eq_ok h
    let second : Declaration := .ofNode node head.name (.cls {
      visibility := head.visibility, superclasses := found.filterMap id, written := some ⟨d.size⟩ })
    have hitems' : ∀ i : Nat, (e.declaring second).tables.declarations.items[i]? =
        if i = e.size then some second else e.tables.declarations.items[i]? :=
      Declarations.add_getElem? second
    have hsecond := (hitems' e.size).trans (if_pos rfl)
    have hspares : e.Spares [] (· = node.id) (e.declaring second) :=
      (Draft.Spares.of_eq rfl rfl []).declaring rfl rfl
    have hwalked : HeadWalked d ((e.declaring second).withScopes u) node head
        ⟨⟨d.size⟩, ⟨e.size⟩, found.filterMap id, scope⟩ :=
      { effective := ⟨second, _, hsecond, rfl, rfl, rfl, rfl⟩
        written := ⟨first, hspares.items _ _ hfirst (by simp), rfl⟩
        last := Nat.le_of_eq (Declarations.size_add _)
        blank := fun i x hx hi => by
          have hx := (hitems' i).symm.trans hx
          split at hx
          · cases hx
            exact ⟨_, rfl, rfl⟩
          · exact hblank i x hx hi
        resolved := ⟨found, hresolved.imp fun _ _ => hspares.resolved, rfl⟩ }
    exact hwalked.rescoped hrescoped htold rfl rfl rfl

/-- To give members to a declaration changes no other. -/
theorem setMembers_eq_ok {id : DeclId} {n : NodeId} {own members : List DeclId}
    (hat : d.tables.declarations.StandsAt id.index n) (h : setMembers id own members d = .ok () d') :
    d.Spares [n] (fun _ => False) d' ∧
      (∀ i : Nat, i ≠ id.index → d'.tables.declarations.items[i]? = d.tables.declarations.items[i]?) ∧
      ∀ x info, d.tables.declarations.items[id.index]? = some x → x.kind = .cls info →
        d'.tables.declarations.items[id.index]? =
          some { x with kind := .cls { info with ownMembers := own, members := members } } := by
  obtain ⟨t, ht, rfl⟩ := modifyDeclaration_eq_ok h
  have hchanges := Declarations.changes_of_modify ht
  have hextends : d.tables.declarations.Extends t := by
    refine hchanges.extends (fun x => ?_) (fun x => ?_) fun x _ => ?_ <;>
    · obtain ⟨_, k, _, _, _⟩ := x
      cases k <;> rfl
  obtain ⟨y, hy, hsize, hitems⟩ := hchanges
  obtain ⟨z, hz, hnode⟩ := hat
  obtain rfl : z = y := Option.some.inj (hz.symm.trans hy)
  refine ⟨⟨fun i x hx hout => ?_, hextends, fun i x hx hi => ?_, List.Subset.refl _⟩,
    fun i hi => (hitems i).trans (if_neg hi), fun x info hx hkind => ?_⟩
  · refine (hitems i).trans ?_
    rw [if_neg]
    · exact hx
    · rintro rfl
      obtain rfl : z = x := Option.some.inj (hz.symm.trans hx)
      exact hout n (List.mem_singleton_self n) hnode
  · have hlt := Declarations.lt_size_of_getElem? hx
    exact absurd hlt (Nat.not_lt.2 (Nat.le_trans (Nat.le_of_eq hsize) hi))
  · obtain rfl : z = x := Option.some.inj (hz.symm.trans hx)
    refine (hitems _).trans ?_
    simp only [if_pos, hkind]

/-- Classes that are not left yet have no members to hand down. -/
theorem ownMembers_eq_ok {opened : List NodeId} {id : DeclId} {own : List DeclId} (hd : d.Pending opened)
    (h : ownMembers id d = .ok own d') :
    d' = d ∧ own = d.tables.declarations.handedDown opened id ∧
      ∃ x, d.tables.declarations.items[id.index]? = some x := by
  obtain ⟨x, d₁, hdeclaration, hown⟩ := bind_eq_ok.1 h
  obtain ⟨rfl, hx⟩ := declaration_eq_ok hdeclaration
  cases hown
  refine ⟨rfl, ?_, x, hx⟩
  simp only [Declarations.handedDown, hx]
  cases hkind : x.kind with
  | cls info =>
    simp only [DeclarationKind.class?, Option.map_some, Option.getD_some]
    split
    · next hopen =>
      cases hnode : x.node with
      | none => simp [hnode] at hopen
      | some n =>
        simp only [hnode, Option.any_some, decide_eq_true_eq] at hopen
        exact hd _ x info n hx hnode hopen hkind
    · rfl
  | _ => simp [DeclarationKind.class?]

theorem ownMembersAll_eq_ok {opened : List NodeId} {ids : List DeclId} {owns : List (List DeclId)}
    (hd : d.Pending opened) (h : ids.mapM ownMembers d = .ok owns d') :
    d' = d ∧ owns = ids.map (d.tables.declarations.handedDown opened) ∧
      ∀ i ∈ ids, ∃ x, d.tables.declarations.items[i.index]? = some x := by
  induction ids generalizing owns with
  | nil =>
    cases h
    exact ⟨rfl, rfl, by simp⟩
  | cons i ids ih =>
    rw [List.mapM_cons] at h
    obtain ⟨own, d₁, hfirst, h⟩ := bind_eq_ok.1 h
    obtain ⟨rfl, rfl, hx⟩ := ownMembers_eq_ok hd hfirst
    obtain ⟨rest, d₂, hrest, h⟩ := bind_eq_ok.1 h
    cases h
    obtain ⟨rfl, rfl, hall⟩ := ih hrest
    exact ⟨rfl, rfl, List.forall_mem_cons.2 ⟨hx, hall⟩⟩

/-- The end of a class gives its last declaration the members, and changes no other class. -/
theorem flattens_of_classMembers {c : OpenClass} {around : List NodeId} {body : List Stmt}
    (hself : node.id ∉ around) (hpending : d.Pending (node.id :: around))
    (h : classMembers c body d = .ok () d')
    (heffective : ∃ x info, d.tables.declarations.items[c.effective.index]? = some x ∧
      x.name = head.name ∧ x.node = some node.id ∧ x.kind = .cls info ∧ info.superclasses = c.superclasses)
    (hwritten : d.tables.declarations.StandsAt c.written.index node.id)
    (hlast : ∀ i, d.tables.declarations.StandsAt i node.id → i ≤ c.effective.index)
    (hresolved : ∃ found, List.Forall₂ (Superclass.Resolved d.tables.declarations d.diagnostics node)
      head.superclasses found ∧ c.superclasses = found.filterMap id) :
    d'.Flattens around node head body ∧ d.Spares [node.id] (fun _ => False) d' := by
  obtain ⟨_, _, hget, h⟩ := bind_eq_ok.1 h
  cases hget
  obtain ⟨inherited, d₁, hinherited, h⟩ := bind_eq_ok.1 h
  obtain ⟨rfl, rfl, hitems⟩ := ownMembersAll_eq_ok hpending hinherited
  obtain ⟨_, d₂, hset, h⟩ := bind_eq_ok.1 h
  obtain ⟨hfirst, hothers, hgiven⟩ := setMembers_eq_ok hwritten hset
  obtain ⟨x, info, hx, hname, hnode, hkind, hsuper⟩ := heffective
  obtain ⟨x₁, info₁, hx₁, hname₁, hnode₁, hkind₁, hsuper₁⟩ : ∃ x info,
      d₂.tables.declarations.items[c.effective.index]? = some x ∧ x.name = head.name ∧
        x.node = some node.id ∧ x.kind = .cls info ∧ info.superclasses = c.superclasses := by
    by_cases hsame : c.written.index = c.effective.index
    · rw [← hsame] at hx ⊢
      exact ⟨_, _, hgiven x info hx hkind, hname, hnode, rfl, hsuper⟩
    · rw [← hothers _ (Ne.symm hsame)] at hx
      exact ⟨x, info, hx, hname, hnode, hkind, hsuper⟩
  obtain ⟨hsecond, _, hgiven'⟩ := setMembers_eq_ok ⟨x₁, hx₁, hnode₁⟩ h
  have hspares := hfirst.trans hsecond
  obtain ⟨found, hfound, hc⟩ := hresolved
  have hids (n : NodeId) : d'.tables.declarations.forNode? n = d₁.tables.declarations.forNode? n :=
    (Declarations.forNode?_congr (hspares.standsAt id)).symm
  refine ⟨⟨hself, c.effective, _, _, ?_, hgiven' x₁ info₁ hx₁ hkind₁, hname₁, rfl, ?_, ?_, ?_⟩, hspares⟩
  · rw [hids]
    exact Declarations.forNode?_eq_some_iff.2 ⟨⟨x, hx, hnode⟩, hlast⟩
  · simp only [hids]
  · exact ⟨found, hfound.imp fun _ _ => hspares.resolved, hsuper₁.trans hc⟩
  · simp only [hsuper₁, List.flatMap_def]
    refine congrArg (_ ++ List.flatten ·) (List.map_congr_left fun i hi => ?_)
    obtain ⟨y, hy⟩ := hitems i hi
    exact (hspares.handedDown (by simp) hy).symm

end Walk

end ScriptAnalysis
