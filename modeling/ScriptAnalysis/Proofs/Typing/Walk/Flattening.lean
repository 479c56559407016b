import ScriptAnalysis.Proofs.Typing.Walk.Classes

/-!
The members of all classes in statements. A class gets its members when the walk leaves it, and what it was
given then is never changed (`Walk.flattens_stmt`), since the walk meets no node twice.
-/
namespace ScriptAnalysis

def Site.At (l : List Site) (n : NodeId) : Prop := ∃ s ∈ l, s.id = n

def Opener.classes (around : List Opener) : List NodeId :=
  (around.filter (·.kind = .cls)).map Opener.node

namespace Draft

variable {d d' : Draft} {opened : List NodeId} {l m : List Site} {ns : List Nested}

/-- The second draft comes from the first by a walk over the sites. -/
def Walked (l : List Site) (d d' : Draft) : Prop := d.Spares [] (Site.At l) d' ∧ d'.Named

/-- The classes among nested statements have their members; the statements are among the sites. -/
def FlattensAll (d : Draft) (l : List Site) (ns : List Nested) : Prop :=
  ∀ n ∈ ns, ∀ node head inner body, n.stmt = .cls node head inner body →
    Site.At l node.id ∧ (∀ x ∈ body, Site.At l x.id) ∧
      d.Flattens (Opener.classes n.around) node head body

theorem FlattensAll.later {S : NodeId → Prop} {around : List NodeId} (h : d.FlattensAll l ns)
    (hlater : d.Spares around S d') (haround : ∀ n ∈ ns, around ⊆ Opener.classes n.around)
    (hS : ∀ s ∈ l, ¬S s.id) : d'.FlattensAll l ns := by
  intro n hn node head inner body hcls
  obtain ⟨hnode, hbody, hflat⟩ := h n hn node head inner body hcls
  refine ⟨hnode, hbody, hflat.later (hlater.mono (haround n hn) fun _ => id) ?_ fun x hx => ?_⟩
  · obtain ⟨s, hs, hid⟩ := hnode
    exact hid ▸ hS s hs
  · obtain ⟨s, hs, hid⟩ := hbody x hx
    exact hid ▸ hS s hs

theorem FlattensAll.walked (h : d.FlattensAll l ns) (hlater : d.Walked m d')
    (hne : ∀ s ∈ l, ∀ t ∈ m, s.id ≠ t.id) : d'.FlattensAll l ns := by
  refine h.later hlater.1 (fun _ _ => List.nil_subset _) fun s hs hin => ?_
  obtain ⟨t, ht, hid⟩ := hin
  exact hne s hs t ht hid.symm

theorem FlattensAll.quiet (h : d.FlattensAll l ns) (ht : d'.tables = d.tables)
    (hx : d'.diagnostics = d.diagnostics) : d'.FlattensAll l ns :=
  h.later (S := fun _ => False) (.of_eq ht hx []) (fun _ _ => List.nil_subset _) fun _ _ => id

theorem FlattensAll.mono (h : d.FlattensAll l ns) (hl : l ⊆ m) : d.FlattensAll m ns := by
  intro n hn node head inner body hcls
  obtain ⟨⟨s, hs, hid⟩, hbody, hflat⟩ := h n hn node head inner body hcls
  refine ⟨⟨s, hl hs, hid⟩, fun x hx => ?_, hflat⟩
  obtain ⟨s, hs, hid⟩ := hbody x hx
  exact ⟨s, hl hs, hid⟩

theorem FlattensAll.cons (h : d.FlattensAll l ns) {around : List Opener} {x : Stmt}
    (hx : ∀ node head inner body, x ≠ .cls node head inner body) : d.FlattensAll l (⟨around, x⟩ :: ns) := by
  intro n hn node head inner body hcls
  rcases List.mem_cons.1 hn with rfl | hn
  · exact absurd hcls (hx node head inner body)
  · exact h n hn node head inner body hcls

theorem FlattensAll.append {os : List Nested} (h : d.FlattensAll l ns) (h' : d.FlattensAll l os) :
    d.FlattensAll l (ns ++ os) := by
  intro n hn
  rcases List.mem_append.1 hn with hn | hn
  · exact h n hn
  · exact h' n hn

theorem flattensAll_nil : d.FlattensAll l [] := by
  intro n hn
  cases hn

theorem Before.walked {whole : List Site} (h : d.Before opened whole) (hwalked : d.Walked l d')
    (hl : l ⊆ whole) (hm : m.Sublist whole) (hne : ∀ s ∈ l, ∀ t ∈ m, s.id ≠ t.id) : d'.Before opened m := by
  refine h.spares hwalked.1 hwalked.2 hm ?_ ?_
  · rintro t ht ⟨s, hs, hid⟩
    exact hne s hs t ht hid
  · rintro n hn ⟨s, hs, rfl⟩
    exact h.apart s (hl hs) hn

theorem Before.sublist (h : d.Before opened l) (hm : m.Sublist l) : d.Before opened m where
  named := h.named
  vacant s hs := h.vacant s (hm.subset hs)
  pending := h.pending
  distinct := h.distinct.sublist hm
  apart s hs := h.apart s (hm.subset hs)

theorem Before.quiet (h : d.Before opened l) (ht : d'.tables = d.tables) : d'.Before opened l where
  named := by simpa only [Named, ht] using h.named
  vacant := by simpa only [ht] using h.vacant
  pending := by simpa only [Pending, ht] using h.pending
  distinct := h.distinct
  apart := h.apart

theorem Before.opening (h : d.Before opened l) (scope : ScopeId) (kind : ScopeKind) :
    (d.opening scope kind).Before opened l :=
  ⟨h.named.opening scope kind, h.vacant, h.pending, h.distinct, h.apart⟩

/-- What comes first has been walked. -/
theorem Before.second {rest : List Site} (h : d.Before opened (l ++ m ++ rest)) (hwalked : d.Walked l d') :
    d'.Before opened m := by
  refine h.walked hwalked (by simp) ?_ (distinct_append.1 (distinct_append.1 h.distinct).1).2.2
  exact (List.sublist_append_right l m).trans (List.sublist_append_left _ rest)

/-- The head of a construct has been walked, which touches the construct's own node. -/
theorem Before.body {entry self : Site} (h : d.Before opened (l ++ m ++ [entry] ++ [self]))
    (hwalked : d.Walked (l ++ [self]) d') : d'.Before opened m := by
  obtain ⟨hrest, _, hself⟩ := distinct_append.1 h.distinct
  have hhead := (distinct_append.1 (distinct_append.1 hrest).1).2.2
  refine h.walked hwalked (by simp) ?_ fun s hs t ht => ?_
  · rw [List.append_assoc]
    exact (List.sublist_append_right l m).trans (List.sublist_append_left _ _)
  · rcases List.mem_append.1 hs with hs | hs
    · exact hhead s hs t ht
    · exact (hself t (by simp [ht]) s hs).symm

end Draft

namespace Walk

variable {d d' : Draft} {scope : ScopeId}

theorem leaveBlock_eq_ok {node : Node} {body : List Stmt} (h : leaveBlock node body d = .ok () d') :
    d'.tables = d.tables ∧ d'.diagnostics = d.diagnostics := by
  unfold leaveBlock at h
  cases hreturn : body.filter Stmt.isReturnContainer <;> rw [hreturn] at h <;> cases h <;> exact ⟨rfl, rfl⟩

/-- The walk over the body of a construct, in front of what is done at its end. -/
theorem body_eq_ok {node : Node} {body : List Stmt} {rest : Walk Unit}
    (h : (do
      enterBlock scope node
      stmts reference scope body
      leaveBlock node body
      rest) d = .ok () d') :
    ∃ d₁ d₂ d₃, d₁.tables = d.tables ∧ d₁.diagnostics = d.diagnostics ∧
      stmts reference scope body d₁ = .ok () d₂ ∧ d₃.tables = d₂.tables ∧
      d₃.diagnostics = d₂.diagnostics ∧ rest d₃ = .ok () d' := by
  obtain ⟨_, d₁, henter, h₁⟩ := bind_eq_ok.1 h
  obtain ⟨_, d₂, hbody, h₂⟩ := bind_eq_ok.1 h₁
  obtain ⟨_, d₃, hleave, h₃⟩ := bind_eq_ok.1 h₂
  obtain ⟨ht, hx⟩ := leaveBlock_eq_ok hleave
  obtain rfl : d.put _ _ = d₁ := (EStateM.Result.ok.inj henter).2
  exact ⟨d.put _ _, d₂, d₃, rfl, rfl, hbody, ht, hx, h₃⟩

section Walked

variable {l m : List Site} {node : Node} {st : Setting}

theorem allAllowed_at (hm : m ⊆ l) : Site.AllAllowed (.among (Site.At l)) m := fun s hs =>
  Site.allowed_among ⟨s, hm hs, rfl⟩

theorem walked_stmt (x : Stmt) (hd : d.Named) (h : stmt reference scope x d = .ok () d') :
    d.Walked (x.sites st) d' :=
  spares_of_sim (Coupling.sim_stmt (Coupling.beside_lawful _ d) (fun _ => trivial) x
    (x.like_self (allAllowed_at (List.Subset.refl _))) scope) hd h

theorem walked_condition {e : Expr} {word : String} {role : Role} (hd : d.Named)
    (h : condition reference scope e word d = .ok () d') : d.Walked (e.sites st role) d' :=
  have he := e.like_self (allAllowed_at (List.Subset.refl (e.sites st role)))
  spares_of_sim (Coupling.sim_condition (Coupling.beside_lawful _ d) he.node
    (Coupling.sim_expr (Coupling.beside_lawful _ d) (fun _ => trivial) scope e he) word) hd h

theorem walked_functionHead {head : FunctionHead} {inner : ScopeId} (st : Setting) (self : Site) (hd : d.Named)
    (hself : self.id = node.id) (hl : l = Binder.sitesAll st .parameter head.parameters ++
      head.result.sites st ++ [self])
    (h : functionHead scope node head d = .ok inner d') : d.Walked l d' := by
  have hn : Site.At l node.id := ⟨self, by simp [hl], hself⟩
  have hparameters : Site.AllAllowed _ (Binder.sitesAll st .parameter head.parameters) :=
    allAllowed_at (l := l) (by simp [hl])
  have hresult : Site.AllAllowed _ (head.result.sites st) := allAllowed_at (l := l) (by simp [hl])
  exact spares_of_sim (Coupling.sim_functionHead (Coupling.beside_lawful _ d) ⟨rfl, hn⟩ ⟨rfl, hn⟩
    ⟨rfl, rfl, Binder.likeAll_self hparameters, TypeExpr.like_self hresult⟩) hd h

theorem walked_templateHead {head : TemplateHead} {inner : ScopeId} (st : Setting) (self : Site) (hd : d.Named)
    (hself : self.id = node.id) (hl : l = Binder.sitesAll st .typeParameter head.typeParameters ++
      Binder.sitesAll st .parameter head.parameters ++ head.result.sites st ++ [self])
    (h : templateHead scope node head d = .ok inner d') : d.Walked l d' := by
  have hn : Site.At l node.id := ⟨self, by simp [hl], hself⟩
  have htypes : Site.AllAllowed _ (Binder.sitesAll st .typeParameter head.typeParameters) :=
    allAllowed_at (l := l) (by simp [hl])
  have hparameters : Site.AllAllowed _ (Binder.sitesAll st .parameter head.parameters) :=
    allAllowed_at (l := l) (by simp [hl])
  have hresult : Site.AllAllowed _ (head.result.sites st) :=
    allAllowed_at (l := l) fun _ hs => by simp [hl, hs]
  exact spares_of_sim (Coupling.sim_templateHead (Coupling.beside_lawful _ d) ⟨rfl, hn⟩ ⟨rfl, hn⟩
    ⟨Binder.likeAll_self htypes, rfl, trivial, Binder.likeAll_self hparameters, TypeExpr.like_self hresult⟩)
    hd h

theorem walked_classHead {head : ClassHead} {c : OpenClass} {self : Site} (hd : d.Named)
    (hself : self.id = node.id) (h : classHead scope node head d = .ok c d') : d.Walked [self] d' := by
  have hn : Site.At [self] node.id := ⟨self, by simp, hself⟩
  have hlike : head.Like (.among (Site.At [self])) node node head :=
    ⟨rfl, rfl, trivial, List.forall₂_same.2 fun _ _ => ⟨rfl, trivial, rfl, hn⟩⟩
  have hsim := Coupling.sim_classHead (F := []) (s := scope) (Coupling.beside_lawful _ d) ⟨rfl, hn⟩ ⟨rfl, hn⟩
    hlike (k := pure) fun c _ _ => Coupling.sim_pure c
  rw [bind_pure] at hsim
  exact spares_of_sim hsim hd h

theorem walked_stmts {xs : List Stmt} (hd : d.Named) (h : stmts reference scope xs d = .ok () d') :
    d.Walked (Stmt.sitesAll st xs) d' :=
  spares_of_sim (Coupling.sim_stmts (Coupling.beside_lawful _ d) (fun _ => trivial) xs
    (Stmt.likeAll_self xs (allAllowed_at (List.Subset.refl _))) scope) hd h

end Walked

end Walk

/-- What is around statements is around all that is inside them. -/
theorem Stmt.suffix_nestedAll {body : List Stmt} {around : List Opener} :
    ∀ n ∈ nestedAll around body, around <:+ n.around := by
  refine (laid_nestedAll body around).reached (around <:+ ·.around)
    (List.forall_mem_map.2 fun _ _ => List.suffix_rfl) fun n _ h => List.forall_mem_map.2 fun _ _ => ?_
  exact h.trans (List.suffix_append _ _)

namespace Walk

open Opener (classes)

variable {d d' : Draft} {scope : ScopeId} {node inner : Node} {head : ClassHead} {body : List Stmt}
  {around : List Opener} {st : Setting}

theorem classes_subset {o : Opener} {n : Nested} (h : n ∈ Stmt.nestedAll (o :: around) body)
    (ho : o.kind = .cls) : [o.node] ⊆ classes n.around := by
  have hin : o ∈ n.around := (Stmt.suffix_nestedAll n h).subset List.mem_cons_self
  refine List.cons_subset.2 ⟨List.mem_map_of_mem (List.mem_filter.2 ⟨hin, by simpa⟩), List.nil_subset _⟩

/-- The head of a class makes ready for its body, in which the class is open. -/
theorem before_classBody {c : OpenClass} {self : Site} {l : List Site} {opened : List NodeId}
    (hbefore : d.Before opened (l ++ [self])) (hself : self.id = node.id)
    (hwalked : d.Walked [self] d') (hhead : HeadWalked d d' node head c) :
    d'.Before (node.id :: opened) l := by
  have hne := (distinct_append.1 hbefore.distinct).2.2
  have hbody : d'.Before opened l := hbefore.walked hwalked (List.subset_append_right _ _)
    (List.sublist_append_left _ _) fun s hs t ht => (hne t ht s hs).symm
  refine ⟨hbody.named, hbody.vacant, fun i x info n hx hn hin hkind => ?_, hbody.distinct, fun s hs => ?_⟩
  · rcases List.mem_cons.1 hin with rfl | hin
    · have hi : d.size ≤ i := by
        by_contra hlt
        obtain ⟨y, hy⟩ := Declarations.exists_item (Nat.not_le.1 hlt)
        obtain rfl : y = x := Option.some.inj ((hwalked.1.items i y hy (by simp)).symm.trans hx)
        exact hbefore.vacant self (by simp) i ⟨y, hy, hn.trans (congrArg some hself.symm)⟩
      obtain ⟨info', hkind', hown⟩ := hhead.blank i x hx hi
      cases hkind.symm.trans hkind'
      exact hown
    · exact hbody.pending i x info n hx hn hin hkind
  · rw [List.mem_cons, not_or, ← hself]
    exact ⟨hne s hs self (by simp), hbody.apart s hs⟩

/-- A class has its members when it is left, if that is so for those inside it. -/
theorem flattens_class
    (hbody : ∀ {s : ScopeId} {d d' : Draft}, stmts reference s body d = .ok () d' →
      d.Before (node.id :: classes around) (Stmt.sitesAll ⟨node.id, none⟩ body) →
      d'.FlattensAll (Stmt.sitesAll ⟨node.id, none⟩ body)
        (Stmt.nestedAll (.ofClass node inner :: around) body))
    (h : stmt reference scope (.cls node head inner body) d = .ok () d')
    (hbefore : d.Before (classes around) (Stmt.sites st (.cls node head inner body))) :
    d'.FlattensAll (Stmt.sites st (.cls node head inner body))
      (Stmt.nested around (.cls node head inner body)) := by
  rw [stmt] at h
  obtain ⟨c, d₁, hhead, h⟩ := bind_eq_ok.1 h
  obtain ⟨d₂, d₃, d₄, ht₂, hx₂, hstmts, ht₄, hx₄, hend⟩ := body_eq_ok h
  set l := Stmt.sitesAll ⟨node.id, none⟩ body with hl
  set self : Site := ⟨st, .stmt (.cls node head inner body)⟩ with hself
  have hsites : Stmt.sites st (.cls node head inner body) =
      l ++ [⟨⟨node.id, none⟩, .body inner body⟩] ++ [self] := by rw [Stmt.sites]
  rw [hsites] at hbefore ⊢
  have hclass := headWalked_of_classHead hbefore.named hhead
  have hwalked : d.Walked [self] d₁ := walked_classHead hbefore.named rfl hhead
  have hbefore₁ : d₁.Before (node.id :: classes around) l :=
    (before_classBody hbefore rfl hwalked hclass).sublist (List.sublist_append_left _ _)
  have hbefore₂ := hbefore₁.quiet ht₂
  have hinside := (hbody hstmts hbefore₂).quiet ht₄ hx₄
  have hspares : d₁.Spares [] (Site.At l) d₄ :=
    (Draft.Spares.of_eq ht₂ hx₂ []).trans
      ((walked_stmts hbefore₂.named hstmts).1.trans (.of_eq ht₄ hx₄ []))
  have hself' : ¬Site.At l node.id := by
    rintro ⟨s, hs, hid⟩
    exact hbefore₁.apart s hs (by simp [hid])
  have hoff : ∀ n ∈ node.id :: classes around, ¬Site.At l n := by
    rintro n hn ⟨s, hs, rfl⟩
    exact hbefore₁.apart s hs hn
  obtain ⟨x, info, hx, hname, hnode, hkind, hsuper⟩ := hclass.effective
  obtain ⟨found, hfound, hc⟩ := hclass.resolved
  obtain ⟨hflat, hend⟩ : d'.Flattens (classes around) node head body ∧ _ := flattens_of_classMembers
    (hbefore.apart self (by simp))
    (hbefore₁.pending.later hspares hoff) hend
    ⟨x, info, hspares.items _ x hx (by simp), hname, hnode, hkind, hsuper⟩
    ((hspares.standsAt hself' _).1 hclass.written) (fun i hi => by
      obtain ⟨y, hy, _⟩ := (hspares.standsAt hself' i).2 hi
      have hlt := Declarations.lt_size_of_getElem? hy
      have hlast := hclass.last
      simp only [Draft.size] at hlast
      omega)
    ⟨found, hfound.imp fun _ _ => hspares.resolved, hc⟩
  have hinside' := hinside.later hend (fun n hn => classes_subset hn rfl) fun _ _ => id
  intro n hn node' head' inner' body' hcls
  rcases List.mem_cons.1 hn with rfl | hn
  · cases hcls
    exact ⟨⟨self, by simp, rfl⟩, fun y hy => ⟨_, by
      simp only [List.mem_append]
      exact .inl (.inl (Stmt.mem_sitesAll _ hy)), rfl⟩, hflat⟩
  · exact (hinside'.mono (by simp)) n hn _ _ _ _ hcls

/-- The body of a function or template, with what its end owes. -/
theorem flattens_body {o : Opener} {g : Goal} {s : ScopeId} {st' : Setting}
    (hbody : ∀ {s : ScopeId} {d d' : Draft}, stmts reference s body d = .ok () d' →
      d.Before (classes around) (Stmt.sitesAll st' body) →
      d'.FlattensAll (Stmt.sitesAll st' body) (Stmt.nestedAll (o :: around) body))
    (h : (do
      enterBlock s inner
      stmts reference s body
      leaveBlock inner body
      oblige node g) d = .ok () d')
    (hbefore : d.Before (classes around) (Stmt.sitesAll st' body)) :
    d'.FlattensAll (Stmt.sitesAll st' body) (Stmt.nestedAll (o :: around) body) := by
  obtain ⟨d₁, d₂, d₃, ht₁, _, hstmts, ht₃, hx₃, hend⟩ := body_eq_ok h
  have hinside := (hbody hstmts (hbefore.quiet ht₁)).quiet ht₃ hx₃
  cases hend
  exact hinside.quiet rfl rfl

mutual

/-- All classes in a statement have their members when it has been walked. -/
theorem flattens_stmt : ∀ (x : Stmt) (around : List Opener) {st : Setting} {scope : ScopeId} {d d' : Draft},
    stmt reference scope x d = .ok () d' → d.Before (classes around) (x.sites st) →
    d'.FlattensAll (x.sites st) (x.nested around)
  | .block node body, around, st, scope, d, d', h, hbefore => by
    rw [stmt] at h
    obtain ⟨_, d₁, hopen, h⟩ := bind_eq_ok.1 h
    obtain ⟨_, d₂, henter, h⟩ := bind_eq_ok.1 h
    obtain ⟨_, d₃, hstmts, h⟩ := bind_eq_ok.1 h
    obtain ⟨ht, hx⟩ := leaveBlock_eq_ok h
    cases hopen
    cases henter
    have hbody := hbefore.sublist (List.sublist_append_left _ _)
    have hinside := flattens_stmts body (.ofBlock node :: around) hstmts
      ((hbody.opening scope .block).quiet rfl)
    exact ((hinside.quiet ht hx).mono (List.subset_append_left _ _)).cons (by simp)
  | .function node head inner body, around, st, scope, d, d', h, hbefore => by
    rw [stmt] at h
    obtain ⟨_, d₁, hhead, h⟩ := bind_eq_ok.1 h
    simp only [Stmt.sites] at hbefore ⊢
    have hwalked := walked_functionHead (head.setting node) ⟨st, .stmt (.function node head inner body)⟩
      hbefore.named rfl rfl hhead
    have hinside := flattens_body (o := .ofFunction node head inner)
      (flattens_stmts body (.ofFunction node head inner :: around)) h (hbefore.body hwalked)
    exact (hinside.mono fun _ hs => by simp [hs]).cons (by simp)
  | .template node head inner body, around, st, scope, d, d', h, hbefore => by
    rw [stmt] at h
    obtain ⟨_, d₁, hhead, h⟩ := bind_eq_ok.1 h
    simp only [Stmt.sites] at hbefore ⊢
    have hwalked := walked_templateHead (head.setting node) ⟨st, .stmt (.template node head inner body)⟩
      hbefore.named rfl rfl hhead
    have hinside := flattens_body (o := .ofTemplate node head inner)
      (flattens_stmts body (.ofTemplate node head inner :: around)) h (hbefore.body hwalked)
    exact (hinside.mono fun _ hs => by simp [hs]).cons (by simp)
  | .cls node head inner body, around, st, scope, d, d', h, hbefore =>
    flattens_class (flattens_stmts body (.ofClass node inner :: around)) h hbefore
  | .ifThen node e thenBody, around, st, scope, d, d', h, hbefore => by
    rw [stmt] at h
    obtain ⟨_, d₁, hcondition, h⟩ := bind_eq_ok.1 h
    obtain ⟨_, d₂, hthen, hend⟩ := bind_eq_ok.1 h
    simp only [Stmt.sites] at hbefore ⊢
    have hwalked : d.Walked (e.sites st (.condition "If")) d₁ := walked_condition hbefore.named hcondition
    have hinside := flattens_stmt thenBody around hthen (hbefore.second hwalked)
    cases hend
    exact ((hinside.quiet rfl rfl).mono (by simp)).cons (by simp)
  | .ifElse node e thenBody elseBody, around, st, scope, d, d', h, hbefore => by
    rw [stmt] at h
    obtain ⟨_, d₁, hcondition, h⟩ := bind_eq_ok.1 h
    obtain ⟨_, d₂, hthen, h⟩ := bind_eq_ok.1 h
    obtain ⟨_, d₃, helse, h⟩ := bind_eq_ok.1 h
    simp only [Stmt.sites] at hbefore ⊢
    have hwalked : d.Walked (e.sites st (.condition "If")) d₁ := walked_condition hbefore.named hcondition
    have hbefore₁ : d₁.Before (classes around) (thenBody.sites st ++ elseBody.sites st) := by
      rw [List.append_assoc (e.sites st _)] at hbefore
      exact hbefore.second hwalked
    have hne := (distinct_append.1 hbefore₁.distinct).2.2
    have hwalked' : d₁.Walked (thenBody.sites st) d₂ := walked_stmt thenBody hbefore₁.named hthen
    have hbefore₂ := hbefore₁.walked hwalked' (List.subset_append_left _ _)
      (List.sublist_append_right _ _) hne
    have hthen' := flattens_stmt thenBody around hthen (hbefore₁.sublist (List.sublist_append_left _ _))
    have hfirst := hthen'.walked (walked_stmt elseBody hbefore₂.named helse) hne
    have hsecond := flattens_stmt elseBody around helse hbefore₂
    have hboth := (hfirst.mono (List.subset_append_left _ (elseBody.sites st))).append
      (hsecond.mono (List.subset_append_right _ _))
    have hend : d'.tables = d₃.tables ∧ d'.diagnostics = d₃.diagnostics := by
      split at h <;> cases h <;> exact ⟨rfl, rfl⟩
    refine ((hboth.quiet hend.1 hend.2).mono fun s hs => ?_).cons (by simp)
    rw [List.append_assoc (e.sites st _)]
    exact List.mem_append_left _ (List.mem_append_right _ hs)
  | .loop node e body, around, st, scope, d, d', h, hbefore => by
    rw [stmt] at h
    obtain ⟨_, d₁, hcondition, h⟩ := bind_eq_ok.1 h
    simp only [Stmt.sites] at hbefore ⊢
    have hwalked : d.Walked (e.sites st (.condition "While")) d₁ := walked_condition hbefore.named hcondition
    have hinside := flattens_stmt body around h (hbefore.second hwalked)
    exact (hinside.mono (by simp)).cons (by simp)
  | .variable _ _, _, _, _, _, _, _, _ | .field _, _, _, _, _, _, _, _ | .struct _ _ _, _, _, _, _, _, _, _
  | .ret _ _, _, _, _, _, _, _, _ | .action _ _, _, _, _, _, _, _, _ => Draft.flattensAll_nil.cons (by simp)

theorem flattens_stmts : ∀ (body : List Stmt) (around : List Opener) {st : Setting} {scope : ScopeId}
    {d d' : Draft}, stmts reference scope body d = .ok () d' →
    d.Before (classes around) (Stmt.sitesAll st body) →
    d'.FlattensAll (Stmt.sitesAll st body) (Stmt.nestedAll around body)
  | [], _, _, _, _, _, _, _ => Draft.flattensAll_nil
  | x :: rest, around, st, scope, d, d', h, hbefore => by
    rw [stmts] at h
    obtain ⟨_, d₁, hfirst, h⟩ := bind_eq_ok.1 h
    rw [Stmt.sitesAll] at hbefore ⊢
    have hne := (distinct_append.1 hbefore.distinct).2.2
    have hwalked : d.Walked (x.sites st) d₁ := walked_stmt x hbefore.named hfirst
    have hinside := flattens_stmt x around hfirst (hbefore.sublist (List.sublist_append_left _ _))
    have hbefore₁ := hbefore.walked hwalked (List.subset_append_left _ _) (List.sublist_append_right _ _) hne
    have hrest := flattens_stmts rest around h hbefore₁
    have hlater := hinside.walked (walked_stmts hbefore₁.named h) hne
    exact (hlater.mono (List.subset_append_left _ _)).append (hrest.mono (List.subset_append_right _ _))

end

end Walk

end ScriptAnalysis
