import ScriptAnalysis.Proofs.Tree.SelfLike
import ScriptAnalysis.Proofs.Typing.Walk.Relaid

/-!
Walks over a program and over the same program with a callee in parentheses. Both make the same draft but
for what is owed: there is one more type to be copied, the call looks at the parentheses, and the texts of
callees may differ (`Obligation.Amends`, `Program.amends_of_walk`).
-/
namespace ScriptAnalysis

inductive Goal.Rewords (c : NodeId) : Goal → Goal → Prop
  | same {g} (h : ∀ callee arguments, g = .call callee arguments → callee.id ≠ c) : Rewords c g g
  | call {callee : Callee} {text arguments} (h : callee.id ≠ c) :
      Rewords c (.call callee arguments) (.call { callee with text := text } arguments)
  | templateCall {callee text text' types arguments} :
      Rewords c (.templateCall callee text types arguments) (.templateCall callee text' types arguments)

inductive Goal.Wraps (c m : NodeId) : Goal → Goal → Prop
  | call {callee : Callee} {text arguments} (h : callee.id = c) :
      Wraps c m (.call callee arguments) (.call { callee with id := m, text := text } arguments)
  | argument {k index} : Wraps c m (.emptyForArgument k c index) (.emptyForArgument k m index)

/-- What is owed with a callee in parentheses, beside what is owed without them. The flag tells whether the
type of the parentheses is owed; only then something may be left to them. -/
inductive Obligation.Amends (c : NodeId) (m : Node) : Bool → List Obligation → List Obligation → Prop
  | nil : Amends c m false [] []
  | reworded {b os os' n g g'} (h : Amends c m b os os') (hg : g.Rewords c g') :
      Amends c m b (os ++ [⟨n, g⟩]) (os' ++ [⟨n, g'⟩])
  | copied {b os os'} (h : Amends c m b os os') :
      Amends c m true os (os' ++ [⟨m, .copy (.typeOf c) (.typeOf m.id)⟩])
  | wrapped {os os' n g g'} (h : Amends c m true os os') (hg : g.Wraps c m.id g') :
      Amends c m true (os ++ [⟨n, g⟩]) (os' ++ [⟨n, g'⟩])

inductive Expectation.Amends (c m : NodeId) : Bool → Expectation → Expectation → Prop
  | same {b x} : Amends c m b x x
  | argument {i} : Amends c m true (.argument c i) (.argument m i)

/-- The nodes of a tree, each related to itself, and calls of other callees than the given one. -/
def Placing.sparing (c : NodeId) : Placing := { Placing.identity with calls := (· ≠ c) }

theorem Site.allowed_sparing {c : NodeId} (s : Site) : s.Allowed (.sparing c) :=
  s.allowed_of rfl rfl (fun _ => rfl) (fun _ => trivial) fun _ => trivial

theorem TypeExpr.like_sparing {c : NodeId} (t : TypeExpr) : t.Like (.sparing c) t := by
  have h : Site.AllAllowed (.sparing c) (t.sites ⟨⟨0⟩, none⟩) := fun s _ => s.allowed_sparing
  exact like_self h

theorem Goal.Like.rewords {c : NodeId} {g g' : Goal} (h : g.Like (.sparing c) g') : g.Rewords c g' := by
  obtain rfl := h.eq id
  refine .same fun callee arguments hg => ?_
  subst hg
  cases h with
  | plain h => cases h
  | call hcallee => exact hcallee

namespace Coupling

/-- Drafts that differ in what is owed, as it is amended by parentheses around a callee. With the flag, the
type of the parentheses is owed already. -/
def amended (c : NodeId) (m : Node) (b : Bool) : Coupling := fun _ d d' =>
  ∃ os', d' = { d with obligations := os' } ∧
    ∃ b', (b = true → b' = true) ∧ Obligation.Amends c m b' d.obligations.toList os'.toList

variable {c : NodeId} {m : Node} {b : Bool} {F : List (String × DeclId)} {s : ScopeId} {n : Node}

theorem sim_reworded {g g' : Goal} (hg : g.Rewords c g') :
    (amended c m b).Sim F (Walk.oblige n g) (Walk.oblige n g') := by
  rintro d _ _ _ ⟨os', rfl, b', hb, h⟩ ⟨⟩
  refine ⟨_, rfl, os'.push ⟨n, g'⟩, rfl, b', hb, ?_⟩
  simp only [Array.toList_push]
  exact h.reworded hg

theorem sim_wrapped {g g' : Goal} (hg : g.Wraps c m.id g') :
    (amended c m true).Sim F (Walk.oblige n g) (Walk.oblige n g') := by
  rintro d _ _ _ ⟨os', rfl, b', hb, h⟩ ⟨⟩
  refine ⟨_, rfl, os'.push ⟨n, g'⟩, rfl, b', hb, ?_⟩
  simp only [Array.toList_push]
  obtain rfl := hb rfl
  exact h.wrapped hg

/-- From where the type of the parentheses is owed on, goals may be left to them. -/
theorem sim_copied {k k' : Walk Unit} (h : (amended c m true).Sim F k k') :
    (amended c m b).Sim F k
      (do Walk.oblige m (.copy (.typeOf c) (.typeOf m.id))
          k') := by
  rintro d _ a e ⟨os', rfl, b', _, hos⟩ he
  obtain ⟨e', he', os'', rfl, b'', hb, hamends⟩ :=
    h d { d with obligations := os'.push ⟨m, .copy (.typeOf c) (.typeOf m.id)⟩ } a e
      ⟨_, rfl, true, fun _ => rfl, by simpa using hos.copied⟩ he
  exact ⟨_, he', os'', rfl, b'', fun _ => hb rfl, hamends⟩

theorem amended_lawful : (amended c m b).Lawful (.sparing c) where
  scopes := by
    rintro _ d _ ⟨_, rfl, _⟩
    rfl
  declarations := by
    rintro _ d _ ⟨_, rfl, _⟩
    rfl
  forget _ h := h
  write f := by
    rintro ⟨os', rfl, h⟩
    exact ⟨os', rfl, h⟩
  tell cause := by
    rintro ⟨os', rfl, h⟩ rfl
    exact ⟨os', rfl, h⟩
  owe := by
    rintro F d d' n n' g g' h ho
    obtain ⟨rfl, hg⟩ : n = n' ∧ g.Rewords c g' := by
      cases ho with
      | place hn hg => exact ⟨hn, hg.rewords⟩
      | block hn => exact ⟨hn, .same fun _ _ h => nomatch h⟩
    obtain ⟨_, he, hR⟩ := sim_reworded (n := n) hg d d' () _ h rfl
    cases he
    exact hR
  opening s k := by
    rintro ⟨os', rfl, h⟩
    exact ⟨os', rfl, h⟩
  bind := by
    rintro _ d _ _ _ _ _ ⟨os', rfl, h⟩ _ _
    exact ⟨os', rfl, h⟩
  declaring name k := by
    rintro ⟨os', rfl, h⟩ rfl
    exact ⟨os', rfl, h⟩
  listing sig i := by
    rintro ⟨os', rfl, h⟩
    exact ⟨os', rfl, h⟩
  modify := by
    rintro _ d _ _ _ _ _ _ ⟨os', rfl, h⟩ _ _ ht ht'
    obtain rfl := Except.ok.inj (ht.symm.trans ht')
    exact ⟨os', rfl, h⟩

theorem sim_emptyLiteral_amended {x x' : Expectation} (hx : x.Amends c m.id b x') (k : Container) :
    (amended c m b).Sim F (Walk.emptyLiteral n k x) (Walk.emptyLiteral n k x') := by
  cases hx with
  | same => exact sim_emptyLiteral amended_lawful rfl k x
  | argument => exact sim_wrapped .argument

mutual

/-- A callee in parentheses is walked as it would be without them. -/
theorem sim_parenthesise (c : NodeId) (m : Node) (s : ScopeId) : ∀ (e : Expr) {F} {b : Bool}
    {x x' : Expectation}, x.Amends c m.id b x' → (amended c m b).Sim F (Walk.expr Walk.reference s x e)
      (Walk.expr Walk.reference s x' (e.parenthesise c m))
  | .int _ _, _, _, _, _, _ | .float _ _, _, _, _, _, _ | .string _ _, _, _, _, _, _ =>
    sim_setAttribute amended_lawful rfl _
  | .symbol _, _, _, _, _, _ => sim_reference amended_lawful ⟨rfl, rfl, trivial⟩
  | .construct _ _ _, _, _, _, _, _ =>
    (sim_reference amended_lawful ⟨rfl, rfl, trivial⟩).bind fun _ => sim_reworded (.same fun _ _ h => nomatch h)
  | .paren _ e, _, _, _, _, _ => by
    refine (sim_parenthesise c m s e .same).bind fun _ => ?_
    rw [e.id_parenthesise]
    exact sim_reworded (.same fun _ _ h => nomatch h)
  | .literal _ k [], _, _, _, _, hx => sim_emptyLiteral_amended hx k
  | .literal _ k (e :: es), _, _, _, _, _ => by
    refine (sim_parenthesiseAll c m s (e :: es)).bind fun _ => ?_
    rw [Expr.map_node_parenthesiseAll]
    exact sim_reworded (.same fun _ _ h => nomatch h)
  | .not _ e, _, _, _, _, _ => by
    refine (sim_parenthesise c m s e .same).bind fun _ => ?_
    rw [e.id_parenthesise]
    exact sim_typed amended_lawful rfl _ (.plain rfl)
  | .binary _ op l r, _, _, _, _, _ => by
    refine (sim_parenthesise c m s l .same).bind fun _ => (sim_parenthesise c m s r .same).bind fun _ => ?_
    unfold Walk.binary
    rw [l.id_parenthesise, r.id_parenthesise, l.node_parenthesise, r.node_parenthesise]
    cases op.family with
    | arithmetic => exact sim_reworded (.same fun _ _ h => nomatch h)
    | equality => exact sim_typed amended_lawful rfl _ (.plain rfl)
    | comparison => exact sim_typed amended_lawful rfl _ (.comparison rfl rfl)
    | logic => exact sim_typed amended_lawful rfl _ (.logic rfl rfl)
  | .assign _ l r, _, _, _, _, _ => by
    refine (sim_parenthesise c m s l .same).bind fun _ => (sim_parenthesise c m s r .same).bind fun _ => ?_
    rw [l.node_parenthesise, l.isPlace_parenthesise, r.id_parenthesise]
    exact sim_reworded (.same fun _ _ h => nomatch h)
  | .index _ l r, _, _, _, _, _ => by
    refine (sim_parenthesise c m s l .same).bind fun _ => (sim_parenthesise c m s r .same).bind fun _ => ?_
    rw [l.id_parenthesise, r.node_parenthesise]
    exact sim_reworded (.same fun _ _ h => nomatch h)
  | .member _ _ e _, _, _, _, _, _ => by
    refine (sim_parenthesise c m s e .same).bind fun _ => ?_
    rw [e.id_parenthesise]
    exact sim_reworded (.same fun _ _ h => nomatch h)
  | .templateCall _ e ts es, _, _, _, _, _ => by
    refine (sim_parenthesise c m s e .same).bind fun _ => ?_
    rw [e.id_parenthesise, Expr.map_node_parenthesiseAll]
    exact (sim_forM (List.forall₂_same.2 fun _ _ => rfl) fun t _ ht =>
      ht ▸ sim_typeExpr amended_lawful t.like_sparing).bind fun _ =>
      (sim_parenthesiseArguments c m s es (fun _ => .same) 0).bind fun _ => sim_reworded .templateCall
  | .call n e es, _, b, _, x', _ => by
    by_cases hc : e.id = c
    · have hwalk : Walk.expr Walk.reference s x' (.parenthesise c m (.call n e es)) = (do
          Walk.expr Walk.reference s .free (e.parenthesise c m)
          Walk.oblige m (.copy (.typeOf c) (.typeOf m.id))
          Walk.exprArguments Walk.reference s m.id 0 (Expr.parenthesiseAll c m es)
          Walk.oblige n (.call { Callee.of e with
            id := m.id, text := (Expr.paren m (e.parenthesise c m)).render } (es.map Expr.node))) := by
        rw [Expr.parenthesise, if_pos hc, Walk.expr, Walk.expr, bind_assoc, e.id_parenthesise, hc,
          Callee.of_paren_parenthesise, Expr.map_node_parenthesiseAll]
        rfl
      rw [hwalk, Walk.expr]
      refine (sim_parenthesise c m s e .same).bind fun _ => sim_copied ?_
      rw [hc]
      exact (sim_parenthesiseArguments c m s es (fun _ => .argument) 0).bind fun _ => sim_wrapped (.call hc)
    · rw [Expr.parenthesise, if_neg hc, Walk.expr, Walk.expr, e.id_parenthesise, Callee.of_parenthesise,
        Expr.map_node_parenthesiseAll]
      exact (sim_parenthesise c m s e .same).bind fun _ =>
        (sim_parenthesiseArguments c m s es (fun _ => .same) 0).bind fun _ => sim_reworded (.call hc)

theorem sim_parenthesiseAll (c : NodeId) (m : Node) (s : ScopeId) : ∀ (es : List Expr) {F} {b : Bool},
    (amended c m b).Sim F (Walk.exprs Walk.reference s es)
      (Walk.exprs Walk.reference s (Expr.parenthesiseAll c m es))
  | [], _, _ => sim_pure ()
  | e :: es, _, _ => (sim_parenthesise c m s e .same).bind fun _ => sim_parenthesiseAll c m s es

theorem sim_parenthesiseArguments (c : NodeId) (m : Node) (s : ScopeId) {callee callee' : NodeId} :
    ∀ (es : List Expr) {F} {b : Bool} (_ : ∀ i, (Expectation.argument callee i).Amends c m.id b (.argument callee' i))
    (i : Nat), (amended c m b).Sim F (Walk.exprArguments Walk.reference s callee i es)
      (Walk.exprArguments Walk.reference s callee' i (Expr.parenthesiseAll c m es))
  | [], _, _, _, _ => sim_pure ()
  | e :: es, _, _, hx, i =>
    (sim_parenthesise c m s e (hx i)).bind fun _ => sim_parenthesiseArguments c m s es hx (i + 1)

end

end Coupling

/-- Parentheses around a callee only amend what is owed. -/
theorem Program.amends_of_walk {p : Program} {d : Draft} (hd : p.walk Walk.reference {} = .ok () d)
    (c : NodeId) (m : Node) :
    ∃ os', (p.parenthesise c m).walk Walk.reference {} = .ok () { d with obligations := os' } ∧
      ∃ b, Obligation.Amends c m b d.obligations.toList os'.toList := by
  have hallowed : Site.AllAllowed (.sparing c) (Stmt.sitesAll p.setting p.body) :=
    fun s _ => s.allowed_sparing
  have hsim : (Coupling.amended c m false).Sim [] (Walk.programWith Walk.reference p)
      (Walk.programWith Walk.reference (p.parenthesise c m)) :=
    (Coupling.sim_setAttribute Coupling.amended_lawful rfl _).bind fun _ =>
      Coupling.sim_mapExprsAll Coupling.amended_lawful (Expr.node_parenthesise c m)
        (fun s _ e => Coupling.sim_parenthesise c m s e .same) p.body (Stmt.likeAll_self _ hallowed) _
  obtain ⟨_, hwalk, os', rfl, b, _, h⟩ := hsim.walk (fun first _ hobligations =>
    ⟨#[], by rw [← hobligations], false, id, by rw [hobligations]; exact .nil⟩) hd
  exact ⟨os', hwalk, b, h⟩

end ScriptAnalysis
