import ScriptAnalysis.Proofs.Typing.Walk.Coupling

/-!
Walks over trees that differ in places only. They make the same tables, up to the places of declarations,
the same attributes, and obligations and findings that are alike one by one (`Program.relaid_of_like`).
-/
namespace ScriptAnalysis

variable {K : Placing}

structure Draft.Relaid (K : Placing) (d d' : Draft) : Prop where
  tables : d.tables.Alike d'.tables
  attributes : d.attributes = d'.attributes
  diagnostics : List.Forall₂ (Diagnostic.Like K.place) d.diagnostics d'.diagnostics
  obligations : List.Forall₂ (Obligation.Like K) d.obligations.toList d'.obligations.toList

namespace Coupling

def relaid (K : Placing) : Coupling := fun _ => Draft.Relaid K

/-- Each step of a walk keeps drafts relaid. -/
theorem relaid_lawful (K : Placing) : (relaid K).Lawful K where
  scopes h := h.tables.scopes
  declarations h := h.tables.declarations
  forget _ h := h
  write f h := { h with attributes := congrArg f h.attributes }
  tell _ h hn := { h with diagnostics := List.rel_append h.diagnostics (.cons (.atNode hn) .nil) }
  owe h ho :=
    { h with
      obligations := by
        simp only [Draft.owe, Array.toList_push]
        exact List.rel_append h.obligations (.cons ho .nil) }
  opening s k h :=
    { h with tables := { h.tables with scopes := congrArg (fun t => (ScopeTable.push t s k).1) h.tables.scopes } }
  bind h _ _ := { h with tables := { h.tables with scopes := rfl } }
  declaring name k h hn :=
    { h with
      tables :=
        { h.tables with
          declarations := by
            simp only [Draft.declaring, Declarations.unplaced_add, h.tables.declarations,
              Declaration.ofNode, Declaration.unplaced, K.place_id hn] } }
  listing sig i h :=
    { h with tables := { h.tables with signatures := congrArg (Signatures.register · sig i) h.tables.signatures } }
  modify _ h _ hf ht ht' :=
    { h with
      tables :=
        { h.tables with
          declarations := by
            obtain ⟨u, hu, htu⟩ := Declarations.follows_modify h.tables.declarations _ hf.unplaced _ ht
            rw [ht'] at hu
            cases hu
            exact htu } }

end Coupling

/-- The draft in which the walk over any program comes to its root. -/
theorem Walk.exists_opened : ∃ first, Builtin.declareAll {} = .ok () first ∧
    first.Opened Builtin.all ∧ first.diagnostics = [] ∧ first.obligations = #[] := by
  obtain ⟨_, first, hfirst, hopened⟩ := reaches_declareAll
  have hlater : Draft.Later [] {} first := Adds.later (does_declareAll Change.plain_le_allowed) hfirst
  refine ⟨first, hfirst, hopened, ?_, ?_⟩
  · rw [List.eq_nil_iff_forall_not_mem]
    intro x hx
    rcases hlater.told x hx with hx | ⟨s, hs, _⟩
    · cases hx
    · cases hs
  · rw [Array.eq_empty_iff_forall_not_mem]
    intro o ho
    have hnone : (first.entry o.node.id).obligations = [] := by rw [hopened.fresh]
    have hmem : o ∈ first.obligations.toList.filter (·.node.id = o.node.id) := by simpa using ho
    rw [show first.obligations.toList.filter (·.node.id = o.node.id) = [] from hnone] at hmem
    cases hmem

/-- Walks over programs that correspond from their roots on end in drafts that correspond. -/
theorem Coupling.Sim.walk {C : Coupling} {p p' : Program}
    (h : C.Sim [] (Walk.programWith Walk.reference p) (Walk.programWith Walk.reference p'))
    (hstart : ∀ first : Draft, first.diagnostics = [] → first.obligations = #[] → C [] first first)
    {d : Draft} (hd : p.walk Walk.reference {} = .ok () d) :
    ∃ d', p'.walk Walk.reference {} = .ok () d' ∧ C [] d d' := by
  obtain ⟨first, hfirst, _, hdiagnostics, hobligations⟩ := Walk.exists_opened
  have hwalk : Walk.programWith Walk.reference p first = .ok () d := (Walk.bind_of_ok hfirst).symm.trans hd
  obtain ⟨d', hd', hC⟩ := h first first () d (hstart first hdiagnostics hobligations) hwalk
  exact ⟨d', (Walk.bind_of_ok hfirst).trans hd', hC⟩

theorem Program.relaid_of_like (hK : ∀ i, K.calls i) {p p' : Program} (h : p.Like K p') {d : Draft}
    (hd : p.walk Walk.reference {} = .ok () d) :
    ∃ d', p'.walk Walk.reference {} = .ok () d' ∧ d.Relaid K d' := by
  have hsim : (Coupling.relaid K).Sim [] (Walk.programWith Walk.reference p)
      (Walk.programWith Walk.reference p') :=
    (Coupling.sim_setAttribute (Coupling.relaid_lawful K) (congrArg _ h.node) _).bind fun _ =>
      Coupling.sim_stmts (Coupling.relaid_lawful K) hK p.body h.body _
  refine hsim.walk (fun first hdiagnostics hobligations => ⟨.refl _, rfl, ?_, ?_⟩) hd
  · rw [hdiagnostics]
    exact .nil
  · rw [hobligations]
    exact .nil

end ScriptAnalysis
