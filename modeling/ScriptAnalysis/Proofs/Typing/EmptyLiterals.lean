import ScriptAnalysis.Proofs.Typing.Calls
import ScriptAnalysis.Proofs.Typing.Findings
import ScriptAnalysis.Proofs.Typing.Walk.Cursor

/-!
Empty literals. The type of an empty literal is the one that its own place offers: the type of the variable
whose value it is, or that of the parameter that it is passed for. Where the place offers no such container,
this is the one thing that is found at the literal, and where what would offer a type has none itself,
nothing is found (`Program.empty_literal_typed`). What is expected of an expression may as well be kept in a
cursor that is cleared around each expression: after each statement nothing is expected (`Cursored.keeps_stmt`).
-/
namespace ScriptAnalysis

/-- What a goal tells is told at its own node, or where it waits for the type. -/
theorem Goal.Tells.place {t : Tables} {node : Node} {g : Goal} {x : Diagnostic} {n : NodeId}
    (h : g.Tells t node x) (hn : x.node = some n) : node.id = n ∨ .typeOf n ∈ g.inputs node := by
  cases h with
  | initializer | valueReturn | nonAssignable | nonIntegerIndex =>
    cases hn
    exact .inr (by simp [Goal.inputs])
  | voidElement hmem | argument hmem | templateArgument hmem =>
    cases hn
    have hmem' := List.mem_map_of_mem (f := fun x : Node => Attribute.typeOf x.id) hmem
    exact .inr (by simp [Goal.inputs, hmem'])
  | logic hside | comparison hside =>
    cases hn
    rcases hside with rfl | rfl <;> exact .inr (by simp [Goal.inputs])
  | _ => exact .inl (Option.some.inj hn)

/-- Where no type fits, an empty literal has one finding. -/
theorem Reaction.told_emptyLiteral {s : Slots} {node : Node} {c : Container} {offer : Option Ty} {a : Attribute}
    (h : offer.filter (·.isContainer c) = none) :
    (emptyLiteral c node [a] offer).told s = [.atNode (.uninferableLiteral c.word) node] := by
  unfold emptyLiteral
  split
  · next t =>
    rw [if_neg (by simpa using h)]
    rfl
  · rfl

namespace Analysis

/-- What is found at a node. -/
def found (a : Analysis) (n : NodeId) : List Diagnostic := a.diagnostics.filter (·.node = some n)

/-- The type that the place of an expression offers, if it offers one; nothing is known of it if what would
offer the type has none. -/
def offered (a : Analysis) : Role → Option (Option Ty)
  | .free | .condition _ => some none
  | .value b => (a.binderType? b).map some
  | .argument callee i => (a.exprType? callee).map (·.parameter? i)

end Analysis

namespace Program.Analysed

variable {p : Program} {d : Draft} {a : Analysis} {st : Setting} {role : Role} {node : Node} {c : Container}

theorem binderType?_eq (hp : p.Numbered) (h : p.Analysed d a) {b : Binder} {id : DeclId}
    (hid : id ∈ d.tables.declarations.idsAt b.node.id) : a.binderType? b = a.declarationType? id := by
  have htype : ∀ i ∈ d.tables.declarations.idsAt b.node.id,
      a.declarationType? i = (d.names p).typeAt b.node.id := by
    intro i hi
    obtain ⟨x, hx, _⟩ := Declarations.mem_idsAt.1 hi
    rw [h.declarationType?_eq hp (Declarations.lt_size_of_getElem? hx), Drafted.declarationType_at hi]
  rw [Analysis.binderType?, Analysis.declaredBy?, h.tables, Declarations.forNode?_eq,
    List.getLast?_eq_some_getLast (List.ne_nil_of_mem hid), Option.bind_some, htype id hid]
  exact htype _ (List.getLast_mem _)

/-- At a literal without a type nothing is found but what the walk finds there and what is owed there. -/
theorem found_perm (hp : p.Numbered) (h : p.Analysed d a)
    (hs : ⟨st, .expr role (.literal node c [])⟩ ∈ p.sites)
    (hfailed : (d.names p).solution (.typeOf node.id) = some .failed) :
    (a.found node.id).Perm ((d.entry node.id).gaps ++ ((d.entry node.id).obligations.flatMap
      (Obligation.told d.tables (d.names p).solution)).filter (·.node = some node.id)) := by
  have hwalk : d.diagnostics.filter (·.node = some node.id) = (d.entry node.id).gaps := by
    refine List.filter_congr fun x hx => ?_
    obtain ⟨s, hs', hfinds, hnode⟩ := found_of_walk h.walked hx
    by_cases hid : s.id = node.id
    · obtain rfl := hp.eq_of_id hs' hs hid
      simp [show x.cause.isGap = true from hfinds]
    · simp [hnode, hid]
  have hother : ∀ o ∈ d.obligations.toList, decide (o.node.id = node.id) = false →
      (o.told d.tables (d.names p).solution).filter (·.node = some node.id) = [] := by
    intro o _ ho
    rw [List.filter_eq_nil_iff]
    intro x hx hn
    rcases (Obligation.tells_of_mem_told hx).place (of_decide_eq_true hn) with hid | hinput
    · simp [hid] at ho
    · rw [Obligation.told, Rule.told_of_failed hinput hfailed] at hx
      cases hx
  have hperm := (h.perm_told hp).filter (·.node = some node.id)
  rwa [List.filter_append, hwalk, List.filter_flatMap, ← flatMap_filter_of_nil hother,
    ← List.filter_flatMap] at hperm

theorem told_of_input (node : Node) (goal : Goal) {x : Attribute} {next : Ty → Reaction} {o : Option Ty}
    (hinputs : goal.inputs node = [x]) (hbody : goal.react d.tables node = .readType x next)
    (hx : (d.names p).solution x = some (.of .type o)) :
    Obligation.told d.tables (d.names p).solution ⟨node, goal⟩ =
      o.elim [] fun t => (next t).told (d.names p).solution := by
  cases o with
  | none => exact Rule.told_of_failed (i := x) (by simp [Obligation.rule, hinputs]) hx
  | some t =>
    have hset : ∀ i ∈ goal.inputs node, ∃ v, (d.names p).solution i = some (.set v) := by
      rw [hinputs, List.forall_mem_singleton]
      exact ⟨_, hx⟩
    rw [Obligation.told, Rule.told_of_set hset]
    show (goal.react d.tables node).told _ = _
    rw [hbody, ← Reaction.told_answered, Reaction.answered_readType (Slots.value?_eq_some.2 hx),
      Reaction.told_answered]
    rfl

/-- What is found at an empty literal without a type. -/
theorem found_eq (hp : p.Numbered) (h : p.Analysed d a)
    (hs : ⟨st, .expr role (.literal node c [])⟩ ∈ p.sites)
    (hnone : (d.names p).typeIn st role (.literal node c []) = none) :
    a.found node.id = (a.offered role).elim [] fun _ => [.atNode (.uninferableLiteral c.word) node] := by
  have hfailed : (d.names p).solution (.typeOf node.id) = some .failed := by
    have hsol := Drafted.solution_expr (d := d) hp hs
    rw [hnone] at hsol
    exact hsol
  rw [Names.typeIn, Names.type, List.isEmpty_nil, if_pos rfl] at hnone
  have hperm := h.found_perm hp hs hfailed
  have hl := h.drafted.leaves _ hs
  change Site.Leaves d _ (d.entry node.id) at hl
  generalize d.entry node.id = e at hl hperm
  cases hl with
  | @condition _ statement _ _ hl =>
    cases hl with
    | emptyFree =>
      have hnil : Obligation.told d.tables (d.names p).solution ⟨node, .condition statement⟩ = [] :=
        Rule.told_of_failed List.mem_cons_self hfailed
      simpa [Entry.owing, Entry.lacking, Entry.put, Expr.node, Analysis.offered, hnil] using hperm
  | expr hr hl =>
    cases hl with
    | emptyFree => exact List.perm_singleton.1 hperm
    | @emptyValue b _ _ id hid =>
      obtain ⟨x, hx, _⟩ := Declarations.mem_idsAt.1 hid
      have hlt := Declarations.lt_size_of_getElem? hx
      have htold := told_of_input node (.emptyForVariable c id) rfl rfl
        (Drafted.input_declaration hp h.drafted hlt).solved
      rw [Names.expectation, ← Drafted.declarationType_at hid] at hnone
      rw [Analysis.offered, h.binderType?_eq hp hid, h.declarationType?_eq hp hlt]
      simp only [Entry.owing, List.nil_append, List.flatMap_singleton, htold] at hperm
      cases hu : (d.names p).declarationType id with
      | none =>
        rw [hu] at hperm
        exact List.perm_nil.1 hperm
      | some t =>
        rw [hu] at hperm hnone
        simp only [Option.elim, Goal.outputs, Reaction.told_emptyLiteral hnone] at hperm
        simpa [Diagnostic.atNode] using hperm
    | @emptyArgument callee i =>
      have hsite : ⟨st, .expr .free callee⟩ ∈ p.sites :=
        (hp.premise hs (by simp [Site.premises, Site.ofRole])).1
      have htold := told_of_input node (.emptyForArgument c callee.id i) rfl rfl
        (Drafted.input_expr hp h.drafted hsite).solved
      rw [Names.expectation] at hnone
      rw [Analysis.offered, h.exprType?_eq hp hsite]
      simp only [Entry.owing, List.nil_append, List.flatMap_singleton, htold] at hperm
      cases hu : (d.names p).typeIn st .free callee with
      | none =>
        rw [hu] at hperm
        exact List.perm_nil.1 hperm
      | some t =>
        have hregular := Names.typeIn_regular hu
        rw [show (d.names p).type st.home none callee = some t from hu, Option.bind_eq_bind,
          Option.bind_some] at hnone
        rw [hu] at hperm
        simp only [Option.elim, Reaction.attempt, hregular.parameterAt i, Goal.outputs,
          Reaction.told_emptyLiteral hnone] at hperm
        simpa [Diagnostic.atNode] using hperm

/-- What is expected of an empty literal is what its place offers. -/
theorem expectation_eq (hp : p.Numbered) (h : p.Analysed d a)
    (hs : ⟨st, .expr role (.literal node c [])⟩ ∈ p.sites) :
    (d.names p).expectation st.home role = (a.offered role).join := by
  cases role with
  | free | condition => rfl
  | value b =>
    have hl := h.drafted.leaves _ hs
    generalize d.entry _ = e at hl
    cases hl with
    | expr _ hl =>
      cases hl with
      | emptyValue hid =>
        obtain ⟨x, hx, _⟩ := Declarations.mem_idsAt.1 hid
        rw [Names.expectation, Analysis.offered, h.binderType?_eq hp hid,
          h.declarationType?_eq hp (Declarations.lt_size_of_getElem? hx), Drafted.declarationType_at hid]
        cases (d.names p).typeAt b.node.id <;> rfl
  | argument callee i =>
    have hsite : ⟨st, .expr .free callee⟩ ∈ p.sites :=
      (hp.premise hs (by simp [Site.premises, Site.ofRole])).1
    rw [Names.expectation, Analysis.offered, h.exprType?_eq hp hsite]
    cases hu : (d.names p).typeIn st .free callee with
    | none =>
      rw [show (d.names p).type st.home none callee = none from hu]
      rfl
    | some t =>
      rw [show (d.names p).type st.home none callee = some t from hu]
      exact (Names.typeIn_regular hu).parameterType i

end Program.Analysed

/-- An empty literal has the type that its place offers, if that is such a container. Otherwise its type
fails, and just this is found there; nothing is found if what would offer a type has none itself. A cursor
for what is expected is clear again after each statement. -/
theorem Program.empty_literal_typed {tokens : List Token} {file : String} {p : Program} {k : Cursor}
    {a : Analysis} (h : Program.parse tokens file = .ok p k) (ha : p.analyse = .ok a) {st : Setting}
    {role : Role} {node : Node} {c : Container} (hs : ⟨st, .expr role (.literal node c [])⟩ ∈ p.sites) :
    (∀ t, a.offered role = some (some t) → t.isContainer c = true →
      a.attributes.slot? (.typeOf node.id) = some (.set (.type t))) ∧
    (∀ offer, a.offered role = some offer → (∀ t, offer = some t → t.isContainer c = false) →
      a.attributes.slot? (.typeOf node.id) = some .failed ∧
      a.found node.id = [.atNode (.uninferableLiteral c.word) node]) ∧
    (a.offered role = none → a.attributes.slot? (.typeOf node.id) = some .failed ∧ a.found node.id = []) ∧
    ∀ scope s, (Cursored.stmt s).run ⟨scope, .free⟩ =
      (·, ⟨scope, .free⟩) <$> Walk.stmt Walk.reference scope s := by
  have hp := numbered_of_parse h
  obtain ⟨d, a', ha', hd⟩ := analysed hp
  obtain rfl : a = a' := by simpa [ha] using ha'
  have hslot : a.attributes.slot? (.typeOf node.id) = _ :=
    hd.slot?_of_input (Drafted.input_expr hp hd.drafted hs)
  have htype : (d.names p).typeIn st role (.literal node c []) =
      (a.offered role).join.filter (·.isContainer c) := by
    rw [Names.typeIn, Names.type, List.isEmpty_nil, if_pos rfl, hd.expectation_eq hp hs]
  have hunfit : (a.offered role).join.filter (·.isContainer c) = none →
      a.attributes.slot? (.typeOf node.id) = some .failed ∧ a.found node.id =
        (a.offered role).elim [] fun _ => [.atNode (.uninferableLiteral c.word) node] := by
    intro hnone
    rw [hnone] at htype
    rw [htype] at hslot
    exact ⟨hslot, hd.found_eq hp hs htype⟩
  refine ⟨fun t hoffer hfit => ?_, fun offer hoffer hnone => ?_, fun hoffer => ?_, Cursored.keeps_stmt⟩
  · rw [hslot, htype, hoffer]
    simp [Option.filter, hfit, Slot.of]
  · rw [hoffer] at hunfit
    refine hunfit ?_
    simpa [Option.filter_eq_none_iff] using hnone
  · rw [hoffer] at hunfit
    exact hunfit rfl

def emptyText : String := "fun f(x: Int[]): Int \x7b return 0 \x7d f([])"

/-- Whether a site is an empty literal at a place that offers a type for it. -/
def Site.fits (a : Analysis) (s : Site) : Bool :=
  match s.part with
  | .expr role (.literal _ c []) => (a.offered role).join.any (·.isContainer c)
  | _ => false

theorem Program.empty_literal_typed_argument :
    ∃ tokens p k a, Token.tokenize emptyText "empty" = .ok tokens ∧
      Program.parse tokens "empty" = .ok p k ∧ p.analyse = .ok a ∧
      ∃ st role node c t, ⟨st, .expr role (.literal node c [])⟩ ∈ p.sites ∧ t.isContainer c = true ∧
        a.attributes.slot? (.typeOf node.id) = some (.set (.type t)) := by
  obtain ⟨tokens, p, k, a, htokens, hparse, ha, _, htest⟩ :=
    Program.exists_of_accepts 10 "empty" emptyText (fun p a => p.sites.any (·.fits a)) (by decide +kernel)
  obtain ⟨⟨st, part⟩, hs, hpart⟩ := List.any_eq_true.1 htest
  unfold Site.fits at hpart
  split at hpart
  · next role node c heq =>
    obtain rfl : part = _ := heq
    obtain ⟨t, hoffer, ht⟩ := (Option.any_eq_true _ _).1 hpart
    exact ⟨tokens, p, k, a, htokens, hparse, ha, st, role, node, c, t, hs, ht,
      (Program.empty_literal_typed hparse ha hs).1 t (Option.join_eq_some_iff.1 hoffer) ht⟩
  · cases hpart

end ScriptAnalysis
