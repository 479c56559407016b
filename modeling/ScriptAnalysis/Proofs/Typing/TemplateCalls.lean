import ScriptAnalysis.Proofs.Typing.Calls
import ScriptAnalysis.Proofs.Typing.Findings

/-!
Calls with type arguments. A template lists its type parameters in front of the parameters for values
(`Ty.Framed`), as placeholders of different declarations. A call puts the type arguments in for all of them
at once (`Ty.Instance`), in the result type and in what is expected of each argument; an argument that does
not fit has one finding (`Program.template_call_instantiated`).
-/
namespace ScriptAnalysis

namespace Ty

/-- A written type and what becomes of it when the types that are given take the places of placeholders, the
type at an index that of the placeholder there. What is put in is not looked at again. -/
inductive Instance (own : List DeclId) (given : List Ty) : Ty → Ty → Prop
  | primitive {q} : Instance own given (.primitive q) (.primitive q)
  | composite {c m} : Instance own given (.composite c m) (.composite c m)
  | bound {m u} {i : Nat} (hm : own[i]? = some m.declaration) (hu : given[i]? = some u) :
      Instance own given (.placeholder m) u
  | free {m} (h : m.declaration ∉ own) : Instance own given (.placeholder m) (.placeholder m)
  | container {c s t} (h : Instance own given s t) : Instance own given (.container c s) (.container c t)

/-- The placeholder of a declaration occurs in a type. -/
inductive Occurs (id : DeclId) : Ty → Prop
  | placeholder {m} (h : m.declaration = id) : Occurs id (.placeholder m)
  | container {c t} (h : Occurs id t) : Occurs id (.container c t)
  | result {r ps} (h : Occurs id r) : Occurs id (.function r ps)
  | parameter {r ps q} (hq : q ∈ ps) (h : Occurs id q) : Occurs id (.function r ps)
  | templateResult {r k ps} (h : Occurs id r) : Occurs id (.template r k ps)
  | templateParameter {r k ps q} (hq : q ∈ ps) (h : Occurs id q) : Occurs id (.template r k ps)

variable {own : List DeclId} {given : List Ty} {s t : Ty}

/-- A placeholder that is replaced is left only where a type that is given brings it in. -/
theorem Instance.exists_occurs (h : Instance own given s t) {id : DeclId} (hid : id ∈ own)
    (ht : t.Occurs id) : ∃ u ∈ given, u.Occurs id := by
  induction h with
  | primitive | composite => cases ht
  | bound _ hu => exact ⟨_, List.mem_of_getElem? hu, ht⟩
  | free h =>
    cases ht with
    | placeholder hm => exact absurd (hm ▸ hid) h
  | container _ ih =>
    cases ht with
    | container ht => exact ih ht

/-- The types that are given, each for the placeholder at its place. -/
def Bindings.of (own : List Nominal) (given : List Ty) : Bindings := (own.map Nominal.declaration).zip given

theorem placeholderBindings_map (own : List Nominal) (given : List Ty) :
    Goal.placeholderBindings (own.map .placeholder) given = .of own given := by
  induction own generalizing given with
  | nil => rfl
  | cons m own ih =>
    cases given with
    | nil => rfl
    | cons u given => exact congrArg _ (ih given)

/-- Substitution puts all types in at once. -/
theorem Plain.instance_substitute {n : Nat} {own : List Nominal} (hlen : own.length = given.length) :
    ∀ {t : Ty}, t.Plain n → Instance (own.map Nominal.declaration) given t (t.substitute (.of own given))
  | .primitive _, _ => by
    rw [Ty.substitute]
    exact .primitive
  | .composite _ _, _ => by
    rw [Ty.substitute]
    exact .composite
  | .container _ a, h => by
    rw [Ty.substitute]
    exact .container (Plain.instance_substitute hlen (t := a) h)
  | .placeholder m, _ => by
    rw [Ty.substitute]
    cases hl : (Bindings.of own given).lookup m.declaration with
    | none =>
      refine .free fun hm => ?_
      have hfst : (Bindings.of own given).map Prod.fst = own.map Nominal.declaration :=
        List.map_fst_zip (by simp [hlen])
      rw [← hfst] at hm
      obtain ⟨b, hb, hid⟩ := List.mem_map.1 hm
      simpa [hid] using List.lookup_eq_none_iff.1 hl b hb
    | some u =>
      obtain ⟨before, after, hsplit, _⟩ := List.lookup_eq_some_iff.1 hl
      have hmem : (m.declaration, u) ∈ Bindings.of own given := by simp [hsplit]
      obtain ⟨i, hi⟩ := List.mem_iff_getElem?.1 hmem
      obtain ⟨hm, hu⟩ := List.getElem?_zip_eq_some.1 hi
      exact .bound hm hu

/-- In a template, or a container of templates, placeholders of different declarations come first. -/
def Framed : Ty → Prop
  | .container _ a => a.Framed
  | .template _ k ps => ∃ own : List Nominal, own.length = k ∧ ps.take k = own.map .placeholder ∧
      (own.map Nominal.declaration).Nodup
  | _ => True

theorem Plain.framed {n : Nat} : ∀ {t : Ty}, t.Plain n → t.Framed
  | .primitive _, _ | .placeholder _, _ | .composite _ _, _ => trivial
  | .container _ a, h => Plain.framed (t := a) h

end Ty

theorem Builtin.framed_type : ∀ b ∈ Builtin.all, b.type.Framed := by
  simp [all, types, modifiers, values, functions, setFunctions, Ty.Framed]

/-- All templates that evaluation comes to are declared ones. -/
theorem Names.kept_framed {N : Names} (hN : ∀ n t, N.typeAt n = some t → t.Framed) :
    N.Kept fun t => t.Regular N.tables.declarations.size ∧ t.Framed where
  regular h := h.1
  plain h := ⟨h.regular, h.framed⟩
  container := and_congr_left' kept_regular.container
  declared := by
    intro id t h
    refine ⟨declarationType_regular h, ?_⟩
    obtain ⟨x, _, h⟩ := Option.bind_eq_some_iff.1 h
    split at h
    · obtain ⟨b, hb, h⟩ := Option.bind_eq_some_iff.1 h
      cases h
      exact Builtin.framed_type b (List.mem_of_getElem? hb)
    · exact hN _ t h
  constructed := by
    intro c id t h
    refine ⟨constructorType_regular h, ?_⟩
    obtain ⟨x, _, h⟩ := Option.bind_eq_some_iff.1 h
    obtain ⟨fields, _, h⟩ := Option.bind_eq_some_iff.1 h
    obtain ⟨r, _, h⟩ := Option.bind_eq_some_iff.1 h
    obtain ⟨ps, _, h⟩ := Option.bind_eq_some_iff.1 h
    cases h
    trivial

/-- Types that are placeholders of what is declared at different nodes. -/
theorem exists_placeholders {t : Declarations} {bs : List Binder} {ts : List Ty}
    (h : List.Forall₂ (fun b u => ∃ m : Nominal, u = .placeholder m ∧ m.declaration ∈ t.idsAt b.node.id) bs ts)
    (hbs : bs.Pairwise fun b b' => b.node.id ≠ b'.node.id) :
    ∃ own : List Nominal, ts = own.map .placeholder ∧ (own.map Nominal.declaration).Nodup ∧
      ∀ m ∈ own, ∃ b ∈ bs, m.declaration ∈ t.idsAt b.node.id := by
  induction h with
  | nil => exact ⟨[], rfl, .nil, by simp⟩
  | @cons b u bs ts hu _ ih =>
    obtain ⟨m, rfl, hm⟩ := hu
    obtain ⟨hb, hbs⟩ := List.pairwise_cons.1 hbs
    obtain ⟨own, rfl, hnodup, hown⟩ := ih hbs
    refine ⟨m :: own, rfl, List.nodup_cons.2 ⟨fun hmem => ?_, hnodup⟩, ?_⟩
    · obtain ⟨m', hm', heq⟩ := List.mem_map.1 hmem
      obtain ⟨b', hb', hid⟩ := hown m' hm'
      rw [heq] at hid
      obtain ⟨x, hx, hxb⟩ := Declarations.mem_idsAt.1 hm
      obtain ⟨y, hy, hyb⟩ := Declarations.mem_idsAt.1 hid
      obtain rfl : x = y := Option.some.inj (hx.symm.trans hy)
      exact hb b' hb' (Option.some.inj (hxb.symm.trans hyb))
    · rw [List.forall_mem_cons]
      refine ⟨⟨b, List.mem_cons_self, hm⟩, fun m' hm' => ?_⟩
      obtain ⟨b', hb', hid⟩ := hown m' hm'
      exact ⟨b', List.mem_cons_of_mem b hb', hid⟩

namespace Program.Drafted

variable {p : Program} {d : Draft} {t : Ty}

theorem exists_placeholder (hd : p.Drafted d) {st : Setting} {b : Binder} {id : DeclId} {u : Ty}
    (hs : ⟨st, .binder .typeParameter b⟩ ∈ p.sites) (hid : d.tables.declarations.forNode? b.node.id = some id)
    (hu : d.tables.introduced id = some u) :
    ∃ m : Nominal, u = .placeholder m ∧ m.declaration ∈ d.tables.declarations.idsAt b.node.id := by
  have hl := hd.leaves _ hs
  generalize he : d.entry _ = e at hl
  cases hl with
  | @typeParameter _ _ id' h =>
    have hids : d.tables.declarations.idsAt b.node.id = [id'] := congrArg Entry.declared he
    obtain rfl : id' = id := by simpa [Declarations.forNode?_eq, hids] using hid
    rw [introduced_typeParameter h, Option.some.injEq] at hu
    exact ⟨_, hu.symm, by simp [hids]⟩

theorem framed_typeAt (hp : p.Numbered) (hd : p.Drafted d) {n : NodeId}
    (h : (d.names p).typeAt n = some t) : t.Framed := by
  obtain ⟨s, hsite, h⟩ := Option.bind_eq_some_iff.1 h
  have hs : s ∈ p.sites := List.mem_of_find?_eq_some hsite
  split at h
  · cases h
    trivial
  · cases h
    trivial
  · cases h
    trivial
  · exact (Names.writtenType_plain h).framed
  · exact (Names.writtenType_plain h).framed
  · exact (Names.writtenType_plain h).framed
  · obtain ⟨r, _, h⟩ := Option.bind_eq_some_iff.1 h
    obtain ⟨ps, _, h⟩ := Option.bind_eq_some_iff.1 h
    cases h
    trivial
  · next node head inner body hpart =>
    obtain ⟨r, _, h⟩ := Option.bind_eq_some_iff.1 h
    obtain ⟨ts, hts, h⟩ := Option.bind_eq_some_iff.1 h
    obtain ⟨ps, _, h⟩ := Option.bind_eq_some_iff.1 h
    cases h
    obtain ⟨st, part⟩ := s
    obtain rfl : part = _ := hpart
    have hdistinct := hp.distinct_parts hs
    simp only [Site.Distinct, Site.parts, Site.premises, Site.ofStmt, List.append_assoc,
      List.pairwise_append, List.pairwise_map] at hdistinct
    have hbinder : ∀ b ∈ head.typeParameters, ⟨head.setting node, .binder .typeParameter b⟩ ∈ p.sites :=
      fun b hb => (hp.premise hs (by simp [Site.premises, Site.ofStmt, hb])).1
    have hplaceholders := ((List.forall₂_and_left _ _).2 ⟨hbinder, mapM_eq_some_iff.1 hts⟩).imp
      fun b u hu => by
        obtain ⟨id, hid, hu'⟩ := Option.bind_eq_some_iff.1 hu.2
        exact hd.exists_placeholder hu.1 hid hu'
    obtain ⟨own, rfl, hnodup, _⟩ := exists_placeholders hplaceholders hdistinct.1
    have hlen := (mapM_eq_some_iff.1 hts).length_eq
    rw [List.length_map] at hlen
    exact ⟨own, hlen.symm, by simp [hlen], hnodup⟩
  · cases h

end Program.Drafted

def Cause.isMisfit : Cause → Bool
  | .incompatibleArgument _ _ _ => true
  | _ => false

def Goal.passes (n : NodeId) : Goal → Bool
  | .call _ arguments | .templateCall _ _ _ arguments => arguments.any (·.id = n)
  | _ => false

theorem Cause.isMisfit_of_isEarly {c : Cause} (h : c.isEarly = true) : c.isMisfit = false := by
  cases c with
  | incompatibleArgument => cases h
  | _ => rfl

/-- Only what passes an argument finds that it does not fit. -/
theorem Goal.Tells.of_misfit {t : Tables} {node : Node} {g : Goal} {x : Diagnostic} {n : NodeId}
    (h : g.Tells t node x) (hx : x.cause.isMisfit = true) (hn : x.node = some n) : g.passes n = true := by
  cases h with
  | argument hmem | templateArgument hmem =>
    exact List.any_eq_true.2 ⟨_, hmem, by simpa [Diagnostic.atNode] using hn⟩
  | @late scope name cause hblames =>
    cases cause with
    | incompatibleArgument => exact hblames.elim
    | _ => cases hx
  | _ => cases hx

/-- Whether something that is owed at a node passes what stands at another node. -/
def Entry.passes (n : NodeId) (e : Entry) : Bool := e.obligations.any (·.goal.passes n)

theorem Expr.Leaves.exists_part {d : Draft} {st : Setting} {role : Role} {x : Expr} {e : Entry} {n : NodeId}
    (h : x.Leaves d st role e) (hpass : e.passes n = true) : ∃ c ∈ Site.ofExpr st x, c.id = n := by
  have hargument : ∀ {arguments : List Expr}, (arguments.map Expr.node).any (·.id = n) = true →
      ∃ e i, (e, i) ∈ arguments.zipIdx ∧ e.node.id = n := by
    intro arguments hany
    obtain ⟨_, hmem, hid⟩ := List.any_eq_true.1 hany
    obtain ⟨e, he, rfl⟩ := List.mem_map.1 hmem
    obtain ⟨i, hi⟩ := List.mem_iff_getElem?.1 he
    exact ⟨e, i, List.mk_mem_zipIdx_iff_getElem?.2 hi, of_decide_eq_true hid⟩
  cases h with
  | call =>
    obtain ⟨e, i, hmem, hid⟩ := hargument (by simpa [Entry.passes, Goal.passes] using hpass)
    exact ⟨_, List.mem_cons_of_mem _ (List.mem_map_of_mem hmem), hid⟩
  | templateCall =>
    obtain ⟨e, i, hmem, hid⟩ := hargument (by simpa [Entry.passes, Goal.passes] using hpass)
    exact ⟨_, List.mem_append_right _ (List.mem_map_of_mem hmem), hid⟩
  | symbol h => cases h <;> cases hpass
  | _ => cases hpass

/-- What is passed is a part of the site where this is owed. -/
theorem Site.Leaves.exists_part {d : Draft} {s : Site} {e : Entry} {n : NodeId} (h : s.Leaves d e)
    (hpass : e.passes n = true) : ∃ c ∈ s.parts, c.id = n := by
  have hblock : ∀ {scope : ScopeId} {node : Node} {body : List Stmt},
      (Entry.ofBlock scope node body).passes n = false := by
    intro scope node body
    unfold Entry.ofBlock
    split <;> rfl
  cases h with
  | expr _ h => exact h.exists_part hpass
  | condition h => exact h.exists_part (by simpa [Entry.passes, Goal.passes] using hpass)
  | body => rw [hblock] at hpass; cases hpass
  | stmt h =>
    cases h with
    | block => rw [hblock] at hpass; cases hpass
    | ifElse =>
      unfold Entry.ofBranches at hpass
      split at hpass <;> cases hpass
    | ret =>
      unfold Entry.ofReturn at hpass
      split at hpass <;> cases hpass
    | _ => cases hpass
  | reference h => cases h <;> cases hpass
  | _ => cases hpass

namespace Reaction

variable {s : Slots} {next : Reaction}

theorem told_reportTypes {cause : String → String → Cause} {q r : Ty} {place : Node} {first second : String}
    (hfirst : q.render = .ok first) (hsecond : r.render = .ok second) :
    (reportTypes cause q r place next).told s = .atNode (cause first second) place :: next.told s := by
  simp [reportTypes, withText, attempt, hfirst, hsecond, told]

/-- The check of arguments finds nothing elsewhere. -/
theorem filter_misfits_nil {arguments : List Node} {n : NodeId} (hn : ∀ x ∈ arguments, x.id ≠ n)
    (hnext : next.Confined (·.node ≠ some n) []) (k : Nat) (received expected : List Ty) :
    ((checkArguments k arguments received expected next).told s).filter
      (fun x => x.node = some n && x.cause.isMisfit) = [] := by
  have hconfined := confined_checkArguments hnext k
    (fun x hx i e r => by simpa [Diagnostic.atNode] using hn x hx) received expected
  rw [List.filter_eq_nil_iff]
  intro x hx
  simp [hconfined.of_mem_told hx]

theorem filter_misfits {arguments : List Node} (hdistinct : arguments.Pairwise fun x y => x.id ≠ y.id)
    {received expected : List Ty} (hreceived : ∀ r ∈ received, ∃ text, r.render = .ok text)
    (hexpected : ∀ q ∈ expected, ∃ text, q.render = .ok text) {k i : Nat} {x : Node}
    (hnext : next.Confined (·.node ≠ some x.id) []) {r q : Ty} {first second : String} (hx : arguments[i]? = some x) (hr : received[i]? = some r)
    (hq : expected[i]? = some q) (hfirst : q.render = .ok first) (hsecond : r.render = .ok second) :
    ((checkArguments k arguments received expected next).told s).filter
        (fun y => y.node = some x.id && y.cause.isMisfit) =
      if r.assignable q then [] else [.atNode (.incompatibleArgument (k + i) first second) x] := by
  induction arguments generalizing k i received expected with
  | nil => simp at hx
  | cons y arguments ih =>
    obtain ⟨hy, hdistinct⟩ := List.pairwise_cons.1 hdistinct
    cases received with
    | nil => simp at hr
    | cons r₀ received =>
    cases expected with
    | nil => simp at hq
    | cons q₀ expected =>
      rw [List.forall_mem_cons] at hreceived hexpected
      obtain ⟨text, htext⟩ := hreceived.1
      obtain ⟨text', htext'⟩ := hexpected.1
      rw [checkArguments]
      cases i with
      | zero =>
        obtain rfl : y = x := by simpa using hx
        obtain rfl : r₀ = r := by simpa using hr
        obtain rfl : q₀ = q := by simpa using hq
        have hrest := filter_misfits_nil (s := s) (fun z hz => (hy z hz).symm) hnext (k + 1) received expected
        split
        · exact hrest
        · rw [told_reportTypes hfirst hsecond,
            List.filter_cons_of_pos (by simp [Diagnostic.atNode, Cause.isMisfit]), hrest, Nat.add_zero]
      | succ i =>
        have hmem : x ∈ arguments := List.mem_of_getElem? hx
        have hrest := ih hdistinct hreceived.2 hexpected.2 (k := k + 1) hx hr hq
        rw [Nat.add_assoc, Nat.add_comm 1] at hrest
        split
        · exact hrest
        · rw [told_reportTypes htext' htext,
            List.filter_cons_of_neg (by simp [Diagnostic.atNode, hy x hmem]), hrest]

end Reaction

namespace Analysis

/-- The findings at a node that an argument does not fit. -/
def misfits (a : Analysis) (n : NodeId) : List Diagnostic :=
  a.diagnostics.filter fun x => x.node = some n && x.cause.isMisfit

/-- A call of a template with as many types and arguments as it has parameters for them. -/
structure CallsTemplate (a : Analysis) (callee : Expr) (types : List TypeExpr) (arguments : List Expr)
    (result : Ty) (own : List Nominal) (expected given received : List Ty) : Prop where
  callee : a.exprType? callee = some (.template result own.length (own.map .placeholder ++ expected))
  distinct : (own.map Nominal.declaration).Nodup
  typeCount : own.length = types.length
  valueCount : expected.length = arguments.length
  given : List.Forall₂ (fun w u => a.writtenType? w = some u) types given
  received : List.Forall₂ (fun e r => a.exprType? e = some r) arguments received

end Analysis

namespace Program.Analysed

variable {p : Program} {d : Draft} {a : Analysis} {st : Setting} {role : Role} {node : Node}
  {callee : Expr} {types : List TypeExpr} {arguments : List Expr} {result t : Ty} {own : List Nominal}
  {expected given received : List Ty}

/-- A call with a type is one of a template, and has the result type with the types put in. -/
theorem exists_callsTemplate (hp : p.Numbered) (h : p.Analysed d a)
    (hs : ⟨st, .expr role (.templateCall node callee types arguments)⟩ ∈ p.sites)
    (ht : a.exprType? (.templateCall node callee types arguments) = some t) :
    ∃ result own expected given received,
      a.CallsTemplate callee types arguments result own expected given received ∧
      t = result.substitute (.of own given) ∧
      result.Plain d.tables.declarations.size ∧ (∀ q ∈ expected, q.Plain d.tables.declarations.size) ∧
      (∀ u ∈ given, u.Plain d.tables.declarations.size) ∧
      ∀ r ∈ received, r.Regular d.tables.declarations.size := by
  rw [h.exprType?_eq hp hs, Names.typeIn, Names.type] at ht
  obtain ⟨u, hu, ht⟩ := Option.bind_eq_some_iff.1 ht
  obtain ⟨given, hgiven, ht⟩ := Option.bind_eq_some_iff.1 ht
  obtain ⟨received, hreceived, ht⟩ := Option.bind_eq_some_iff.1 ht
  have hcallee : ⟨st, .expr .free callee⟩ ∈ p.sites :=
    (hp.premise hs (by simp [Site.premises, Site.ofExpr])).1
  have htype : ∀ w ∈ types, ⟨st, .written w⟩ ∈ p.sites :=
    fun w hw => (hp.premise hs (by simp [Site.premises, Site.ofExpr, hw])).1
  have hargument : ∀ x ∈ arguments.zipIdx, ⟨st, .expr (.argument callee x.2) x.1⟩ ∈ p.sites := by
    intro x hx
    have hmem : ⟨st, .expr (.argument callee x.2) x.1⟩ ∈
        Site.ofExpr st (.templateCall node callee types arguments) :=
      List.mem_append_right _ (List.mem_map.2 ⟨x, hx, rfl⟩)
    exact (hp.premise hs (List.mem_append_right _ hmem)).1
  obtain ⟨hregular, hframed⟩ := (Names.kept_framed fun n t => h.drafted.framed_typeAt hp).type callee (by simp) hu
  cases hregular with
  | @template result k ps hk hr hps =>
    obtain ⟨own, rfl, htake, hnodup⟩ := hframed
    rw [Names.templateCallType] at ht
    split at ht
    · next hcounts =>
      have hsplit : ps = own.map .placeholder ++ ps.drop own.length := by
        rw [← htake, List.take_append_drop]
      rw [htake, Ty.placeholderBindings_map, Option.some.injEq] at ht
      rw [← Drafted.argumentTypes_of_callee hu] at hreceived
      have hargs := mapM_eq_some_iff.1 hreceived
      have htypes := mapM_eq_some_iff.1 hgiven
      refine ⟨result, own, ps.drop own.length, given, received, ⟨?_, hnodup, ?_, ?_, ?_, ?_⟩, ht.symm, hr,
        fun q hq => hps q (List.mem_of_mem_drop hq), ?_, ?_⟩
      · rw [← hsplit]
        exact (h.exprType?_eq hp hcallee).trans hu
      · rw [hcounts.2, htypes.length_eq]
      · rw [hcounts.1, ← hargs.length_eq, List.length_zipIdx]
      · refine ((List.forall₂_and_left _ _).2 ⟨htype, htypes⟩).imp fun w u hw => ?_
        exact (Attributes.type?_of_slot (h.slot?_of_input (Drafted.input_written hp h.drafted hw.1))).trans hw.2
      · rw [← List.zipIdx_map_fst 0 arguments, List.forall₂_map_left_iff]
        refine ((List.forall₂_and_left _ _).2 ⟨hargument, hargs⟩).imp fun x r hx => ?_
        exact (h.exprType?_eq hp hx.1).trans hx.2
      · exact forall_of_mapM hgiven fun _ _ _ hv => Names.writtenType_plain hv
      · exact forall_of_mapM hreceived fun x _ u hu => Names.typeIn_regular hu
    · cases ht
  | _ => cases ht

section Calls

variable (ct : a.CallsTemplate callee types arguments result own expected given received)
include ct

theorem isSet_inputs_templateCall (text : String) {i : Attribute}
    (hi : i ∈ Goal.inputs node (.templateCall callee.id text (types.map TypeExpr.id) (arguments.map Expr.node))) :
    a.attributes.isSet i = true := by
  simp only [Goal.inputs, List.cons_append, List.mem_cons, List.mem_append, List.map_map, List.mem_map] at hi
  rcases hi with rfl | ⟨w, hw, rfl⟩ | ⟨e, he, rfl⟩
  · exact Attributes.isSet_iff.2 ⟨_, Attributes.type?_eq_some.1 ct.callee⟩
  · refine forall_of_forall₂ (P := fun w : TypeExpr => a.attributes.isSet (.valueOf w.id) = true) ct.given.flip
      (fun t _ w ht => ?_) w hw
    exact Attributes.isSet_iff.2 ⟨_, Attributes.type?_eq_some.1 ht⟩
  · refine forall_of_forall₂ (P := fun e : Expr => a.attributes.isSet (.typeOf e.id) = true) ct.received.flip
      (fun t _ e ht => ?_) e he
    exact Attributes.isSet_iff.2 ⟨_, Attributes.type?_eq_some.1 ht⟩

/-- The rule of the call comes to what the check of the arguments tells. -/
theorem told_templateCall (h : p.Analysed d a) (text : String) : Obligation.told d.tables (d.names p).solution
      ⟨node, .templateCall callee.id text (types.map TypeExpr.id) (arguments.map Expr.node)⟩ =
    (Reaction.checkArguments 0 (arguments.map Expr.node) received
      (expected.map (Ty.substitute (.of own given)))
      (.set (.typeOf node.id) (.type (result.substitute (.of own given))) .done)).told
      (d.names p).solution := by
  have hvalue : ∀ {i : Attribute} {t : Ty}, a.attributes.type? i = some t →
      Slots.value? (d.names p).solution i = some (.type t) :=
    fun hi => Slots.value?_eq_some.2 (h.within _ _ (Attributes.type?_eq_some.1 hi))
  have hset : ∀ i ∈ Goal.inputs node (.templateCall callee.id text (types.map TypeExpr.id)
      (arguments.map Expr.node)), ∃ v, (d.names p).solution i = some (.set v) := by
    intro i hi
    obtain ⟨v, hv⟩ := Attributes.isSet_iff.1 (isSet_inputs_templateCall ct text hi)
    exact ⟨v, h.within i _ hv⟩
  have hgiven : List.Forall₂ (fun i u => Slots.value? (d.names p).solution i = some (.type u))
      ((types.map TypeExpr.id).map .valueOf) given := by
    rw [List.map_map, List.forall₂_map_left_iff]
    exact ct.given.imp fun w u hu => hvalue hu
  have hreceived : List.Forall₂ (fun i u => Slots.value? (d.names p).solution i = some (.type u))
      ((arguments.map Expr.node).map (.typeOf ·.id)) received := by
    rw [List.map_map, List.forall₂_map_left_iff]
    exact ct.received.imp fun e r hr => hvalue hr
  have hsplit : Ty.splitParameters own.length (own.map .placeholder ++ expected) = _ :=
    Ty.splitParameters_eq (by simp)
  simp only [List.take_left', List.drop_left', List.length_map] at hsplit
  unfold Obligation.told
  rw [Rule.told_of_set hset]
  show (Goal.react d.tables node
    (.templateCall callee.id text (types.map TypeExpr.id) (arguments.map Expr.node))).told _ = _
  rw [Goal.react_templateCall, ← Reaction.told_answered, Reaction.answered_readType (hvalue ct.callee)]
  simp only [Reaction.attempt, hsplit]
  rw [if_neg (by simp [ct.valueCount]), if_neg (by simp [ct.typeCount]), Reaction.answered_readTypes hgiven,
    Reaction.answered_readTypes hreceived, Reaction.told_answered, Ty.placeholderBindings_map, Ty.substituteAll_eq_map]

end Calls

/-- What passes an argument of a call is the call alone. -/
theorem filter_obligations_passing (hp : p.Numbered) (h : p.Analysed d a)
    (hs : ⟨st, .expr role (.templateCall node callee types arguments)⟩ ∈ p.sites) {e : Expr}
    (he : e ∈ arguments) : d.obligations.toList.filter (·.goal.passes e.id) =
      [⟨node, .templateCall callee.id callee.render (types.map TypeExpr.id) (arguments.map Expr.node)⟩] := by
  obtain ⟨i, hi⟩ := List.mem_iff_getElem?.1 he
  have hpart : ⟨st, .expr (.argument callee i) e⟩ ∈
      Site.parts ⟨st, .expr role (.templateCall node callee types arguments)⟩ :=
    List.mem_append_right _ (List.mem_map.2 ⟨(e, i), List.mk_mem_zipIdx_iff_getElem?.2 hi, rfl⟩)
  have hsite := (hp.premise hs (Site.mem_premises_of_part hpart)).1
  have hnode : ∀ o ∈ d.obligations.toList, o.goal.passes e.id = true → o.node.id = node.id := by
    intro o ho hpass
    obtain ⟨s, hs', hid, hmem⟩ := h.drafted.exists_owing ho
    obtain ⟨c, hc, hce⟩ := (h.drafted.leaves s hs').exists_part (List.any_eq_true.2 ⟨o, hmem, hpass⟩)
    obtain rfl := hp.eq_of_id (hp.premise hs' (Site.mem_premises_of_part hc)).1 hsite hce
    obtain rfl := hp.eq_of_part hs' hs hc hpart
    exact hid.symm
  have hl := h.drafted.leaves _ hs
  have hentry : (d.entry node.id).obligations.filter (·.goal.passes e.id) =
      [⟨node, .templateCall callee.id callee.render (types.map TypeExpr.id) (arguments.map Expr.node)⟩] := by
    have hid : Site.id ⟨st, .expr role (.templateCall node callee types arguments)⟩ = node.id := rfl
    have hpass : (Goal.templateCall callee.id callee.render (types.map TypeExpr.id)
        (arguments.map Expr.node)).passes e.id = true :=
      List.any_eq_true.2 ⟨e.node, List.mem_map_of_mem he, by simp [Expr.id]⟩
    rw [hid] at hl
    generalize d.entry node.id = entry at hl
    cases hl with
    | expr _ h =>
      cases h
      simp [hpass]
    | @condition _ statement _ _ h =>
      have hcondition : (Goal.condition statement).passes e.id = false := rfl
      cases h
      simp [hpass, hcondition]
  rw [← hentry, Draft.entry, List.filter_filter]
  refine List.filter_congr fun o ho => ?_
  cases hpass : o.goal.passes e.id with
  | false => rfl
  | true => simp [hnode o ho hpass]

/-- The misfits at an argument are told of the rule of its call. -/
theorem misfits_perm (hp : p.Numbered) (h : p.Analysed d a)
    (hs : ⟨st, .expr role (.templateCall node callee types arguments)⟩ ∈ p.sites) {e : Expr}
    (he : e ∈ arguments) : (a.misfits e.id).Perm ((Obligation.told d.tables (d.names p).solution
      ⟨node, .templateCall callee.id callee.render (types.map TypeExpr.id) (arguments.map Expr.node)⟩).filter
        fun x => x.node = some e.id && x.cause.isMisfit) := by
  apply h.perm_filter hp _ (h.filter_obligations_passing hp hs he)
  · intro o x hkeep htells
    by_contra hx
    simp only [Bool.not_eq_false, Bool.and_eq_true, decide_eq_true_eq] at hx
    rw [htells.of_misfit hx.2 hx.1] at hkeep
    cases hkeep
  · intro x hx
    rw [Cause.isMisfit_of_isEarly hx, Bool.and_false]

/-- An argument of a call has one misfit if it does not fit, and none otherwise. -/
theorem misfits_eq (hp : p.Numbered) (h : p.Analysed d a)
    (hs : ⟨st, .expr role (.templateCall node callee types arguments)⟩ ∈ p.sites)
    (ct : a.CallsTemplate callee types arguments result own expected given received) {n : Nat}
    (hexpected : ∀ q ∈ expected, q.Plain n) (hgiven : ∀ u ∈ given, u.Plain n)
    (hreceived : ∀ r ∈ received, r.Regular n) {i : Nat} {e : Expr} {q r : Ty} (he : arguments[i]? = some e)
    (hq : expected[i]? = some q) (hr : received[i]? = some r) :
    ∃ first second, (q.substitute (.of own given)).render = .ok first ∧
      r.render = .ok second ∧ a.misfits e.id =
        if r.assignable (q.substitute (.of own given)) then []
        else [.atNode (.incompatibleArgument i first second) e.node] := by
  have hplain : ∀ q ∈ expected, (q.substitute (.of own given)).Plain n :=
    fun q hq => (hexpected q hq).substitute fun b hb => hgiven b.2 (List.of_mem_zip hb).2
  obtain ⟨first, hfirst⟩ := (hplain q (List.mem_of_getElem? hq)).exists_render
  obtain ⟨second, hsecond⟩ := (hreceived r (List.mem_of_getElem? hr)).exists_render
  have hdistinct : (arguments.map Expr.node).Pairwise fun x y => x.id ≠ y.id := by
    have hparts := (List.pairwise_append.1 (hp.distinct_parts hs)).2.1
    rw [List.pairwise_map] at hparts
    rw [← List.zipIdx_map_fst 0 arguments, List.pairwise_map, List.pairwise_map]
    exact hparts
  have hperm := h.misfits_perm hp hs (List.mem_of_getElem? he)
  have hx : (arguments.map Expr.node)[i]? = some e.node := by simp [he]
  have hq' : (expected.map (Ty.substitute (.of own given)))[i]? =
      some (q.substitute (.of own given)) := by simp [hq]
  have hnext : (Reaction.set (.typeOf node.id) (.type (result.substitute (.of own given))) .done).Confined
      (·.node ≠ some e.node.id) [] := trivial
  rw [told_templateCall ct h, Expr.id, Reaction.filter_misfits hdistinct
    (fun r hr => (hreceived r hr).exists_render)
    (List.forall_mem_map.2 fun q hq => (hplain q hq).exists_render) hnext hx hr hq' hfirst hsecond,
    Nat.zero_add] at hperm
  refine ⟨first, second, hfirst, hsecond, ?_⟩
  split at hperm
  · next hfit => exact (List.perm_nil.1 hperm).trans (if_pos hfit).symm
  · next hmisfit => exact (List.perm_singleton.1 hperm).trans (if_neg hmisfit).symm

end Program.Analysed

/-- A call with type arguments that has a type is one of a template with as many parameters. Its type and
what is expected of its arguments come from those that the template declares, with the types put in for the
placeholders all at once; each argument has a finding just if it does not fit. -/
theorem Program.template_call_instantiated {tokens : List Token} {file : String} {p : Program} {c : Cursor}
    {a : Analysis} (h : Program.parse tokens file = .ok p c) (ha : p.analyse = .ok a) {st : Setting}
    {role : Role} {node : Node} {callee : Expr} {types : List TypeExpr} {arguments : List Expr} {t : Ty}
    (hs : ⟨st, .expr role (.templateCall node callee types arguments)⟩ ∈ p.sites)
    (ht : a.exprType? (.templateCall node callee types arguments) = some t) :
    ∃ result own expected given received,
      a.CallsTemplate callee types arguments result own expected given received ∧
      Ty.Instance (own.map Nominal.declaration) given result t ∧
      (∀ m ∈ own, t.Occurs m.declaration → ∃ u ∈ given, u.Occurs m.declaration) ∧
      ∀ i e q r, arguments[i]? = some e → expected[i]? = some q → received[i]? = some r →
        ∃ q', Ty.Instance (own.map Nominal.declaration) given q q' ∧
          (r.assignable q' = true → a.misfits e.id = []) ∧
          (r.assignable q' = false → ∃ first second, q'.render = .ok first ∧ r.render = .ok second ∧
            a.misfits e.id = [.atNode (.incompatibleArgument i first second) e.node]) := by
  have hp := numbered_of_parse h
  obtain ⟨d, a', ha', hd⟩ := analysed hp
  obtain rfl : a = a' := by simpa [ha] using ha'
  obtain ⟨result, own, expected, given, received, ct, rfl, hresult, hexpected, hgiven, hreceived⟩ :=
    hd.exists_callsTemplate hp hs ht
  have hlen : own.length = given.length := ct.typeCount.trans ct.given.length_eq
  have hinstance := hresult.instance_substitute hlen
  refine ⟨result, own, expected, given, received, ct, hinstance, ?_, ?_⟩
  · intro m hm hoccurs
    exact hinstance.exists_occurs (List.mem_map_of_mem hm) hoccurs
  · intro i e q r he hq hr
    have hplain := hexpected q (List.mem_of_getElem? hq)
    refine ⟨q.substitute (.of own given), hplain.instance_substitute hlen, ?_⟩
    obtain ⟨first, second, hfirst, hsecond, hmisfits⟩ :=
      hd.misfits_eq hp hs ct hexpected hgiven hreceived he hq hr
    rw [hmisfits]
    constructor
    · intro hfit
      rw [if_pos hfit]
    · intro hmisfit
      exact ⟨first, second, hfirst, hsecond, if_neg (by simp [hmisfit])⟩

/-- A template that calls itself with its type parameters in each other's places. -/
def swappedText : String :=
  "template<A: Type, B: Type> fun pick(a: A, b: B[]): B \x7b pick<B[], A>(b, [a]) return b[0] \x7d"

/-- Whether a site is a call with type arguments, and its type has the given text. -/
def Site.instantiates (a : Analysis) (text : String) (s : Site) : Bool :=
  match s.part with
  | .expr _ (.templateCall node callee types arguments) =>
    (a.exprType? (.templateCall node callee types arguments)).any fun t => t.render.toOption = some text
  | _ => false

theorem Program.template_call_instantiated_swapped :
    ∃ tokens p c a, Token.tokenize swappedText "swapped" = .ok tokens ∧
      Program.parse tokens "swapped" = .ok p c ∧ p.analyse = .ok a ∧
      ∃ st role node callee types arguments t,
        ⟨st, .expr role (.templateCall node callee types arguments)⟩ ∈ p.sites ∧
        a.exprType? (.templateCall node callee types arguments) = some t ∧ t.render.toOption = some "A" ∧
        ∃ result own expected given received,
          a.CallsTemplate callee types arguments result own expected given received ∧
          Ty.Instance (own.map Nominal.declaration) given result t ∧
          ∀ m ∈ own, t.Occurs m.declaration → ∃ u ∈ given, u.Occurs m.declaration := by
  obtain ⟨tokens, p, c, a, htokens, hparse, ha, _, htest⟩ :=
    Program.exists_of_accepts 10 "swapped" swappedText
      (fun p a => p.sites.any fun s => s.instantiates a "A") (by decide +kernel)
  obtain ⟨⟨st, part⟩, hs, hpart⟩ := List.any_eq_true.1 htest
  unfold Site.instantiates at hpart
  split at hpart
  · next role node callee types arguments heq =>
    obtain rfl : part = _ := heq
    obtain ⟨t, ht, htext⟩ := (Option.any_eq_true _ _).1 hpart
    obtain ⟨result, own, expected, given, received, ct, hinstance, hoccurs, _⟩ :=
      Program.template_call_instantiated hparse ha hs ht
    exact ⟨tokens, p, c, a, htokens, hparse, ha, st, role, node, callee, types, arguments, t, hs, ht,
      of_decide_eq_true htext, result, own, expected, given, received, ct, hinstance, hoccurs⟩
  · cases hpart

end ScriptAnalysis
