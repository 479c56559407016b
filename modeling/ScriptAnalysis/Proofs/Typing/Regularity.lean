import Mathlib.Data.List.Forall2
import ScriptAnalysis.Proofs.Table.Growth
import ScriptAnalysis.Proofs.Ty.Regular
import ScriptAnalysis.Proofs.Typing.Evaluation

/-!
All types that evaluation comes to are regular: written types are plain, so are the results of
functions, and the other rules keep to what they are given (`Names.type_regular`).
-/
namespace ScriptAnalysis

section Lists

variable {α β : Type} {f : α → Option β}

theorem mapM_eq_some_iff {l : List α} {ys : List β} :
    l.mapM f = some ys ↔ List.Forall₂ (fun x y => f x = some y) l ys := by
  induction l generalizing ys with
  | nil => simp
  | cons x rest ih =>
    rw [List.mapM_cons]
    constructor
    · intro h
      obtain ⟨y, hy, h⟩ := Option.bind_eq_some_iff.1 h
      obtain ⟨zs, hzs, h⟩ := Option.bind_eq_some_iff.1 h
      cases h
      exact .cons hy (ih.1 hzs)
    · intro h
      cases h with
      | cons hy hrest =>
        rw [hy, ih.2 hrest]
        rfl

theorem mapM_eq_none {l : List α} {x : α} (hx : x ∈ l) (h : f x = none) : l.mapM f = none := by
  induction l with
  | nil => cases hx
  | cons y rest ih =>
    rw [List.mapM_cons]
    rcases List.mem_cons.1 hx with rfl | hx
    · rw [h]
      rfl
    · rw [ih hx]
      cases f y <;> rfl

theorem mapM_congr_forall₂ {γ : Type} {g : γ → Option β} {l : List α} {l' : List γ}
    (h : List.Forall₂ (fun x y => f x = g y) l l') : l.mapM f = l'.mapM g := by
  induction h with
  | nil => rfl
  | cons hxy _ ih => rw [List.mapM_cons, List.mapM_cons, hxy, ih]

theorem forall_of_forall₂ {R : α → β → Prop} {P : β → Prop} {l : List α} {ys : List β}
    (h : List.Forall₂ R l ys) (hR : ∀ x ∈ l, ∀ y, R x y → P y) : ∀ y ∈ ys, P y := by
  induction h with
  | nil => simp
  | cons hy _ ih =>
    simp only [List.forall_mem_cons] at hR ⊢
    exact ⟨hR.1 _ hy, ih hR.2⟩

theorem forall_of_mapM {P : β → Prop} {l : List α} {ys : List β} (h : l.mapM f = some ys)
    (hf : ∀ x ∈ l, ∀ y, f x = some y → P y) : ∀ y ∈ ys, P y :=
  forall_of_forall₂ (mapM_eq_some_iff.1 h) hf

end Lists

def Reaction.fitting (received : List Ty) (x : DeclId × Ty) : Option (DeclId × Ty × List Ty) :=
  match x.2 with
  | .function result parameters =>
    if parameters.length = received.length then some (x.1, result, parameters) else none
  | _ => none

theorem Reaction.fitting_eq_some {received : List Ty} {x : DeclId × Ty} {y : DeclId × Ty × List Ty} :
    fitting received x = some y ↔
      x = (y.1, .function y.2.1 y.2.2) ∧ y.2.2.length = received.length := by
  obtain ⟨id, t⟩ := x
  obtain ⟨id', result, parameters⟩ := y
  cases t with
  | function r ps =>
    simp only [fitting, Option.ite_none_right_eq_some, Option.some.injEq, Prod.mk.injEq, Ty.function.injEq]
    grind
  | _ => simp [fitting]

/-- An overload that is selected is a candidate with as many parameters as there are arguments, and its
parameters are the argument types or take them. -/
theorem Reaction.selectOverload_eq_some {received : List Ty} {candidates : List (DeclId × Ty)}
    {id : DeclId} {r : Ty} (h : selectOverload received candidates = some (id, r)) :
    ∃ ps, (id, .function r ps) ∈ candidates ∧ ps.length = received.length ∧
      (Ty.sameAll ps received = true ∨ ∀ x ∈ received.zip ps, x.1.assignable x.2 = true) := by
  obtain ⟨⟨id', r', ps⟩, hchosen, heq⟩ := Option.map_eq_some_iff.1 h
  cases heq
  have hfitting : ∀ x ∈ candidates.filterMap (fitting received), (x.1, .function x.2.1 x.2.2) ∈ candidates ∧
      x.2.2.length = received.length := by
    intro x hx
    obtain ⟨y, hmem, hy⟩ := List.mem_filterMap.1 hx
    obtain ⟨rfl, hlen⟩ := fitting_eq_some.1 hy
    exact ⟨hmem, hlen⟩
  rcases Option.or_eq_some_iff.1 hchosen with hsame | ⟨_, htakes⟩
  · obtain ⟨hmem, hlen⟩ := hfitting _ (List.mem_of_find?_eq_some hsame)
    exact ⟨ps, hmem, hlen, .inl (by simpa using List.find?_some hsame)⟩
  · obtain ⟨hmem, hlen⟩ := hfitting _ (List.mem_of_find?_eq_some htakes)
    refine ⟨ps, hmem, hlen, .inr ?_⟩
    simpa using List.find?_some htakes

/-- The number of a declaration that is the last of a node is in range. -/
theorem Declarations.lt_size_of_forNode? {t : Declarations} {n : NodeId} {id : DeclId}
    (h : t.forNode? n = some id) : id.index < t.size := by
  rw [forNode?_eq] at h
  obtain ⟨x, hx, _⟩ := mem_idsAt.1 (List.mem_of_getLast? h)
  exact lt_size_of_getElem? hx

namespace Builtin

theorem declared_plain {n : Nat} : ∀ b ∈ all, ∀ t, b.declared = some t → t.Plain n := by
  simp [all, types, modifiers, values, functions, setFunctions, Ty.Plain]

theorem setFunctions_regular {n : Nat} (name : String) {t : Ty} (h : t.Plain n) :
    ∀ b ∈ setFunctions name t, b.type.Regular n := by
  have hps : ∀ p ∈ [Ty.container .set t, t], p.Regular n := by
    simpa using ⟨.container h.regular, h.regular⟩
  intro b hb
  rcases List.mem_cons.1 hb with rfl | hb
  · exact .function h hps
  · rw [List.mem_singleton.1 hb]
    exact .function trivial hps

theorem type_regular {n : Nat} : ∀ b ∈ all, b.type.Regular n := by
  have hsimple : ∀ b ∈ types ++ modifiers ++ values, b.type.Regular n := by
    have hprimitive : ∀ p, (Ty.primitive p).Regular n := fun p => .primitive
    simp [types, modifiers, values, hprimitive]
  intro b hb
  rcases List.mem_append.1 hb with hb | hb
  · exact hsimple b hb
  rcases List.mem_append.1 hb with hb | hb
  · rcases List.mem_append.1 hb with hb | hb
    · rcases List.mem_cons.1 hb with rfl | hb
      · exact .function trivial (by simpa using .primitive)
      · exact setFunctions_regular _ (t := .int) trivial b hb
    · exact setFunctions_regular _ (t := .float) trivial b hb
  · exact setFunctions_regular _ (t := .string) trivial b hb

end Builtin

theorem Tables.introduced_plain {t : Tables} {id : DeclId} {u : Ty} (h : t.introduced id = some u) :
    u.Plain t.declarations.size := by
  obtain ⟨x, hx, h⟩ := Option.bind_eq_some_iff.1 h
  have hid := Declarations.lt_size_of_getElem? hx
  split at h
  · cases h
    exact hid
  · obtain ⟨n, _, h⟩ := Option.bind_eq_some_iff.1 h
    obtain ⟨last, hlast, h⟩ := Option.bind_eq_some_iff.1 h
    cases h
    exact Declarations.lt_size_of_forNode? hlast
  · cases h
    trivial
  · obtain ⟨b, hb, h⟩ := Option.bind_eq_some_iff.1 h
    exact Builtin.declared_plain b (List.mem_of_getElem? hb) u h

/-- The type of a parameter of what is called, type parameters of templates apart. -/
def Ty.parameter? : Ty → Nat → Option Ty
  | .function _ parameters, i => parameters[i]?
  | .template _ count parameters, i => (parameters.drop count)[i]?
  | _, _ => none

theorem Ty.Regular.parameterType {n : Nat} {t : Ty} (h : t.Regular n) (i : Nat) :
    Names.parameterType t i = t.parameter? i := by
  cases h with
  | @template r k ps hk _ _ =>
    simp only [Names.parameterType, Goal.parameterAt, splitParameters_eq hk]
    rfl
  | _ => rfl

namespace Names

variable {N : Names} {home : NodeId} {t u : Ty}

theorem writtenType_plain {w : TypeExpr} (h : N.writtenType home w = some t) :
    t.Plain N.tables.declarations.size := by
  induction w generalizing t with
  | name node text =>
    obtain ⟨found, _, h⟩ := Option.bind_eq_some_iff.1 h
    obtain ⟨x, _, h⟩ := Option.bind_eq_some_iff.1 h
    split at h
    · exact Tables.introduced_plain h
    · cases h
  | container node c component ih =>
    obtain ⟨a, ha, h⟩ := Option.bind_eq_some_iff.1 h
    cases h
    have hplain := ih ha
    exact hplain

theorem typeAt_regular {n : NodeId} (h : N.typeAt n = some t) :
    t.Regular N.tables.declarations.size := by
  obtain ⟨s, _, h⟩ := Option.bind_eq_some_iff.1 h
  split at h
  · cases h
    exact .primitive
  · cases h
    exact .primitive
  · cases h
    exact .primitive
  · exact (writtenType_plain h).regular
  · exact (writtenType_plain h).regular
  · exact (writtenType_plain h).regular
  · obtain ⟨r, hr, h⟩ := Option.bind_eq_some_iff.1 h
    obtain ⟨ps, hps, h⟩ := Option.bind_eq_some_iff.1 h
    cases h
    exact .function (writtenType_plain hr)
      (forall_of_mapM hps fun b _ u hu => (writtenType_plain hu).regular)
  · obtain ⟨r, hr, h⟩ := Option.bind_eq_some_iff.1 h
    obtain ⟨ts, hts, h⟩ := Option.bind_eq_some_iff.1 h
    obtain ⟨ps, hps, h⟩ := Option.bind_eq_some_iff.1 h
    cases h
    have hlen := (mapM_eq_some_iff.1 hts).length_eq
    refine .template (by simp [hlen]) (writtenType_plain hr) fun p hp => ?_
    rcases List.mem_append.1 hp with hp | hp
    · refine forall_of_mapM hts (fun b _ u hu => ?_) p hp
      obtain ⟨id, _, hu⟩ := Option.bind_eq_some_iff.1 hu
      exact Tables.introduced_plain hu
    · exact forall_of_mapM hps (fun b _ u hu => writtenType_plain hu) p hp
  · cases h

theorem declarationType_regular {id : DeclId} (h : N.declarationType id = some t) :
    t.Regular N.tables.declarations.size := by
  obtain ⟨x, _, h⟩ := Option.bind_eq_some_iff.1 h
  split at h
  · obtain ⟨b, hb, h⟩ := Option.bind_eq_some_iff.1 h
    cases h
    exact Builtin.type_regular b (List.mem_of_getElem? hb)
  · exact typeAt_regular h

theorem constructorType_regular {c : Composite} {id : DeclId}
    (h : N.constructorType c id = some t) : t.Regular N.tables.declarations.size := by
  obtain ⟨x, _, h⟩ := Option.bind_eq_some_iff.1 h
  obtain ⟨fields, _, h⟩ := Option.bind_eq_some_iff.1 h
  obtain ⟨r, hr, h⟩ := Option.bind_eq_some_iff.1 h
  obtain ⟨ps, hps, h⟩ := Option.bind_eq_some_iff.1 h
  cases h
  exact .function (Tables.introduced_plain hr)
    (forall_of_mapM hps fun _ _ _ hu => declarationType_regular hu)

theorem parameterType_regular {n i : Nat} (hu : u.Regular n) (h : parameterType u i = some t) :
    t.Regular n := by
  rw [hu.parameterType] at h
  cases hu with
  | function _ hps => exact hps t (List.mem_of_getElem? h)
  | template _ _ hps => exact (hps t (List.mem_of_mem_drop (List.mem_of_getElem? h))).regular
  | _ => cases h

theorem callType_plain {candidates : List DeclId} {received : List Ty}
    (hu : u.Regular N.tables.declarations.size) (h : N.callType candidates received u = some t) :
    t.Plain N.tables.declarations.size := by
  cases hu with
  | function hr _ =>
    rw [callType] at h
    split at h
    · obtain ⟨⟨id, r⟩, hs, rfl⟩ := Option.map_eq_some_iff.1 h
      obtain ⟨types, htypes, hs⟩ := Option.bind_eq_some_iff.1 hs
      obtain ⟨ps, hmem, _⟩ := Reaction.selectOverload_eq_some hs
      have hregular := forall_of_mapM htypes (fun _ _ _ hv => declarationType_regular hv) _
        (List.of_mem_zip hmem).2
      cases hregular with
      | function hr _ => exact hr
    · split at h
      · exact Option.some.inj h ▸ hr
      · cases h
  | _ => cases h

theorem placeholderBindings_plain {n : Nat} {placeholders given : List Ty}
    (h : ∀ v ∈ given, v.Plain n) : ∀ b ∈ Goal.placeholderBindings placeholders given, b.2.Plain n := by
  intro b hb
  obtain ⟨⟨q, v⟩, hqv, hb⟩ := List.mem_filterMap.1 hb
  dsimp only at hb
  split at hb
  · cases hb
    exact h v (List.of_mem_zip hqv).2
  · cases hb

theorem templateCallType_plain {n : Nat} {given received : List Ty} (hu : u.Regular n)
    (hgiven : ∀ v ∈ given, v.Plain n) (h : templateCallType given received u = some t) :
    t.Plain n := by
  cases hu with
  | @template r k ps hk hr hps =>
    rw [templateCallType] at h
    split at h
    · cases h
      exact hr.substitute (placeholderBindings_plain hgiven)
    · cases h
  | _ => cases h

theorem forall_elementType {P : Ty → Prop} {soFar : Option Ty} {ts : List Ty} (hs : ∀ u, soFar = some u → P u)
    (hts : ∀ u ∈ ts, P u) (h : elementType soFar ts = some t) : P t := by
  induction ts generalizing soFar with
  | nil => exact hs t h
  | cons u rest ih =>
    simp only [List.forall_mem_cons] at hts
    unfold elementType at h
    split at h
    · exact ih hs hts.2 h
    · cases soFar with
      | none => exact ih (fun v hv => Option.some.inj hv ▸ hts.1) hts.2 h
      | some s =>
        obtain ⟨v, hv, h⟩ := Option.bind_eq_some_iff.1 h
        refine ih (fun w hw => ?_) hts.2 h
        obtain rfl := Option.some.inj hw
        rcases Ty.commonSupertype?_cases hv with rfl | rfl
        · exact hs v rfl
        · exact hts.1

structure Kept (N : Names) (P : Ty → Prop) : Prop where
  regular : ∀ {t}, P t → t.Regular N.tables.declarations.size
  plain : ∀ {t : Ty}, t.Plain N.tables.declarations.size → P t
  container : ∀ {c t}, P (.container c t) ↔ P t
  declared : ∀ {id t}, N.declarationType id = some t → P t
  constructed : ∀ {c id t}, N.constructorType c id = some t → P t

theorem kept_regular : N.Kept (Ty.Regular N.tables.declarations.size) where
  regular := id
  plain := Ty.Plain.regular
  container := ⟨fun | .container h => h, .container⟩
  declared := declarationType_regular
  constructed := constructorType_regular

namespace Kept

variable {P : Ty → Prop} (hP : N.Kept P)
include hP

theorem referenceType {ref : Reference} (h : N.referenceType ref = some t) : P t := by
  obtain ⟨id, _, h⟩ := Option.bind_eq_some_iff.1 h
  obtain ⟨x, _, h⟩ := Option.bind_eq_some_iff.1 h
  split at h
  · cases h
  · exact hP.declared h

theorem arithmetic? {op : BinaryOp} {l r : Ty} (hl : P l) (hr : P r) (h : Ty.arithmetic? op l r = some t) :
    P t := by
  rcases Ty.arithmetic?_cases h with rfl | rfl | ⟨_, rfl⟩ | ⟨_, _, rfl⟩
  · exact hl
  · exact hr
  · exact hP.plain trivial
  · exact hP.plain trivial

theorem indexedType (hu : P u) (h : indexedType u = some t) : P t := by
  unfold Names.indexedType at h
  split at h
  · cases h
    exact hP.container.1 hu
  · cases h
    exact hP.plain trivial
  · cases h

theorem memberType {c : Composite} {name : String} (h : N.memberType c name u = some t) : P t := by
  unfold Names.memberType at h
  split at h
  · split at h
    · cases h
      exact hP.plain trivial
    · cases h
  · obtain ⟨id, _, h⟩ := Option.bind_eq_some_iff.1 h
    exact hP.declared h

omit hP

mutual

/-- The type of an expression has the property if what is expected of it does. -/
theorem type (hP : N.Kept P) : ∀ (e : Expr) {x : Option Ty} {t : Ty}, (∀ u, x = some u → P u) →
    N.type home x e = some t → P t
  | .int _ _, _, _, _, h | .float _ _, _, _, _, h | .string _ _, _, _, _, h | .not _ _, _, _, _, h => by
    rw [Names.type] at h
    cases h
    exact hP.plain trivial
  | .symbol ref, _, _, _, h => by
    rw [Names.type] at h
    exact hP.referenceType h
  | .paren _ inner, _, _, _, h => by
    rw [Names.type] at h
    exact hP.type inner (by simp) h
  | .literal _ c elements, x, t, hx, h => by
    rw [Names.type] at h
    split at h
    · exact hx t (Option.filter_eq_some_iff.1 h).1
    · obtain ⟨ts, hts, h⟩ := Option.bind_eq_some_iff.1 h
      obtain ⟨u, hu, h⟩ := Option.bind_eq_some_iff.1 h
      cases h
      exact hP.container.2 (forall_elementType (by simp) (hP.types elements hts) hu)
  | .binary _ op left right, _, _, _, h => by
    rw [Names.type] at h
    split at h
    · obtain ⟨l, hl, h⟩ := Option.bind_eq_some_iff.1 h
      obtain ⟨r, hr, h⟩ := Option.bind_eq_some_iff.1 h
      exact hP.arithmetic? (hP.type left (by simp) hl) (hP.type right (by simp) hr) h
    · cases h
      exact hP.plain trivial
  | .assign _ target value, _, _, _, h => by
    rw [Names.type] at h
    obtain ⟨l, hl, h⟩ := Option.bind_eq_some_iff.1 h
    obtain ⟨r, _, h⟩ := Option.bind_eq_some_iff.1 h
    cases h
    exact hP.type target (by simp) hl
  | .call _ callee arguments, _, _, _, h => by
    rw [Names.type] at h
    obtain ⟨u, hu, h⟩ := Option.bind_eq_some_iff.1 h
    obtain ⟨received, _, h⟩ := Option.bind_eq_some_iff.1 h
    obtain ⟨scopes, _, h⟩ := Option.bind_eq_some_iff.1 h
    exact hP.plain (callType_plain (hP.regular (hP.type callee (by simp) hu)) h)
  | .templateCall _ callee types arguments, _, _, _, h => by
    rw [Names.type] at h
    obtain ⟨u, hu, h⟩ := Option.bind_eq_some_iff.1 h
    obtain ⟨given, hgiven, h⟩ := Option.bind_eq_some_iff.1 h
    obtain ⟨received, _, h⟩ := Option.bind_eq_some_iff.1 h
    exact hP.plain (templateCallType_plain (hP.regular (hP.type callee (by simp) hu))
      (forall_of_mapM hgiven fun _ _ _ hv => writtenType_plain hv) h)
  | .index _ base position, _, _, _, h => by
    rw [Names.type] at h
    obtain ⟨b, hb, h⟩ := Option.bind_eq_some_iff.1 h
    obtain ⟨i, _, h⟩ := Option.bind_eq_some_iff.1 h
    exact hP.indexedType (hP.type base (by simp) hb) h
  | .member _ c stem name, _, _, _, h => by
    rw [Names.type] at h
    obtain ⟨u, _, h⟩ := Option.bind_eq_some_iff.1 h
    exact hP.memberType h
  | .construct _ c ref, _, _, _, h => by
    rw [Names.type] at h
    obtain ⟨id, _, h⟩ := Option.bind_eq_some_iff.1 h
    exact hP.constructed h

theorem types (hP : N.Kept P) : ∀ (es : List Expr) {ts : List Ty}, N.types home es = some ts → ∀ t ∈ ts, P t
  | [], _, h => by
    rw [Names.types] at h
    cases h
    simp
  | e :: rest, _, h => by
    rw [Names.types] at h
    obtain ⟨u, hu, h⟩ := Option.bind_eq_some_iff.1 h
    obtain ⟨us, hus, h⟩ := Option.bind_eq_some_iff.1 h
    cases h
    simpa using ⟨hP.type e (by simp) hu, hP.types rest hus⟩

end

end Kept

theorem type_regular (e : Expr) {x : Option Ty} (hx : ∀ u, x = some u → u.Regular N.tables.declarations.size)
    (h : N.type home x e = some t) : t.Regular N.tables.declarations.size :=
  kept_regular.type e hx h

theorem expectation_regular {role : Role} (h : N.expectation home role = some t) :
    t.Regular N.tables.declarations.size := by
  cases role with
  | free => cases h
  | condition => cases h
  | value b => exact typeAt_regular h
  | argument callee index =>
    obtain ⟨u, hu, h⟩ := Option.bind_eq_some_iff.1 h
    exact parameterType_regular (type_regular callee (by simp) hu) h

theorem typeIn_regular {st : Setting} {role : Role} {e : Expr} (h : N.typeIn st role e = some t) :
    t.Regular N.tables.declarations.size :=
  type_regular e (fun _ => expectation_regular) h

end Names

end ScriptAnalysis
