import ScriptAnalysis.Proofs.Ty.Assignability
import ScriptAnalysis.Proofs.Typing.Rules.Expr

/-!
Common supertypes and the types of literals. Below a type of ordinary values the types form a chain, so
the more general of two types is their least upper bound. The type of a literal is gathered from its
elements in order, and comes to the least upper bound of all of them that have a value; the order
does not matter (`Ty.commonSupertype_isLeast`).
-/
namespace ScriptAnalysis

namespace Ty

namespace Widens

variable {a b c u : Ty}

theorem isReference_left (h : Widens a b) (hb : b.isReference = true) : a.isReference = true := by
  cases h with
  | same h => rw [isReference_of_same h, hb]
  | number => simp [Ty.isReference] at hb
  | null | container => rfl

/-- Two types below a third one are comparable. -/
theorem total (ha : Widens a u) (hb : Widens b u) : Widens a b ∨ Widens b a := by
  induction ha generalizing b with
  | same h => exact .inr (hb.trans (.same (same_symm h)))
  | number =>
    -- below `Float` there are `Int` and `Float`
    cases hb with
    | same h => exact .inl (Widens.number.trans (.same (same_symm h)))
    | number => exact .inl (.same rfl)
    | null h => simp [Ty.isReference] at h
  | null h => exact .inl (.null (hb.isReference_left h))
  | container ha ih =>
    cases hb with
    | same h => exact .inl (ha.container.trans (.same (same_symm h)))
    | null => exact .inr (.null rfl)
    | container hb => exact (ih hb).imp .container .container

end Widens

section Ordinary

variable {a b c u : Ty}

theorem not_isVoid_of_isOrdinary (h : a.isOrdinary = true) : a.isVoid = false := by
  cases a with
  | primitive p => cases p <;> first | rfl | cases h
  | _ => rfl

theorem assignable_refl (ha : a.isOrdinary = true) : a.assignable a = true :=
  (assignable_iff_widens ha ha).2 (.same (same_refl a))

theorem assignable_trans (ha : a.isOrdinary = true) (hb : b.isOrdinary = true)
    (hc : c.isOrdinary = true) (hab : a.assignable b = true) (hbc : b.assignable c = true) :
    a.assignable c = true := by
  rw [assignable_iff_widens ha hb] at hab
  rw [assignable_iff_widens hb hc] at hbc
  exact (assignable_iff_widens ha hc).2 (hab.trans hbc)

theorem same_of_assignable (ha : a.isOrdinary = true) (hb : b.isOrdinary = true)
    (hab : a.assignable b = true) (hba : b.assignable a = true) : a.same b = true := by
  rw [assignable_iff_widens ha hb] at hab
  rw [assignable_iff_widens hb ha] at hba
  exact hab.antisymm hba

/-- A common supertype is one of the two types, and the other may be stored as it. -/
theorem commonSupertype?_eq_some (ha : a.isOrdinary = true) (hb : b.isOrdinary = true)
    (h : a.commonSupertype? b = some c) :
    (c = b ∧ a.assignable b = true) ∨ (c = a ∧ b.assignable a = true) := by
  rw [commonSupertype?, not_isVoid_of_isOrdinary ha, not_isVoid_of_isOrdinary hb] at h
  by_cases hab : a.assignable b = true
  · rw [if_neg (by simp), if_pos hab] at h
    cases h
    exact .inl ⟨rfl, hab⟩
  · by_cases hba : b.assignable a = true
    · rw [if_neg (by simp), if_neg hab, if_pos hba] at h
      cases h
      exact .inr ⟨rfl, hba⟩
    · rw [if_neg (by simp), if_neg hab, if_neg hba] at h
      cases h

/-- Without a common supertype neither of two types may be stored as the other. -/
theorem commonSupertype?_eq_none (ha : a.isOrdinary = true) (hb : b.isOrdinary = true)
    (h : a.commonSupertype? b = none) : a.assignable b = false ∧ b.assignable a = false := by
  rw [commonSupertype?, not_isVoid_of_isOrdinary ha, not_isVoid_of_isOrdinary hb,
    if_neg (by simp)] at h
  split at h
  · cases h
  · next hab =>
    split at h
    · cases h
    · next hba => exact ⟨by simpa using hab, by simpa using hba⟩

theorem isOrdinary_commonSupertype (ha : a.isOrdinary = true) (hb : b.isOrdinary = true)
    (h : a.commonSupertype? b = some c) : c.isOrdinary = true := by
  obtain ⟨rfl, _⟩ | ⟨rfl, _⟩ := commonSupertype?_eq_some ha hb h
  · exact hb
  · exact ha

/-- What the common supertype may be stored as is what both types may be stored as. -/
theorem commonSupertype_assignable_iff (ha : a.isOrdinary = true) (hb : b.isOrdinary = true)
    (hu : u.isOrdinary = true) (h : a.commonSupertype? b = some c) :
    c.assignable u = true ↔ a.assignable u = true ∧ b.assignable u = true := by
  obtain ⟨rfl, hab⟩ | ⟨rfl, hba⟩ := commonSupertype?_eq_some ha hb h
  · exact ⟨fun h => ⟨assignable_trans ha hb hu hab h, h⟩, fun h => h.2⟩
  · exact ⟨fun h => ⟨h, assignable_trans hb ha hu hba h⟩, fun h => h.1⟩

/-- Types without a common supertype may not both be stored as a third one. -/
theorem not_bounded_of_commonSupertype_none (ha : a.isOrdinary = true) (hb : b.isOrdinary = true)
    (hu : u.isOrdinary = true) (h : a.commonSupertype? b = none) :
    ¬(a.assignable u = true ∧ b.assignable u = true) := by
  rintro ⟨hau, hbu⟩
  rw [assignable_iff_widens ha hu] at hau
  rw [assignable_iff_widens hb hu] at hbu
  obtain ⟨hab, hba⟩ := commonSupertype?_eq_none ha hb h
  rcases hau.total hbu with hw | hw
  · rw [(assignable_iff_widens ha hb).2 hw] at hab
    cases hab
  · rw [(assignable_iff_widens hb ha).2 hw] at hba
    cases hba

end Ordinary

def HasValue (ts : List Ty) : Prop := ∃ t ∈ ts, t.isVoid = false

/-- Values of all the types may be stored as the second type. -/
def Bounds (ts : List Ty) (u : Ty) : Prop := ∀ t ∈ ts, t.isVoid = true ∨ t.assignable u = true

/-- What the least upper bound is, among the types of ordinary values, of those types that have
values: there is none if no type has values, or if there is no upper bound. -/
def Least (ts : List Ty) : Option Ty → Prop
  | some c => c.isOrdinary = true ∧ HasValue ts ∧
      ∀ u, u.isOrdinary = true → (c.assignable u = true ↔ Bounds ts u)
  | none => HasValue ts → ∀ u, u.isOrdinary = true → ¬Bounds ts u

section Gathered

variable {s t : Ty} {ts ts' : List Ty} {o o' : Option Ty}

theorem hasValue_cons : HasValue (t :: ts) ↔ t.isVoid = false ∨ HasValue ts := by simp [HasValue]

theorem bounds_cons {u : Ty} :
    Bounds (t :: ts) u ↔ (t.isVoid = true ∨ t.assignable u = true) ∧ Bounds ts u := by
  simp [Bounds]

/-- A least upper bound depends on the types only through their bounds. -/
theorem Least.congr (h : Least ts o) (hv : HasValue ts ↔ HasValue ts')
    (hb : ∀ u, u.isOrdinary = true → (Bounds ts u ↔ Bounds ts' u)) : Least ts' o := by
  cases o with
  | none => exact fun hv' u hu hu' => h (hv.2 hv') u hu ((hb u hu).2 hu')
  | some c =>
    obtain ⟨hc, hv', h⟩ := h
    exact ⟨hc, hv.1 hv', fun u hu => (h u hu).trans (hb u hu)⟩

theorem Least.perm (h : Least ts o) (hperm : ts.Perm ts') : Least ts' o := by
  apply h.congr
  · simp only [HasValue, hperm.mem_iff]
  · intro u _
    simp only [Bounds, hperm.mem_iff]

/-- An upper bound that is least is one of the upper bounds. -/
theorem Least.bounds {c : Ty} (h : Least ts (some c)) : Bounds ts c :=
  (h.2.2 c h.1).1 (assignable_refl h.1)

/-- There is one least upper bound, or none. -/
theorem Least.unique (h : Least ts o) (h' : Least ts o') :
    Option.Rel (fun a b : Ty => a.same b = true) o o' := by
  cases o with
  | none =>
    cases o' with
    | none => exact .none
    | some c' => exact absurd h'.bounds (h h'.2.1 c' h'.1)
  | some c =>
    cases o' with
    | none => exact absurd h.bounds (h' h.2.1 c h.1)
    | some c' =>
      have hle : c.assignable c' = true := (h.2.2 c' h'.1).2 h'.bounds
      have hge : c'.assignable c = true := (h'.2.2 c h.1).2 h.bounds
      exact .some (same_of_assignable h.1 h'.1 hle hge)

/-- Two types with values have their common supertype as least upper bound. -/
theorem least_commonSupertype (hs : s.isOrdinary = true) (ht : t.isOrdinary = true) :
    Least [s, t] (s.commonSupertype? t) := by
  have hsv := not_isVoid_of_isOrdinary hs
  have htv := not_isVoid_of_isOrdinary ht
  cases h : s.commonSupertype? t with
  | none =>
    intro _ u hu hb
    apply not_bounded_of_commonSupertype_none hs ht hu h
    simpa [Bounds, hsv, htv] using hb
  | some c =>
    refine ⟨isOrdinary_commonSupertype hs ht h, ⟨s, List.mem_cons_self, hsv⟩, fun u hu => ?_⟩
    rw [commonSupertype_assignable_iff hs ht hu h]
    simp [Bounds, hsv, htv]

/-- What is gathered so far stands for all elements before. -/
theorem least_elementType_some (hs : s.isOrdinary = true)
    (hts : ∀ t ∈ ts, t.isVoid = true ∨ t.isOrdinary = true) :
    Least (s :: ts) (Names.elementType (some s) ts) := by
  have hsv := not_isVoid_of_isOrdinary hs
  induction ts generalizing s with
  | nil =>
    refine ⟨hs, ⟨s, List.mem_cons_self, hsv⟩, fun u _ => ?_⟩
    simp [Bounds, hsv]
  | cons t ts ih =>
    obtain ⟨ht, hts⟩ := List.forall_mem_cons.1 hts
    unfold Names.elementType
    by_cases hv : t.isVoid = true
    · rw [if_pos hv]
      apply (ih hs hts hsv).congr
      · simp [hasValue_cons, hsv]
      · intro u _
        simp [bounds_cons, hv]
    · have ht := ht.resolve_left hv
      rw [if_neg hv]
      change Least _ ((s.commonSupertype? t).bind fun u => Names.elementType (some u) ts)
      cases hc : s.commonSupertype? t with
      | none =>
        -- no bound of the first two, hence none of all
        intro _ u hu hb
        apply not_bounded_of_commonSupertype_none hs ht hu hc
        simp only [bounds_cons, hsv, hv, false_or, Bool.false_eq_true] at hb
        exact ⟨hb.1, hb.2.1⟩
      | some c =>
        have hco := isOrdinary_commonSupertype hs ht hc
        have hcv := not_isVoid_of_isOrdinary hco
        apply (ih hco hts hcv).congr
        · simp [hasValue_cons, hsv, hcv]
        · intro u hu
          simp only [bounds_cons, hsv, hv, hcv, false_or, Bool.false_eq_true,
            commonSupertype_assignable_iff hs ht hu hc, and_assoc]

/-- The type gathered from all elements is their least upper bound. -/
theorem least_elementType (hts : ∀ t ∈ ts, t.isVoid = true ∨ t.isOrdinary = true) :
    Least ts (Names.elementType none ts) := by
  induction ts with
  | nil =>
    rintro ⟨t, ht, _⟩
    cases ht
  | cons t ts ih =>
    obtain ⟨ht, hts⟩ := List.forall_mem_cons.1 hts
    unfold Names.elementType
    by_cases hv : t.isVoid = true
    · rw [if_pos hv]
      apply (ih hts).congr
      · simp [hasValue_cons, hv]
      · intro u _
        simp [bounds_cons, hv]
    · rw [if_neg hv]
      exact least_elementType_some (ht.resolve_left hv) hts

end Gathered

end Ty

/-- The rule of a literal settles its type: a container of what the elements come to. -/
theorem Goal.run_literal (tables : Tables) (c : Container) {node : Node} {elements : List Node}
    {t : Attributes} {ts : List Ty}
    (hts : List.Forall₂ (fun n ty => t.type? (.typeOf n.id) = some ty) elements ts)
    (hnode : t.slot? (.typeOf node.id) = none) :
    ∃ e, (Goal.react tables node (.literal c elements)).run node t = .ok e ∧
      e.attributes.slot? (.typeOf node.id) =
        some (.of .type ((Names.elementType none ts).map (.container c))) := by
  let slot := Slot.of .type ((Names.elementType none ts).map (.container c))
  let sol : Solution := fun a => if a = .typeOf node.id then some slot else t.slot? a
  have hsol : sol (.typeOf node.id) = some slot := if_pos rfl
  have hwithin : t.Within sol := by
    intro a s hs
    have ha : a ≠ .typeOf node.id := by
      rintro rfl
      rw [hnode] at hs
      cases hs
    exact (if_neg ha).trans hs
  have hgets : List.Forall₂ (fun a ty => t.get? a = some (.type ty))
      (elements.map fun n => Attribute.typeOf n.id) ts := by
    rw [List.forall₂_map_left_iff]
    exact hts.imp fun n ty h => Attributes.get?_eq_some.2 (Attributes.type?_eq_some.1 h)
  have htypes : (elements.zip ts).map (·.2) = ts := List.map_snd_zip hts.length_eq.ge
  have hconforms : (Goal.react tables node (.literal c elements)).Conforms sol (fun _ => False) node
      [.typeOf node.id] true t :=
    Reaction.conforms_of_eq (react_literal ..) (Reaction.conforms_readTypes hgets
      (Reaction.conforms_literalType hwithin (by rw [htypes, hsol]) fun _ _ => rfl))
  obtain ⟨e, he, hp⟩ := hconforms
  refine ⟨e, he, ?_⟩
  rcases hp.covers _ List.mem_cons_self with hknown | ⟨r, hr, _⟩
  · obtain ⟨s, hs⟩ := Attributes.isKnown_iff.1 hknown
    rw [hs, ← hp.within _ s hs, hsol]
  · exact (hp.chained r hr).elim

namespace Ty

theorem rel_same_container (c : Container) {o o' : Option Ty}
    (h : Option.Rel (fun a b : Ty => a.same b = true) o o') :
    Option.Rel (fun a b : Ty => a.same b = true) (o.map (container c))
      (o'.map (container c)) := by
  cases h with
  | none => exact .none
  | some h => exact .some (by simp [same, h])

def mixedLiteral : Node × List Node :=
  (⟨⟨3⟩, .null⟩, [⟨⟨0⟩, .null⟩, ⟨⟨1⟩, .null⟩, ⟨⟨2⟩, .null⟩])

def mixedTypes : Attributes :=
  (((({} : Attributes).set (.typeOf ⟨0⟩) (.type .int)).set (.typeOf ⟨1⟩) (.type .void)).set
    (.typeOf ⟨2⟩) (.type .float))

/-- On types of ordinary values a common supertype exists exactly if there is an upper bound, is then
the least one, and does not depend on the order of the two types. Nor does the type of a literal
depend on the order of its elements, whose types are `Void` or those of ordinary values: in every
order it is the same, or it fails. -/
theorem commonSupertype_isLeast :
    (∀ a b : Ordinary, (∃ c, a.1.commonSupertype? b.1 = some c) ↔
      ∃ u : Ordinary, a.1.assignable u.1 = true ∧ b.1.assignable u.1 = true) ∧
    (∀ (a b : Ordinary) (c : Ty), a.1.commonSupertype? b.1 = some c →
      c.isOrdinary = true ∧ a.1.assignable c = true ∧ b.1.assignable c = true ∧
      ∀ u : Ordinary, a.1.assignable u.1 = true → b.1.assignable u.1 = true →
        c.assignable u.1 = true) ∧
    (∀ a b : Ordinary, Option.Rel (fun c d => c.same d = true) (a.1.commonSupertype? b.1)
      (b.1.commonSupertype? a.1)) ∧
    (∀ (c : Container) (ts ts' : List Ty) (tables tables' : Tables) (t t' : Attributes)
      (node node' : Node) (elements elements' : List Node),
      ts.Perm ts' → (∀ a ∈ ts, a.isVoid = true ∨ a.isOrdinary = true) →
      List.Forall₂ (fun n ty => t.type? (.typeOf n.id) = some ty) elements ts →
      List.Forall₂ (fun n ty => t'.type? (.typeOf n.id) = some ty) elements' ts' →
      t.slot? (.typeOf node.id) = none → t'.slot? (.typeOf node'.id) = none →
      ∃ e e' o o',
        (Goal.react tables node (.literal c elements)).run node t = .ok e ∧
        (Goal.react tables' node' (.literal c elements')).run node' t' = .ok e' ∧
        e.attributes.slot? (.typeOf node.id) = some (.of .type o) ∧
        e'.attributes.slot? (.typeOf node'.id) = some (.of .type o') ∧
        Option.Rel (fun a b : Ty => a.same b = true) o o') := by
  refine ⟨fun a b => ⟨?_, ?_⟩, ?_, ?_, ?_⟩
  · rintro ⟨c, hc⟩
    have h := isOrdinary_commonSupertype a.2 b.2 hc
    exact ⟨⟨c, h⟩, (commonSupertype_assignable_iff a.2 b.2 h hc).1 (assignable_refl h)⟩
  · rintro ⟨u, hu⟩
    by_contra hnone
    have hnone : a.1.commonSupertype? b.1 = none :=
      Option.eq_none_iff_forall_ne_some.2 (not_exists.1 hnone)
    exact not_bounded_of_commonSupertype_none a.2 b.2 u.2 hnone hu
  · intro a b c hc
    have h := isOrdinary_commonSupertype a.2 b.2 hc
    have hbounds := (commonSupertype_assignable_iff a.2 b.2 h hc).1 (assignable_refl h)
    exact ⟨h, hbounds.1, hbounds.2, fun u ha hb =>
      (commonSupertype_assignable_iff a.2 b.2 u.2 hc).2 ⟨ha, hb⟩⟩
  · intro a b
    have hperm : [a.1, b.1].Perm [b.1, a.1] := .swap ..
    exact ((least_commonSupertype a.2 b.2).perm hperm).unique (least_commonSupertype b.2 a.2)
  · intro c ts ts' tables tables' t t' node node' elements elements' hperm hord hts hts' hnode hnode'
    obtain ⟨e, he, hslot⟩ := Goal.run_literal tables c hts hnode
    obtain ⟨e', he', hslot'⟩ := Goal.run_literal tables' c hts' hnode'
    refine ⟨e, e', _, _, he, he', hslot, hslot', ?_⟩
    have hord' : ∀ a ∈ ts', a.isVoid = true ∨ a.isOrdinary = true := fun a ha =>
      hord a (hperm.mem_iff.2 ha)
    exact rel_same_container c (((least_elementType hord).perm hperm).unique (least_elementType hord'))

/-- Arrays of null and arrays of arrays of integers have a least common supertype. An array of an
integer, a call without value and a float has one type, whichever of the elements comes first. -/
theorem commonSupertype_isLeast_mixed :
    (array (array .int)).assignable (array (array .float)) = true ∧
    ∃ e e' o o',
      (Goal.react {} mixedLiteral.1 (.literal .array mixedLiteral.2)).run mixedLiteral.1
        mixedTypes = .ok e ∧
      (Goal.react {} mixedLiteral.1 (.literal .array mixedLiteral.2.reverse)).run mixedLiteral.1
        mixedTypes = .ok e' ∧
      e.attributes.slot? (.typeOf mixedLiteral.1.id) = some (.of .type o) ∧
      e'.attributes.slot? (.typeOf mixedLiteral.1.id) = some (.of .type o') ∧
      Option.Rel (fun a b : Ty => a.same b = true) o o' := by
  obtain ⟨_, least, _, literal⟩ := commonSupertype_isLeast
  constructor
  · exact (least ⟨array .null, rfl⟩ ⟨array (array .int), rfl⟩ _ rfl).2.2.2
      ⟨array (array .float), rfl⟩ rfl rfl
  · apply literal .array [.int, .void, .float] [.float, .void, .int]
    · exact (List.reverse_perm [Ty.int, .void, .float]).symm
    · decide
    · simp [mixedLiteral, mixedTypes, Attributes.type?_eq_some, Attributes.slot?_set]
    · simp [mixedLiteral, mixedTypes, Attributes.type?_eq_some, Attributes.slot?_set]
    · simp [mixedLiteral, mixedTypes, Attributes.slot?_set]
    · simp [mixedLiteral, mixedTypes, Attributes.slot?_set]

end Ty

end ScriptAnalysis
