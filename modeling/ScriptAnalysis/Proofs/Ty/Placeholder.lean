import ScriptAnalysis.Proofs.Ty.Regular
import ScriptAnalysis.Typing.Obligation

/-!
Placeholders in types. A template type lists its own placeholders, so these are at home in it; a type in
which all placeholders are at home is closed. The rules of the language make closed types from closed types
(`Ty.closed_substitute` for calls of templates).
-/
namespace ScriptAnalysis.Ty

def placeholders (ts : List Ty) : List DeclId :=
  ts.filterMap fun t =>
    match t with
    | .placeholder n => some n.declaration
    | _ => none

mutual

/-- Whether every placeholder in a type is in a list, or listed by a template type around it. -/
def covered (bound : List DeclId) : Ty → Bool
  | .primitive _ | .composite _ _ => true
  | .placeholder n => n.declaration ∈ bound
  | .container _ a => covered bound a
  | .function r ps => covered bound r && coveredAll bound ps
  | .template r k ps =>
    covered (bound ++ placeholders (ps.take k)) r && coveredAll (bound ++ placeholders (ps.take k)) ps

def coveredAll (bound : List DeclId) : List Ty → Bool
  | [] => true
  | t :: rest => covered bound t && coveredAll bound rest

end

/-- Whether no placeholder is outside of the template types that list it. -/
def closed (t : Ty) : Bool := t.covered []

variable {n : Nat} {bound : List DeclId} {a b t : Ty} {ts : List Ty}

theorem coveredAll_iff : coveredAll bound ts = true ↔ ∀ t ∈ ts, t.covered bound = true := by
  induction ts with
  | nil => simp [coveredAll]
  | cons t rest ih => simp [coveredAll, ih]

theorem mem_placeholders {id : DeclId} :
    id ∈ placeholders ts ↔ ∃ n : Nominal, .placeholder n ∈ ts ∧ n.declaration = id := by
  unfold placeholders
  rw [List.mem_filterMap]
  constructor
  · rintro ⟨t, ht, h⟩
    cases t with
    | placeholder n => exact ⟨n, ht, Option.some.inj h⟩
    | _ => cases h
  · rintro ⟨n, hn, rfl⟩
    exact ⟨_, hn, rfl⟩

theorem closed_function {r : Ty} {ps : List Ty} :
    (function r ps).closed = true ↔ r.closed = true ∧ ∀ p ∈ ps, p.closed = true := by
  simp [closed, covered, coveredAll_iff]

theorem closed_template {r : Ty} {k : Nat} {ps : List Ty} :
    (template r k ps).closed = true ↔ r.covered (placeholders (ps.take k)) = true ∧
      ∀ p ∈ ps, p.covered (placeholders (ps.take k)) = true := by
  simp [closed, covered, coveredAll_iff]

theorem closed_arithmetic? {op : BinaryOp} (ha : a.closed = true) (hb : b.closed = true)
    (h : arithmetic? op a b = some t) : t.closed = true := by
  rcases arithmetic?_cases h with rfl | rfl | ⟨_, rfl⟩ | ⟨_, _, rfl⟩
  · exact ha
  · exact hb
  · rfl
  · rfl

/-- A plain type is closed once closed types are put in for all its placeholders. -/
theorem closed_substitute {bindings : Bindings}
    (hb : ∀ id ∈ bound, ∃ u, bindings.lookup id = some u ∧ u.closed = true) :
    ∀ {t : Ty}, t.Plain n → t.covered bound = true → (t.substitute bindings).closed = true
  | .primitive _, _, _ | .composite _ _, _, _ => by
    rw [substitute]
    rfl
  | .container _ a, hplain, h => by
    rw [substitute]
    rw [covered] at h
    exact closed_substitute (t := a) hb hplain h
  | .placeholder m, _, h => by
    obtain ⟨u, hu, hclosed⟩ := hb m.declaration (by simpa [covered] using h)
    rw [substitute, hu]
    exact hclosed

/-- Every placeholder of a template is bound when as many types are given as it has. -/
theorem exists_lookup_placeholderBindings {ps given : List Ty} (hlen : ps.length = given.length)
    (hgiven : ∀ u ∈ given, u.closed = true) :
    ∀ id ∈ placeholders ps, ∃ u, (Goal.placeholderBindings ps given).lookup id = some u ∧
      u.closed = true := by
  induction ps generalizing given with
  | nil => simp [placeholders]
  | cons q ps ih =>
    obtain ⟨u, given, rfl⟩ := List.exists_cons_of_length_eq_add_one hlen.symm
    simp only [List.forall_mem_cons] at hgiven
    have hrest := ih (by simpa using hlen) hgiven.2
    cases q with
    | placeholder m =>
      intro id hid
      simp only [Goal.placeholderBindings, List.zip_cons_cons, List.filterMap_cons, List.lookup_cons]
      split
      · exact ⟨u, rfl, hgiven.1⟩
      · next hne =>
        refine hrest id ?_
        simp only [placeholders, List.filterMap_cons, List.mem_cons] at hid
        rcases hid with rfl | hid
        · simp at hne
        · exact hid
    | _ => exact hrest

end ScriptAnalysis.Ty
