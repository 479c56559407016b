import ScriptAnalysis.Proofs.Table.Growth

/-!
Tables up to the places of declarations. What the rules of an analysis ask of tables has the same answer if
the tables differ in these places only (`Tables.Alike`).
-/
namespace ScriptAnalysis

/-- The second computation succeeds where the first does, with related results. -/
def Follows {α β : Type} (Q : α → β → Prop) (x : Except Fault α) (y : Except Fault β) : Prop :=
  ∀ a, x = .ok a → ∃ b, y = .ok b ∧ Q a b

section Follows

variable {α α' β β' : Type} {P : α → α' → Prop} {Q : β → β' → Prop}

theorem follows_pure {b : β} {b' : β'} (h : Q b b') : Follows Q (pure b) (pure b') := by
  rintro _ ⟨⟩
  exact ⟨b', rfl, h⟩

theorem Follows.bind {x : Except Fault α} {y : Except Fault α'} {f : α → Except Fault β}
    {g : α' → Except Fault β'} (hx : Follows P x y) (hf : ∀ a a', P a a' → Follows Q (f a) (g a')) :
    Follows Q (x >>= f) (y >>= g) := by
  intro b hb
  cases x with
  | error e => cases hb
  | ok a =>
    obtain ⟨a', rfl, ha⟩ := hx a rfl
    exact hf a a' ha b hb

theorem follows_mapM {γ : Type} {f f' : α → Except Fault β} {g : β → γ}
    (h : ∀ a, Follows (fun b b' => g b = g b') (f a) (f' a)) (as : List α) :
    Follows (fun bs bs' => bs.map g = bs'.map g) (as.mapM f) (as.mapM f') := by
  induction as with
  | nil => exact follows_pure rfl
  | cons a as ih =>
    rw [List.mapM_cons, List.mapM_cons]
    exact (h a).bind fun b b' hb => ih.bind fun bs bs' hbs => follows_pure (congrArg₂ List.cons hb hbs)

end Follows

def Declaration.unplaced (x : Declaration) : Declaration := { x with span := .null }

def Declarations.unplaced (t : Declarations) : List Declaration := t.items.toList.map Declaration.unplaced

namespace Declarations

variable {t t' : Declarations}

theorem size_of_unplaced (h : t.unplaced = t'.unplaced) : t.size = t'.size := by
  simpa [unplaced, size] using congrArg List.length h

theorem unplaced_add (t : Declarations) (x : Declaration) :
    (t.add x).1.unplaced = t.unplaced ++ [x.unplaced] := by
  simp [add, unplaced]

theorem follows_get (h : t.unplaced = t'.unplaced) (i : DeclId) :
    Follows (fun x x' => x.unplaced = x'.unplaced) (t.get i) (t'.get i) := by
  have hat : ∀ t : Declarations, t.unplaced[i.index]? = t.items[i.index]?.map Declaration.unplaced :=
    fun t => by rw [unplaced, List.getElem?_map, Array.getElem?_toList]
  intro x hx
  have hitem : t'.items[i.index]?.map Declaration.unplaced = some x.unplaced := by
    rw [← hat, ← h, hat, get_eq_ok.1 hx]
    rfl
  obtain ⟨x', hx', hxx'⟩ := Option.map_eq_some_iff.1 hitem
  exact ⟨x', get_eq_ok.2 hx', hxx'.symm⟩

theorem follows_modify (h : t.unplaced = t'.unplaced) (i : DeclId) {f : Declaration → Declaration}
    (hf : ∀ x, (f x).unplaced = f x.unplaced) :
    Follows (fun u u' => u.unplaced = u'.unplaced) (t.modify i f) (t'.modify i f) := by
  refine (follows_get h i).bind fun x x' hx => follows_pure ?_
  have hfx : (f x).unplaced = (f x').unplaced := by rw [hf, hf, hx]
  simp only [unplaced, Array.toList_setIfInBounds, List.map_set, hfx]
  exact congrArg (List.set · i.index (f x').unplaced) h

theorem forNode?_of_unplaced (h : t.unplaced = t'.unplaced) (n : NodeId) :
    t.forNode? n = t'.forNode? n := by
  have hnodes : ∀ t : Declarations, t.items.toList.map Declaration.node =
      t.unplaced.map Declaration.node := fun t => by
    rw [unplaced, List.map_map]
    rfl
  rw [forNode?_eq, forNode?_eq, idsAt, idsAt, hnodes, hnodes, h]

theorem follows_findMember (h : t.unplaced = t'.unplaced) (is : List DeclId) (name : String) :
    Follows Eq (t.findMember is name) (t'.findMember is name) := by
  refine (follows_mapM (g := fun y => (y.1, y.2.unplaced)) (fun i => (follows_get h i).bind
    fun x x' hx => follows_pure (congrArg (Prod.mk i) hx)) is).bind fun known known' hall => follows_pure ?_
  have hanswer : ∀ l : List (DeclId × Declaration), ([0, 1, 2, 3].findSome? fun rank =>
        ((l.filter (·.2.name = name)).find? (·.2.kind.rank = rank)).map (·.1)) =
      [0, 1, 2, 3].findSome? fun rank => (((l.map fun y => (y.1, y.2.unplaced)).filter
        (·.2.name = name)).find? (·.2.kind.rank = rank)).map (·.1) := by
    intro l
    simp only [List.filter_map, List.find?_map, Option.map_map]
    rfl
  rw [hanswer known, hanswer known', hall]

end Declarations

structure Tables.Alike (t t' : Tables) : Prop where
  scopes : t.scopes = t'.scopes
  declarations : t.declarations.unplaced = t'.declarations.unplaced
  signatures : t.signatures = t'.signatures

namespace Tables.Alike

variable {t t' : Tables}

theorem refl (t : Tables) : t.Alike t := ⟨rfl, rfl, rfl⟩

theorem members (h : t.Alike t') (c : Composite) (i : DeclId) :
    Follows Eq (t.members c i) (t'.members c i) := by
  refine (Declarations.follows_get h.declarations i).bind fun x x' hx => follows_pure ?_
  rw [show x.kind = x'.kind from congrArg (·.kind) hx]

theorem classScopes (h : t.Alike t') (i : DeclId) : Follows Eq (t.classScopes i) (t'.classScopes i) := by
  refine (Declarations.follows_get h.declarations i).bind fun x x' hx => ?_
  rw [show x.kind = x'.kind from congrArg (·.kind) hx]
  refine (follows_mapM (Declarations.follows_get h.declarations) _).bind fun xs xs' hxs => follows_pure ?_
  have hscopes : ∀ ys : List Declaration, ys.filterMap Declaration.bodyScope =
      (ys.map Declaration.unplaced).filterMap Declaration.bodyScope := fun ys => by
    rw [List.filterMap_map]
    rfl
  rw [hscopes xs, hscopes xs', hxs]

end Tables.Alike

end ScriptAnalysis
