import ScriptAnalysis.Basic
import Std.Data.TreeMap.Lemmas

/-!
Signatures of functions. A function is listed under its scope, its name and the texts of its
parameter types; of functions with the same signature the last one counts, in the place of the first.
-/
namespace ScriptAnalysis

structure Signature where
  scope : ScopeId
  name : String
  parameters : List String
  deriving DecidableEq, Repr

namespace Signature

def render (s : Signature) : String :=
  s.name ++ " [" ++ String.intercalate ", " s.parameters ++ "]"

def compare : Signature → Signature → Ordering :=
  compareLex (compareOn fun s => s.scope.index) (compareLex (compareOn name) (compareOn parameters))

instance : Std.TransCmp compare :=
  inferInstanceAs (Std.TransCmp (compareLex _ (compareLex _ _)))

theorem compare_eq_eq {s u : Signature} : compare s u = .eq ↔ s = u := by
  constructor
  · intro h
    obtain ⟨hscope, hrest⟩ := compareLex_eq_eq.1 h
    obtain ⟨hname, hparameters⟩ := compareLex_eq_eq.1 hrest
    obtain ⟨⟨_⟩, _, _⟩ := s
    obtain ⟨⟨_⟩, _, _⟩ := u
    cases Std.LawfulEqOrd.eq_of_compare hscope
    cases Std.LawfulEqOrd.eq_of_compare hname
    cases Std.LawfulEqOrd.eq_of_compare hparameters
    rfl
  · rintro rfl
    exact Std.ReflCmp.compare_self

end Signature

structure Signatures where
  entries : Std.TreeMap Signature DeclId Signature.compare := {}
  order : Array Signature := #[]

namespace Signatures

def size (t : Signatures) : Nat := t.entries.size

def get? (t : Signatures) (s : Signature) : Option DeclId := t.entries[s]?

/-- Lists a function under a signature, and gives the function that it takes the place of. -/
def replace (t : Signatures) (s : Signature) (declaration : DeclId) : Signatures × Option DeclId :=
  let previous := t.get? s
  let order := match previous with
    | some _ => t.order
    | none => t.order.push s
  (⟨t.entries.insert s declaration, order⟩, previous)

def register (t : Signatures) (s : Signature) (declaration : DeclId) : Signatures :=
  (t.replace s declaration).1

/-- The functions of a name, scope by scope in the order given. -/
def overloads (t : Signatures) (name : String) (scopes : List ScopeId) : List DeclId :=
  (scopes.flatMap fun scope => t.order.toList.filter fun s => s.scope = scope ∧ s.name = name).filterMap t.get?

theorem get?_register (t : Signatures) (s u : Signature) (d : DeclId) :
    (t.register s d).get? u = if s = u then some d else t.get? u := by
  simp only [register, replace, get?, Std.TreeMap.getElem?_insert, Signature.compare_eq_eq]

theorem mem_overloads {t : Signatures} {name : String} {scopes : List ScopeId} {d : DeclId}
    (h : d ∈ t.overloads name scopes) : ∃ s, s.scope ∈ scopes ∧ s.name = name ∧ t.get? s = some d := by
  obtain ⟨s, hs, hd⟩ := List.mem_filterMap.1 h
  obtain ⟨scope, hscope, hs⟩ := List.mem_flatMap.1 hs
  obtain ⟨rfl, hname⟩ := of_decide_eq_true (List.mem_filter.1 hs).2
  exact ⟨s, hscope, hname, hd⟩

end Signatures

end ScriptAnalysis
