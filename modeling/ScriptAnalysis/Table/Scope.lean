import ScriptAnalysis.Basic

/-!
Lexical scopes. All scopes of an analysis stand in one table and name their parent, so a name can
still be looked up from a scope after the walk has left it.
-/
namespace ScriptAnalysis

inductive ScopeKind where
  | root
  | block
  | function (declaration : DeclId)
  | cls (declaration : DeclId)
  deriving DecidableEq, Repr

structure Scope where
  parent : Option ScopeId
  kind : ScopeKind
  bindings : List (String × DeclId) := []
  deriving Repr

/-- The declaration bound to a name in this very scope. -/
def Scope.get? (s : Scope) (name : String) : Option DeclId := s.bindings.lookup name

structure Binding where
  declaration : DeclId
  scope : ScopeId
  deriving DecidableEq, Repr

structure ScopeTable where
  scopes : Array Scope

namespace ScopeTable

def root : ScopeId := ⟨0⟩

/-- The table that holds the root scope only. -/
def initial : ScopeTable := ⟨#[{ parent := none, kind := .root }]⟩

def size (t : ScopeTable) : Nat := t.scopes.size

def get (t : ScopeTable) (id : ScopeId) : Except Fault Scope :=
  match t.scopes[id.index]? with
  | some s => .ok s
  | none => .error .unknownScope

/-- Opens a scope below another, and gives its number. -/
def push (t : ScopeTable) (parent : ScopeId) (kind : ScopeKind) : ScopeTable × ScopeId :=
  (⟨t.scopes.push { parent := some parent, kind }⟩, ⟨t.scopes.size⟩)

/-- Binds a name in a scope; an earlier binding of it there is replaced. -/
def declare (t : ScopeTable) (id : ScopeId) (name : String) (declaration : DeclId) :
    Except Fault ScopeTable := do
  let s ← t.get id
  return ⟨t.scopes.setIfInBounds id.index { s with bindings := (name, declaration) :: s.bindings }⟩

/-- Visits a scope and its ancestors until one gives an answer. At most `steps` scopes are visited,
and no chain without repetition is longer than the table. -/
def search {α : Type} (t : ScopeTable) (visit : ScopeId → Scope → Option α) :
    (steps : Nat) → ScopeId → Except Fault (Option α)
  | 0, _ => .error .scopeCycle
  | steps + 1, id => do
    let s ← t.get id
    match visit id s, s.parent with
    | some answer, _ => return some answer
    | none, none => return none
    | none, some parent => t.search visit steps parent

/-- The nearest binding of a name from a scope outwards. -/
def lookup (t : ScopeTable) (id : ScopeId) (name : String) : Except Fault (Option Binding) :=
  t.search (fun here s => (s.get? name).map (⟨·, here⟩)) t.size id

/-- What a scope says on the function that it belongs to; a block leaves that to its parent. -/
def ScopeKind.owner? : ScopeKind → Option (Option DeclId)
  | .function declaration => some (some declaration)
  | .cls _ | .root => some none
  | .block => none

/-- The function or template whose body a scope belongs to. A class body is part of no function. -/
def enclosingFunction (t : ScopeTable) (id : ScopeId) : Except Fault (Option DeclId) := do
  return (← t.search (fun _ s => ScopeKind.owner? s.kind) t.size id).join

end ScopeTable

end ScriptAnalysis
