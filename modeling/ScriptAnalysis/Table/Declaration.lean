import ScriptAnalysis.Basic

/-!
Declarations. All declarations of an analysis stand in one table; those of a program remember the
node that introduced them, built-in ones have none.
-/
namespace ScriptAnalysis

inductive Visibility where
  | pub | pvt
  deriving DecidableEq, Repr

def Visibility.word : Visibility → String
  | .pub => "pub"
  | .pvt => "pvt"

structure FunctionInfo where
  visibility : Option Visibility := none
  parameters : List DeclId := []
  result : Option NodeId := none
  deriving DecidableEq, Repr

structure ClassInfo where
  visibility : Option Visibility := none
  ownMembers : List DeclId := []
  members : List DeclId := []
  superclasses : List DeclId := []
  /-- The declaration that this one stands in for, if it gathers inherited members. -/
  written : Option DeclId := none
  deriving DecidableEq, Repr

structure TemplateInfo where
  typeParameters : List DeclId := []
  parameters : List DeclId := []
  result : Option NodeId := none
  deriving DecidableEq, Repr

inductive DeclarationKind where
  | variable
  | field
  | parameter
  | function (info : FunctionInfo)
  | struct (fields : List DeclId)
  | cls (info : ClassInfo)
  | template (info : TemplateInfo)
  | typeParameter
  | builtinType
  | builtinVariable
  | builtinFunction
  | modifier
  deriving DecidableEq, Repr

namespace DeclarationKind

def word : DeclarationKind → String
  | .variable | .builtinVariable => "variable"
  | .field => "field"
  | .parameter => "parameter"
  | .function _ | .builtinFunction => "function"
  | .struct _ => "struct"
  | .cls _ => "class"
  | .template _ => "template"
  | .typeParameter => "template type parameter"
  | .builtinType => "type"
  | .modifier => "modifier"

def isType : DeclarationKind → Bool
  | .builtinType | .struct _ | .cls _ | .typeParameter | .modifier => true
  | _ => false

def result? : DeclarationKind → Option NodeId
  | .function info => info.result
  | .template info => info.result
  | _ => none

def fields? : DeclarationKind → Option (List DeclId)
  | .struct fields => some fields
  | _ => none

def class? : DeclarationKind → Option ClassInfo
  | .cls info => some info
  | _ => none

/-- The precedence of a member among members of one name; the lowest comes first. -/
def rank : DeclarationKind → Nat
  | .field | .variable => 0
  | .function _ => 1
  | .template _ => 2
  | _ => 3

end DeclarationKind

structure Declaration where
  name : String
  kind : DeclarationKind
  node : Option NodeId
  span : Span
  bodyScope : Option ScopeId := none
  deriving DecidableEq, Repr

structure Declarations where
  items : Array Declaration := #[]

namespace Declarations

def size (t : Declarations) : Nat := t.items.size

def add (t : Declarations) (d : Declaration) : Declarations × DeclId :=
  (⟨t.items.push d⟩, ⟨t.items.size⟩)

def get (t : Declarations) (id : DeclId) : Except Fault Declaration :=
  match t.items[id.index]? with
  | some d => .ok d
  | none => .error .unknownDeclaration

def modify (t : Declarations) (id : DeclId) (f : Declaration → Declaration) :
    Except Fault Declarations := do
  let d ← t.get id
  return ⟨t.items.setIfInBounds id.index (f d)⟩

def forNode? (t : Declarations) (node : NodeId) : Option DeclId :=
  (t.items.toList.zipIdx.reverse.find? (·.1.node = some node)).map (⟨·.2⟩)

/-- The member of a name. Fields and variables come before functions, these before templates; of
members of one rank the first counts. -/
def findMember (t : Declarations) (members : List DeclId) (name : String) :
    Except Fault (Option DeclId) := do
  let known ← members.mapM fun id => do return (id, ← t.get id)
  let named := known.filter (·.2.name = name)
  return [0, 1, 2, 3].findSome? fun rank => (named.find? (·.2.kind.rank = rank)).map (·.1)

end Declarations

end ScriptAnalysis
