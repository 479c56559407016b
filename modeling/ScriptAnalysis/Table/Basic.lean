import ScriptAnalysis.Table.Declaration
import ScriptAnalysis.Table.Scope
import ScriptAnalysis.Table.Signature

/-! The tables of an analysis together. -/
namespace ScriptAnalysis

structure Tables where
  scopes : ScopeTable := .initial
  declarations : Declarations := {}
  signatures : Signatures := {}

namespace Tables

def classScopes (t : Tables) (id : DeclId) : Except Fault (List ScopeId) := do
  let superclasses := match (← t.declarations.get id).kind.class? with
    | some info => info.superclasses
    | none => []
  let classes ← (id :: superclasses).mapM t.declarations.get
  return classes.filterMap Declaration.bodyScope

def members (t : Tables) (c : Composite) (id : DeclId) : Except Fault (List DeclId) := do
  let kind := (← t.declarations.get id).kind
  return match c with
    | .struct => kind.fields?.getD []
    | .cls => (kind.class?.map ClassInfo.members).getD []

end Tables

end ScriptAnalysis
