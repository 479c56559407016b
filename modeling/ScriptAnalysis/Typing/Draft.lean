import ScriptAnalysis.Typing.Obligation

/-!
Drafts: what the walk over a program has found out so far. The names every program starts with are in
the first draft.
-/
namespace ScriptAnalysis

structure Draft where
  tables : Tables := {}
  attributes : Attributes := {}
  diagnostics : List Diagnostic := []
  obligations : Array Obligation := #[]

abbrev Walk := EStateM Fault Draft

namespace Walk

def check {α : Type} (result : Except Fault α) : Walk α :=
  match result with
  | .ok a => return a
  | .error f => throw f

def setAttribute (a : Attribute) (v : Value) : Walk Unit :=
  modify fun d => { d with attributes := d.attributes.set a v }

def failAttribute (a : Attribute) : Walk Unit :=
  modify fun d => { d with attributes := d.attributes.fail a }

def report (found : Diagnostic) : Walk Unit :=
  modify fun d => { d with diagnostics := d.diagnostics ++ [found] }

def oblige (node : Node) (goal : Goal) : Walk Unit :=
  modify fun d => { d with obligations := d.obligations.push ⟨node, goal⟩ }

def openScope (parent : ScopeId) (kind : ScopeKind) : Walk ScopeId := do
  let d ← get
  let (scopes, id) := d.tables.scopes.push parent kind
  set { d with tables := { d.tables with scopes } }
  return id

def bindName (scope : ScopeId) (name : String) (declaration : DeclId) : Walk Unit := do
  let d ← get
  let scopes ← check (d.tables.scopes.declare scope name declaration)
  set { d with tables := { d.tables with scopes } }

def lookup (scope : ScopeId) (name : String) : Walk (Option Binding) := do
  check ((← get).tables.scopes.lookup scope name)

def declare (declaration : Declaration) : Walk DeclId := do
  let d ← get
  let (declarations, id) := d.tables.declarations.add declaration
  set { d with tables := { d.tables with declarations } }
  return id

def declareAt (node : Node) (name : String) (kind : DeclarationKind) : Walk DeclId :=
  declare { name, kind, node := some node.id, span := node.span }

def declaration (id : DeclId) : Walk Declaration := do
  check ((← get).tables.declarations.get id)

def modifyDeclaration (id : DeclId) (f : Declaration → Declaration) : Walk Unit := do
  let d ← get
  let declarations ← check (d.tables.declarations.modify id f)
  set { d with tables := { d.tables with declarations } }

def registerSignature (s : Signature) (declaration : DeclId) : Walk Unit :=
  modify fun d =>
    { d with tables := { d.tables with signatures := d.tables.signatures.register s declaration } }

end Walk

end ScriptAnalysis
