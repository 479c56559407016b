import ScriptAnalysis.Proofs.Tree.Site
import ScriptAnalysis.Typing.Analysis

/-!
Types by direct recursion. Once all names are bound, the type of an expression follows from the types of
its parts by the rule for its form; the types of declarations follow from the types written there.
No result means that the expression has no type.
-/
namespace ScriptAnalysis

/-- The type that a declaration introduces. All declarations of a class introduce the last of them. -/
def Tables.introduced (t : Tables) (id : DeclId) : Option Ty := do
  let x ← t.declarations.items[id.index]?
  match x.kind with
  | .struct _ => return .composite .struct ⟨id, x.name⟩
  | .cls _ => return .composite .cls ⟨← t.declarations.forNode? (← x.node), x.name⟩
  | .typeParameter => return .placeholder ⟨id, x.name⟩
  | _ => (← Builtin.all[id.index]?).declared

/-- What is known when all names are bound: the tables, what stands at each node, the declaration that
each reference resolved to, and the scope that it is bound in or that a node opens. -/
structure Names where
  tables : Tables
  site : NodeId → Option Site
  decl : NodeId → Option DeclId
  scope : NodeId → Option ScopeId

namespace Names

variable (N : Names)

/-- The nearest binding of a name from the scope that a node opens. -/
def lookup (home : NodeId) (name : String) : Option Binding := do
  (N.tables.scopes.lookup (← N.scope home) name).toOption.join

def writtenType (home : NodeId) : TypeExpr → Option Ty
  | .name _ text => do
    let found ← N.lookup home text
    let x ← N.tables.declarations.items[found.declaration.index]?
    if x.kind.isType then N.tables.introduced found.declaration else none
  | .container _ c component => do return .container c (← writtenType home component)

/-- The type of what is declared at a node, from the types written there. -/
def typeAt (n : NodeId) : Option Ty := do
  let s ← N.site n
  match s.part with
  | .binder .typeParameter _ | .stmt (.struct _ _ _) | .stmt (.cls _ _ _ _) => return .type
  | .binder _ b | .stmt (.variable b _) | .stmt (.field b) => N.writtenType s.setting.home b.type
  | .stmt (.function node head _ _) =>
    return .function (← N.writtenType node.id head.result)
      (← head.parameters.mapM fun b => N.writtenType node.id b.type)
  | .stmt (.template node head _ _) =>
    let result ← N.writtenType node.id head.result
    let placeholders ← head.typeParameters.mapM fun b => do
      N.tables.introduced (← N.tables.declarations.forNode? b.node.id)
    let parameters ← head.parameters.mapM fun b => N.writtenType node.id b.type
    return .template result head.typeParameters.length (placeholders ++ parameters)
  | _ => none

def declarationType (id : DeclId) : Option Ty := do
  match (← N.tables.declarations.items[id.index]?).node with
  | none => return (← Builtin.all[id.index]?).type
  | some n => N.typeAt n

/-- The type of a name. A variable has none in front of its declaration. -/
def referenceType (ref : Reference) : Option Ty := do
  let id ← N.decl ref.node.id
  let x ← N.tables.declarations.items[id.index]?
  if x.kind = .variable ∧ x.node.any (ref.node.id.index < ·.index) then none
  else N.declarationType id

/-- The common type of the elements of a literal; elements without value do not count. -/
def elementType : (soFar : Option Ty) → List Ty → Option Ty
  | soFar, [] => soFar
  | soFar, t :: rest =>
    if t.isVoid then elementType soFar rest
    else
      match soFar with
      | none => elementType (some t) rest
      | some s => do elementType (some (← s.commonSupertype? t)) rest

def memberDecl (c : Composite) (name : String) : Ty → Option DeclId
  | .composite d owner => do
    if c = d then
      let members ← (N.tables.members c owner.declaration).toOption
      (N.tables.declarations.findMember members name).toOption.join
    else none
  | _ => none

def memberType (c : Composite) (name : String) : Ty → Option Ty
  | .array _ => if name = "length" then some .int else none
  | stem => do N.declarationType (← N.memberDecl c name stem)

def constructorFields (kind : DeclarationKind) : Composite → Option (List DeclId)
  | .struct => kind.fields?
  | .cls => kind.class?.map fun _ => []

def constructorType (c : Composite) (id : DeclId) : Option Ty := do
  let x ← N.tables.declarations.items[id.index]?
  let fields ← constructorFields x.kind c
  return .function (← N.tables.introduced id) (← fields.mapM N.declarationType)

def indexedType : Ty → Option Ty
  | .array component => some component
  | .placeholder n => some (.placeholder n)
  | _ => none

/-- The functions that a call by a name may mean. -/
def overloads (name : Option String) (scopes : List ScopeId) : List DeclId :=
  match name with
  | some name => N.tables.signatures.overloads name scopes
  | none => []

/-- The overload that argument types select, and its result type. -/
def selected (candidates : List DeclId) (received : List Ty) : Option (DeclId × Ty) := do
  Reaction.selectOverload received (candidates.zip (← candidates.mapM N.declarationType))

/-- The type of a call. With at most one function of its name the callee's own type decides. -/
def callType (candidates : List DeclId) (received : List Ty) : Ty → Option Ty
  | .function result parameters =>
    if 1 < candidates.length then (N.selected candidates received).map (·.2)
    else if parameters.length = received.length then some result
    else none
  | _ => none

def templateCallType (given received : List Ty) : Ty → Option Ty
  | .template result count parameters =>
    if (parameters.drop count).length = received.length ∧ count = given.length then
      some (result.substitute (Goal.placeholderBindings (parameters.take count) given))
    else none
  | _ => none

def memberScopes : Ty → Option (List ScopeId)
  | .composite .cls owner => (N.tables.classScopes owner.declaration).toOption
  | _ => some []

def parameterType (callee : Ty) (index : Nat) : Option Ty :=
  (Goal.parameterAt callee index).toOption.join

mutual

/-- The type of an expression of which a type may be expected. -/
def type (home : NodeId) (expected : Option Ty) : Expr → Option Ty
  | .int _ _ => some .int
  | .float _ _ => some .float
  | .string _ _ => some .string
  | .symbol ref => N.referenceType ref
  | .paren _ inner => type home none inner
  | .literal _ c elements =>
    if elements.isEmpty then expected.filter (·.isContainer c)
    else do return .container c (← elementType none (← types home elements))
  | .not _ _ => some .bool
  | .binary _ op left right =>
    match op.family with
    | .arithmetic => do Ty.arithmetic? op (← type home none left) (← type home none right)
    | _ => some .bool
  | .assign _ target value => do
    let l ← type home none target
    let _ ← type home none value
    return l
  | .call _ callee arguments => do
    let t ← type home none callee
    let received ← argumentTypes home t 0 arguments
    let scopes ← calleeScopes home callee
    N.callType (N.overloads callee.calleeName? scopes) received t
  | .templateCall _ callee types arguments => do
    let t ← type home none callee
    let given ← types.mapM (N.writtenType home)
    let received ← argumentTypes home t 0 arguments
    templateCallType given received t
  | .index _ base position => do
    let b ← type home none base
    let _ ← type home none position
    indexedType b
  | .member _ c stem name => do N.memberType c name (← type home none stem)
  | .construct _ c ref => do N.constructorType c (← N.decl ref.node.id)

/-- The types of expressions of which nothing is expected. -/
def types (home : NodeId) : List Expr → Option (List Ty)
  | [] => some []
  | e :: rest => do return (← type home none e) :: (← types home rest)

/-- The types of arguments, from an index on, of a callee of the given type. -/
def argumentTypes (home : NodeId) (callee : Ty) : (index : Nat) → List Expr → Option (List Ty)
  | _, [] => some []
  | index, e :: rest => do
    return (← type home (parameterType callee index) e) ::
      (← argumentTypes home callee (index + 1) rest)

def calleeScopes (home : NodeId) : Expr → Option (List ScopeId)
  | .symbol ref => do return [← N.scope ref.node.id]
  | .paren _ inner => calleeScopes home inner
  | .member _ .cls stem _ => do N.memberScopes (← type home none stem)
  | _ => some []

end

def expectation (home : NodeId) : Role → Option Ty
  | .free | .condition _ => none
  | .value b => N.typeAt b.node.id
  | .argument callee index => do parameterType (← N.type home none callee) index

def typeIn (st : Setting) (role : Role) (e : Expr) : Option Ty :=
  N.type st.home (N.expectation st.home role) e

def chosen (home : NodeId) : Expr → Option DeclId
  | .symbol ref => N.decl ref.node.id
  | .member _ c stem name => do N.memberDecl c name (← N.type home none stem)
  | .call _ callee arguments => do
    let t ← N.type home none callee
    let received ← N.argumentTypes home t 0 arguments
    let candidates := N.overloads callee.calleeName? (← N.calleeScopes home callee)
    match t with
    | .function _ parameters =>
      if 1 < candidates.length then (N.selected candidates received).map (·.1)
      else if parameters.length = received.length then chosen home callee
      else none
    | _ => none
  | _ => none

end Names

def Site.reference? (s : Site) : Option Reference :=
  match s.part with
  | .reference ref | .expr _ (.symbol ref) => some ref
  | _ => none

theorem Site.id_of_reference? {s : Site} {ref : Reference} (h : s.reference? = some ref) :
    s.id = ref.node.id := by
  unfold Site.reference? at h
  split at h
  · next hpart =>
    cases h
    simp [Site.id, hpart, Part.node]
  · next hpart =>
    cases h
    simp [Site.id, hpart, Part.node, Expr.node]
  · cases h

/-- The names of a program as an analysis of it bound them. -/
def Analysis.names (a : Analysis) (p : Program) : Names where
  tables := a.tables
  site := p.siteAt
  decl n := do
    let _ ← (← p.siteAt n).reference?
    a.attributes.decl? (.declOf n)
  scope n := a.attributes.scope? (.scopeOf n)

end ScriptAnalysis
