import ScriptAnalysis.Propagation.Reaction
import ScriptAnalysis.Table.Basic
import ScriptAnalysis.Tree.Stmt

/-!
Obligations: what the walk over a program leaves to be computed or checked once other attributes are
known. Each goal says what it waits for, what it settles and how.
-/
namespace ScriptAnalysis

inductive OverloadSite where
  | name (symbol : NodeId)
  | element (stem : NodeId)
  deriving DecidableEq, Repr

namespace OverloadSite

def of? : Expr → Option OverloadSite
  | .symbol ref => some (.name ref.node.id)
  | .paren _ inner => of? inner
  | .member _ .cls stem _ => some (.element stem.id)
  | _ => none

def attr : OverloadSite → Attribute
  | .name symbol => .scopeOf symbol
  | .element stem => .typeOf stem

end OverloadSite

structure Callee where
  id : NodeId
  text : String
  name : Option String
  site : Option OverloadSite
  deriving DecidableEq, Repr

def Callee.of (e : Expr) : Callee := ⟨e.id, e.render, e.calleeName?, OverloadSite.of? e⟩

/-- The functions of the name of a callee in given scopes. -/
def Callee.overloads (t : Tables) (callee : Callee) (scopes : List ScopeId) : List DeclId :=
  match callee.name with
  | some name => t.signatures.overloads name scopes
  | none => []

inductive Goal where
  | typeName (scope : ScopeId) (name : String)
  | containerType (c : Container) (component : NodeId)
  | copy (source target : Attribute)
  | blockReturns (containers : List NodeId)
  | branchesReturn (thenBody elseBody : NodeId)
  | initializer (declaration : DeclId) (name : String) (value : Node)
  | bodyReturns (body result : NodeId)
  | functionType (declaration : DeclId) (result : NodeId) (parameters : List NodeId)
  | templateType (declaration : DeclId) (result : NodeId) (typeParameters : List DeclId)
      (parameters : List NodeId)
  | condition (statement : String)
  | emptyReturn (result : NodeId)
  | valueReturn (result : NodeId) (value : Node)
  | lateReference (scope : ScopeId) (name : String)
  | emptyForVariable (c : Container) (declaration : DeclId)
  | emptyForArgument (c : Container) (callee : NodeId) (index : Nat)
  | literal (c : Container) (elements : List Node)
  | negation (operand : NodeId)
  | arithmetic (op : BinaryOp) (left right : NodeId)
  | equality (left right : NodeId)
  | logic (left right : Node)
  | comparison (left right : Node)
  | assignment (target : Node) (isPlace : Bool) (value : NodeId)
  | index (base : NodeId) (position : Node)
  | member (c : Composite) (stem : NodeId) (name : String)
  | construct (c : Composite) (ref : NodeId) (name : String)
  | call (callee : Callee) (arguments : List Node)
  | templateCall (callee : NodeId) (text : String) (types : List NodeId) (arguments : List Node)
  deriving DecidableEq, Repr

namespace Goal

open Attribute in
def inputs (node : Node) : Goal → List Attribute
  | .typeName _ _ | .lateReference _ _ => []
  | .containerType _ component => [valueOf component]
  | .copy source _ => [source]
  | .blockReturns containers => containers.map returnsOf
  | .branchesReturn thenBody elseBody => [returnsOf thenBody, returnsOf elseBody]
  | .initializer declaration _ value => [typeOfDecl declaration, typeOf value.id]
  | .bodyReturns body result => [returnsOf body, valueOf result]
  | .functionType _ result parameters => valueOf result :: parameters.map valueOf
  | .templateType _ result typeParameters parameters =>
    valueOf result :: typeParameters.map declaredBy ++ parameters.map valueOf
  | .condition _ => [typeOf node.id]
  | .emptyReturn result => [valueOf result]
  | .valueReturn result value => [valueOf result, typeOf value.id]
  | .emptyForVariable _ declaration => [typeOfDecl declaration]
  | .emptyForArgument _ callee _ => [typeOf callee]
  | .literal _ elements => elements.map (typeOf ·.id)
  | .negation operand => [typeOf operand]
  | .arithmetic _ left right | .equality left right => [typeOf left, typeOf right]
  | .logic left right | .comparison left right => [typeOf left.id, typeOf right.id]
  | .assignment target _ value => [typeOf target.id, typeOf value]
  | .index base position => [typeOf base, typeOf position.id]
  | .member _ stem _ => [typeOf stem]
  | .construct _ ref _ => [declOf ref]
  | .call callee arguments =>
    typeOf callee.id :: arguments.map (typeOf ·.id) ++ (callee.site.map OverloadSite.attr).toList
  | .templateCall callee _ types arguments =>
    typeOf callee :: types.map valueOf ++ arguments.map (typeOf ·.id)

open Attribute in
def outputs (node : Node) : Goal → List Attribute
  | .typeName _ _ | .containerType _ _ => [valueOf node.id]
  | .copy _ target => [target]
  | .blockReturns _ | .branchesReturn _ _ => [returnsOf node.id]
  | .functionType declaration _ _ | .templateType declaration _ _ _ => [typeOfDecl declaration]
  | .lateReference _ _ => [declOf node.id, scopeOf node.id, typeOf node.id]
  | .emptyForVariable _ _ | .emptyForArgument _ _ _ | .literal _ _ | .arithmetic _ _ _
  | .assignment _ _ _ | .index _ _ | .member _ _ _ | .construct _ _ _ | .call _ _
  | .templateCall _ _ _ _ => [typeOf node.id]
  | .initializer _ _ _ | .bodyReturns _ _ | .condition _ | .emptyReturn _ | .valueReturn _ _
  | .negation _ | .equality _ _ | .logic _ _ | .comparison _ _ => []

end Goal

namespace Reaction

def copyLater (source target : Attribute) : Reaction := handOver [source] [target] copyType

def withText (t : Ty) (next : String → Reaction) : Reaction := attempt t.render next

def reportType (cause : String → Cause) (t : Ty) (node : Node) (next : Reaction) : Reaction :=
  withText t fun text => .report (.atNode (cause text) node) next

/-- Reports a finding that names two types, and goes on. -/
def reportTypes (cause : String → String → Cause) (s t : Ty) (node : Node) (next : Reaction) :
    Reaction :=
  withText s fun first => withText t fun second => .report (.atNode (cause first second) node) next

/-- Reports each argument that does not fit its parameter. -/
def checkArguments : (index : Nat) → List Node → (received expected : List Ty) → Reaction → Reaction
  | index, argument :: arguments, r :: received, e :: expected, next =>
    let rest := checkArguments (index + 1) arguments received expected next
    if r.assignable e then rest
    else reportTypes (.incompatibleArgument index) e r argument rest
  | _, _, _, _, next => next

def literalType (c : Container) (node : Node) (outputs : List Attribute) :
    (soFar : Option Ty) → List (Node × Ty) → Reaction
  | none, [] => failAll outputs .done
  | some t, [] => setAt outputs 0 (.type (.container c t)) .done
  | soFar, (element, t) :: rest =>
    if t.isVoid then
      .report (.atNode (.voidElement c.word) element) (literalType c node outputs soFar rest)
    else
      match soFar with
      | none => literalType c node outputs (some t) rest
      | some s =>
        match s.commonSupertype? t with
        | some u => literalType c node outputs (some u) rest
        | none => refuse (.atNode (.noCommonSupertype c.word) node) outputs

/-- The type of an empty literal is the type expected of it, if that is such a container. -/
def emptyLiteral (c : Container) (node : Node) (outputs : List Attribute) (expected : Option Ty) : Reaction :=
  let refused := refuse (.atNode (.uninferableLiteral c.word) node) outputs
  match expected with
  | some t => if t.isContainer c then setAt outputs 0 (.type t) .done else refused
  | none => refused

/-- The first overload whose parameters are the argument types, else the first that takes them. -/
def selectOverload (received : List Ty) (candidates : List (DeclId × Ty)) :
    Option (DeclId × Ty) :=
  let fitting := candidates.filterMap fun (d, t) =>
    match t with
    | .function result parameters =>
      if parameters.length = received.length then some (d, result, parameters) else none
    | _ => none
  let takes (parameters : List Ty) : Bool :=
    (received.zip parameters).all fun (r, e) => r.assignable e
  let same := fitting.find? fun (_, _, parameters) => Ty.sameAll parameters received
  let chosen := same.or (fitting.find? fun (_, _, parameters) => takes parameters)
  chosen.map fun (d, result, _) => (d, result)

def overloadedCall (node : Node) (overloads : List DeclId) (received : List Ty) (arity : Nat)
    (inputs outputs : List Attribute) : Reaction :=
  typesAt inputs (List.range overloads.length) fun types =>
    match selectOverload received (overloads.zip types) with
    | some (d, result) => setAt outputs 0 (.type result) (.set (.declOf node.id) (.decl d) .done)
    | none => refuse (.atNode (.noMatchingOverload arity received.length) node) outputs

end Reaction

namespace Goal

open Attribute Reaction

variable (tables : Tables) (node : Node) (inputs outputs : List Attribute)

/-- What a type name does: it looks the name up and takes the type that the declaration
introduces. -/
def nameType (scope : ScopeId) (name : String) : Reaction :=
  attempt (tables.scopes.lookup scope name) fun
    | none => refuse (.atNode (.unresolvedType name) node) outputs
    | some found =>
      attempt (tables.declarations.get found.declaration) fun d =>
        if d.kind.isType then copyLater (declaredBy found.declaration) (valueOf node.id)
        else refuse (.atNode (.notAType name d.kind.word) node) outputs

/-- What a name does that was not bound where it stands: functions and types may be used before
their declaration, variables may not. -/
def resolveLate (scope : ScopeId) (name : String) : Reaction :=
  attempt (tables.scopes.lookup scope name) fun
    | none => refuse (.atNode (.unresolvedName name) node) outputs
    | some found =>
      setAt outputs 0 (.decl found.declaration) <|
      setAt outputs 1 (.scope found.scope) <|
      attempt (tables.declarations.get found.declaration) fun d =>
        match d.kind with
        | .variable => refuse (.atNode (.usedBeforeDeclaration name) node) [typeOf node.id]
        | _ => copyLater (typeOfDecl found.declaration) (typeOf node.id)

/-- What an access to a member does. An array has a length and no other member. -/
def accessMember (c : Composite) (name : String) (stem : Ty) : Reaction :=
  match stem with
  | .array _ =>
    if name = "length" then setAt outputs 0 (.type .int) .done
    else refuse (.atNode (.nonLengthArrayMember c.memberWord) node) outputs
  | other =>
    let owner? := match other with
      | .composite d n => if c = d then some n else none
      | _ => none
    match owner? with
    | some owner =>
      attempt (tables.members c owner.declaration) fun members =>
      attempt (tables.declarations.findMember members name) fun
        | some d => .set (declOf node.id) (.decl d) (copyLater (typeOfDecl d) (typeOf node.id))
        | none => refuse (.atNode (.missingMember name c.word owner.name) node) outputs
    | none => withText other fun text => refuse (.atNode (.invalidMemberTarget c text) node) outputs

def buildConstructor : Reaction :=
  typeAt inputs 0 fun composite =>
  typesAt inputs (List.range' 1 (inputs.length - 1)) fun fields =>
    setAt outputs 0 (.type (.function composite fields)) .done

def constructorType (c : Composite) (name : String) (d : DeclId) : Reaction :=
  attempt (tables.declarations.get d) fun declaration =>
    let fields? := match c with
      | .struct => declaration.kind.fields?
      | .cls => declaration.kind.class?.map fun _ => []
    match fields? with
    | some fields => handOver (declaredBy d :: fields.map typeOfDecl) [typeOf node.id] buildConstructor
    | none => refuse (.atNode (.notConstructible c name) node) outputs

/-- Continues with the scopes that may hold overloads of a callee, as an input says. -/
def overloadScopes (site : Option OverloadSite) (i : Nat) (next : List ScopeId → Reaction) : Reaction :=
  match site with
  | none => next []
  | some (.name _) => scopeAt inputs i fun scope => next [scope]
  | some (.element _) =>
    typeAt inputs i fun
      | .composite .cls owner => attempt (tables.classScopes owner.declaration) next
      | _ => next []

/-- What a call does once the types of its parts and the functions of its name are known. With at most one
function the arguments are checked against the type of the callee; otherwise an overload is chosen. -/
def decideCall (callee : NodeId) (arguments : List Node) (result : Ty) (parameters received : List Ty)
    (overloads : List DeclId) : Reaction :=
  if 1 < overloads.length then
    handOver (overloads.map typeOfDecl) [typeOf node.id]
      (overloadedCall node overloads received parameters.length)
  else if parameters.length ≠ received.length then
    refuse (.atNode (.wrongArity parameters.length received.length) node) outputs
  else
    let check := checkArguments 0 arguments received parameters .done
    setAt outputs 0 (.type result) <|
    .read (declOf callee) fun
      | some (.decl d) => .set (declOf node.id) (.decl d) check
      | _ => check

def checkCall (callee : Callee) (arguments : List Node) : Reaction :=
  typeAt inputs 0 fun
    | .function result parameters =>
      typesAt inputs (List.range' 1 arguments.length) fun received =>
      overloadScopes tables inputs callee.site (arguments.length + 1) fun scopes =>
        decideCall node outputs callee.id arguments result parameters received (callee.overloads tables scopes)
    | _ => refuse (.atNode (.notCallable callee.text) node) outputs

def placeholderBindings (placeholders given : List Ty) : Ty.Bindings :=
  (placeholders.zip given).filterMap fun (p, t) =>
    match p with
    | .placeholder n => some (n.declaration, t)
    | _ => none

/-- What a template call does: it checks the arguments against the signature with the type arguments
put in. The body is not looked at. -/
def checkTemplateCall (text : String) (typeCount : Nat) (arguments : List Node) : Reaction :=
  typeAt inputs 0 fun
    | .template result count parameters =>
      attempt (Ty.splitParameters count parameters) fun (placeholders, expected) =>
        if expected.length ≠ arguments.length then
          refuse (.atNode (.wrongArity expected.length arguments.length) node) outputs
        else if count ≠ typeCount then
          refuse (.atNode (.wrongTypeArgumentCount count typeCount) node) outputs
        else
          typesAt inputs (List.range' 1 typeCount) fun given =>
          typesAt inputs (List.range' (1 + typeCount) arguments.length) fun received =>
            let bindings := placeholderBindings placeholders given
            checkArguments 0 arguments received (Ty.substituteAll bindings expected) <|
            setAt outputs 0 (.type (result.substitute bindings)) .done
    | _ => refuse (.atNode (.notATemplate text) node) outputs

def parameterAt (callee : Ty) (index : Nat) : Except Fault (Option Ty) :=
  match callee with
  | .function _ parameters => .ok parameters[index]?
  | .template _ count parameters => do return (← Ty.splitParameters count parameters).2[index]?
  | _ => .ok none

/-- Reports a type that is neither a truth value nor a placeholder. -/
def requireBool (cause : String → Cause) (t : Ty) (place : Node) (next : Reaction) : Reaction :=
  if t.same .bool || t.isPlaceholder then next else reportType cause t place next

def requireNumber (cause : String → Cause) (t : Ty) (place : Node) (next : Reaction) : Reaction :=
  if t.isNumeric || t.isPlaceholder then next else reportType cause t place next

/-- What is done for a goal once its inputs are set, which are read by their positions. -/
def compute : Goal → Reaction
  | .typeName scope name => nameType tables node outputs scope name
  | .containerType c _ => typeAt inputs 0 fun t => setAt outputs 0 (.type (.container c t)) .done
  | .copy _ _ => copyType inputs outputs
  | .blockReturns _ =>
    allFlagsAt inputs (List.range inputs.length) fun b => setAt outputs 0 (.flag b) .done
  | .branchesReturn _ _ => allFlagsAt inputs [0, 1] fun b => setAt outputs 0 (.flag b) .done
  | .initializer _ name value =>
    typeAt inputs 0 fun expected =>
    typeAt inputs 1 fun received =>
      if received.assignable expected then .done
      else reportTypes (.incompatibleInitializer name) expected received value .done
  | .bodyReturns _ _ =>
    flagAt inputs 0 fun returns =>
    typeAt inputs 1 fun t =>
      if returns || t.isVoid then .done else .report (.atNode .missingReturn node) .done
  | .functionType _ _ _ =>
    typeAt inputs 0 fun r =>
    typesAt inputs (List.range' 1 (inputs.length - 1)) fun ps =>
      setAt outputs 0 (.type (.function r ps)) .done
  | .templateType _ _ typeParameters _ =>
    typeAt inputs 0 fun r =>
    typesAt inputs (List.range' 1 (inputs.length - 1)) fun ps =>
      setAt outputs 0 (.type (.template r typeParameters.length ps)) .done
  | .condition statement =>
    typeAt inputs 0 fun t => requireBool (.nonBooleanCondition statement) t node .done
  | .emptyReturn _ =>
    typeAt inputs 0 fun t =>
      if t.isVoid then .done else .report (.atNode .returnWithoutValue node) .done
  | .valueReturn _ value =>
    typeAt inputs 0 fun expected =>
    typeAt inputs 1 fun received =>
      if expected.isVoid then .report (.atNode .returnWithValueInVoid node) .done
      else if received.assignable expected then .done
      else reportTypes .incompatibleReturn expected received value .done
  | .lateReference scope name => resolveLate tables node outputs scope name
  | .emptyForVariable c _ => typeAt inputs 0 fun t => emptyLiteral c node outputs (some t)
  | .emptyForArgument c _ i =>
    typeAt inputs 0 fun t => attempt (parameterAt t i) (emptyLiteral c node outputs)
  | .literal c elements =>
    typesAt inputs (List.range elements.length) fun types =>
      literalType c node outputs none (elements.zip types)
  | .negation _ => typeAt inputs 0 fun t => requireBool .invalidNegation t node .done
  | .arithmetic op _ _ =>
    typeAt inputs 0 fun l =>
    typeAt inputs 1 fun r =>
      match Ty.arithmetic? op l r with
      | some t => setAt outputs 0 (.type t) .done
      | none =>
        withText l fun lText => withText r fun rText =>
          refuse (.atNode (.invalidArithmetic op.verb lText rText) node) outputs
  | .equality _ _ =>
    typeAt inputs 0 fun l =>
    typeAt inputs 1 fun r =>
      if l.comparable r then .done else reportTypes .incomparable l r node .done
  | .logic left right =>
    typeAt inputs 0 fun l =>
    typeAt inputs 1 fun r =>
      requireBool .nonBooleanLogic l left (requireBool .nonBooleanLogic r right .done)
  | .comparison left right =>
    typeAt inputs 0 fun l =>
    typeAt inputs 1 fun r =>
      requireNumber .nonNumericComparison l left
        (requireNumber .nonNumericComparison r right .done)
  | .assignment target isPlace _ =>
    typeAt inputs 0 fun l =>
    typeAt inputs 1 fun r =>
      setAt outputs 0 (.type l) <|
      if !isPlace then .report (.atNode .nonAssignable target) .done
      else if r.assignable l then .done
      else .report (.atNode .incompatibleTarget node) .done
  | .index _ position =>
    typeAt inputs 0 fun b =>
    typeAt inputs 1 fun i =>
      let element := match b with
        | .array component => setAt outputs 0 (.type component) .done
        | .placeholder n => setAt outputs 0 (.type (.placeholder n)) .done
        | other =>
          withText other fun text => refuse (.atNode (.nonArrayIndexed text) node) outputs
      if i.same .int || i.isPlaceholder then element
      else .report (.atNode .nonIntegerIndex position) element
  | .member c _ name => typeAt inputs 0 (accessMember tables node outputs c name)
  | .construct c _ name => declAt inputs 0 (constructorType tables node outputs c name)
  | .call callee arguments => checkCall tables node inputs outputs callee arguments
  | .templateCall _ text types arguments =>
    checkTemplateCall node inputs outputs text types.length arguments

/-- What is done for a goal at its node. -/
def react (g : Goal) : Reaction := g.compute tables node (g.inputs node) (g.outputs node)

end Goal

structure Obligation where
  node : Node
  goal : Goal
  deriving DecidableEq, Repr

def Obligation.rule (tables : Tables) (o : Obligation) : Rule where
  inputs := o.goal.inputs o.node
  outputs := o.goal.outputs o.node
  node := o.node
  body := o.goal.react tables o.node

end ScriptAnalysis
