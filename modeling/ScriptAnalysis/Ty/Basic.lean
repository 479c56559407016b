import ScriptAnalysis.Basic

/-!
Types of the language. Composites and placeholders are nominal: two of them are the same type if they
come from the same declaration, whatever their names.
-/
namespace ScriptAnalysis

inductive Primitive where
  | void | bool | int | float | string | null
  /-- The type of a type that is used as a value. -/
  | type
  | modifier
  deriving DecidableEq, Repr

def Primitive.name : Primitive → String
  | .void => "Void"
  | .bool => "Bool"
  | .int => "Int"
  | .float => "Float"
  | .string => "String"
  | .null => "Null"
  | .type => "Type"
  | .modifier => "Modifier"

structure Nominal where
  declaration : DeclId
  name : String
  deriving DecidableEq, Repr

/-- A type. A template lists its placeholders first, `count` of them, then its value parameters. -/
inductive Ty where
  | primitive (p : Primitive)
  | container (c : Container) (component : Ty)
  | composite (c : Composite) (nominal : Nominal)
  | placeholder (nominal : Nominal)
  | function (result : Ty) (parameters : List Ty)
  | template (result : Ty) (count : Nat) (parameters : List Ty)
  deriving Repr

namespace Ty

@[match_pattern] abbrev void : Ty := .primitive .void
@[match_pattern] abbrev bool : Ty := .primitive .bool
@[match_pattern] abbrev int : Ty := .primitive .int
@[match_pattern] abbrev float : Ty := .primitive .float
@[match_pattern] abbrev string : Ty := .primitive .string
@[match_pattern] abbrev null : Ty := .primitive .null
@[match_pattern] abbrev type : Ty := .primitive .type
@[match_pattern] abbrev modifier : Ty := .primitive .modifier
@[match_pattern] abbrev array (component : Ty) : Ty := .container .array component

mutual

/-- Whether two types are the same; nominal types are compared by declaration. -/
def same : Ty → Ty → Bool
  | .primitive p, .primitive q => p = q
  | .container c a, .container d b => c = d && same a b
  | .composite c m, .composite d n => c = d && m.declaration = n.declaration
  | .placeholder m, .placeholder n => m.declaration = n.declaration
  | .function r ps, .function s qs => same r s && sameAll ps qs
  | .template r k ps, .template s l qs => same r s && k = l && sameAll ps qs
  | _, _ => false

/-- Whether two lists hold the same types in the same order. -/
def sameAll : List Ty → List Ty → Bool
  | [], [] => true
  | a :: as, b :: bs => same a b && sameAll as bs
  | _, _ => false

end

def isReference : Ty → Bool
  | .string | .null | .container _ _ | .composite _ _ => true
  | _ => false

def isNumeric : Ty → Bool
  | .int | .float => true
  | _ => false

def isPlaceholder : Ty → Bool
  | .placeholder _ => true
  | _ => false

/-- Whether the type is the type of no value. -/
def isVoid : Ty → Bool
  | .void => true
  | _ => false

/-- Whether the type is a container of the given sort. -/
def isContainer (c : Container) : Ty → Bool
  | .container d _ => c = d
  | _ => false

/-- Whether a value of the first type may be stored where the second is expected. A placeholder goes
with everything but `Void`, an integer is a float, null is any reference, and containers vary with
their components. -/
def assignable : Ty → Ty → Bool
  | .container c a, .container d b => c = d && assignable a b
  | .void, _ => false
  | _, .void => false
  | .placeholder _, _ => true
  | _, .placeholder _ => true
  | .int, .float => true
  | .null, b => b.isReference
  | a, b => a.same b

/-- Whether values of the two types may be compared for equality. -/
def comparable (a b : Ty) : Bool :=
  if a.isVoid || b.isVoid then false
  else if a.isPlaceholder || b.isPlaceholder then true
  else (a.isNumeric && b.isNumeric) || (a.isReference && b.isReference) || a.same b

/-- The more general of two types, if a value of one may be stored as the other. -/
def commonSupertype? (a b : Ty) : Option Ty :=
  if a.isVoid || b.isVoid then none
  else if a.assignable b then some b
  else if b.assignable a then some a
  else none

/-- Types bound to declarations of placeholders; the first binding counts. -/
abbrev Bindings := List (DeclId × Ty)

mutual

/-- Replaces placeholders by what is bound to their declarations. Templates are left alone. -/
def substitute (bindings : Bindings) : Ty → Ty
  | .placeholder n => (bindings.lookup n.declaration).getD (.placeholder n)
  | .container c a => .container c (substitute bindings a)
  | .function r ps => .function (substitute bindings r) (substituteAll bindings ps)
  | .primitive p => .primitive p
  | .composite c n => .composite c n
  | .template r k ps => .template r k ps

def substituteAll (bindings : Bindings) : List Ty → List Ty
  | [] => []
  | a :: as => substitute bindings a :: substituteAll bindings as

end

/-- The number type that a type calculates with: itself, or the component of a numeric array. -/
def numericComponent? : Ty → Option Ty
  | .array component => if component.isNumeric then some component else none
  | t => if t.isNumeric then some t else none

def widest (a b : Ty) : Ty := if a.same .float || b.same .float then .float else .int

/-- The result type of an arithmetic operator. A sum with a string is a string. A placeholder takes
the other type. Numbers widen to floats; a numeric array on the left combines with a number or with
another numeric array. -/
def arithmetic? (op : BinaryOp) (left right : Ty) : Option Ty :=
  if op = .add ∧ (left.same .string ∨ right.same .string) then some .string
  else if left.isPlaceholder then some right
  else if right.isPlaceholder then some left
  else
    match left with
    | .array _ => do return .array (widest (← left.numericComponent?) (← right.numericComponent?))
    | _ => if left.isNumeric && right.isNumeric then some (widest left right) else none

def commaList (texts : List String) : String := String.intercalate ", " texts

def splitParameters {α : Type} (count : Nat) (parameters : List α) : Except Fault (List α × List α) :=
  if count ≤ parameters.length then .ok (parameters.splitAt count) else .error .shortTemplate

mutual

def render : Ty → Except Fault String
  | .primitive p => .ok p.name
  | .container c a => do return (← render a) ++ c.suffix
  | .composite _ n => .ok n.name
  | .placeholder n => .ok n.name
  | .function r ps => do
    let parameters ← renderAll ps
    return "(" ++ commaList parameters ++ ") -> " ++ (← render r)
  | .template r count ps => do
    let (placeholders, parameters) ← splitParameters count (← renderAll ps)
    return "<" ++ commaList placeholders ++ ">(" ++ commaList parameters ++ ") -> " ++ (← render r)

def renderAll : List Ty → Except Fault (List String)
  | [] => .ok []
  | a :: as => do return (← render a) :: (← renderAll as)

end

end Ty

end ScriptAnalysis
