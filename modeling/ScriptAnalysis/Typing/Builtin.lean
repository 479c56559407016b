import ScriptAnalysis.Typing.Draft

/-! The names that every program starts with. -/
namespace ScriptAnalysis

structure Builtin where
  name : String
  kind : DeclarationKind
  type : Ty
  declared : Option Ty := none

namespace Builtin

def types : List Builtin :=
  [("Bool", Ty.bool), ("Int", .int), ("Float", .float), ("String", .string), ("Void", .void),
    ("void", .void), ("Type", .type)].map fun (name, t) => ⟨name, .builtinType, .type, some t⟩

def modifiers : List Builtin :=
  ["pub", "pvt"].map fun name => ⟨name, .modifier, .type, some .modifier⟩

def values : List Builtin :=
  [("true", Ty.bool), ("false", .bool), ("null", .null)].map fun (name, t) =>
    ⟨name, .builtinVariable, t, none⟩

def setFunctions (name : String) (element : Ty) : List Builtin :=
  let elements : Ty := .container .set element
  [⟨"addSet" ++ name, .builtinFunction, .function elements [elements, element], none⟩,
    ⟨"containsSet" ++ name, .builtinFunction, .function .bool [elements, element], none⟩]

def functions : List Builtin :=
  ⟨"print", .builtinFunction, .function .string [.string], none⟩ ::
    setFunctions "Int" .int ++ setFunctions "Float" .float ++ setFunctions "String" .string

def all : List Builtin := types ++ modifiers ++ values ++ functions

/-- Declares a built-in name in the root scope. -/
def declare (b : Builtin) : Walk Unit := do
  let id ← Walk.declare { name := b.name, kind := b.kind, node := none, span := .null }
  Walk.bindName ScopeTable.root b.name id
  Walk.setAttribute (.typeOfDecl id) (.type b.type)
  match b.declared with
  | some t => Walk.setAttribute (.declaredBy id) (.type t)
  | none => return

def declareAll : Walk Unit := all.forM declare

end Builtin

end ScriptAnalysis
