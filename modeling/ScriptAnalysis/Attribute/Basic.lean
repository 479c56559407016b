import ScriptAnalysis.Ty.Basic
import Std.Data.TreeMap.Lemmas

/-!
Attributes: what an analysis knows about nodes and declarations. A table of attributes is written
once per slot; a slot is unknown, set, or failed for good.
-/
namespace ScriptAnalysis

inductive Owner where
  | node (id : NodeId)
  | decl (id : DeclId)
  deriving DecidableEq, Repr

inductive AttributeKind where
  | type
  | declared
  | decl
  /-- The scope that a reference is bound in, or that a node opens. -/
  | scope
  | returns
  | value
  deriving DecidableEq, Repr

def AttributeKind.word : AttributeKind → String
  | .type => "type"
  | .declared => "declared"
  | .decl => "decl"
  | .scope => "scope"
  | .returns => "returns"
  | .value => "value"

structure Attribute where
  owner : Owner
  kind : AttributeKind
  deriving DecidableEq, Repr

namespace Attribute

abbrev typeOf (id : NodeId) : Attribute := ⟨.node id, .type⟩

abbrev typeOfDecl (id : DeclId) : Attribute := ⟨.decl id, .type⟩

abbrev declaredBy (id : DeclId) : Attribute := ⟨.decl id, .declared⟩

abbrev declOf (id : NodeId) : Attribute := ⟨.node id, .decl⟩

abbrev scopeOf (id : NodeId) : Attribute := ⟨.node id, .scope⟩

abbrev returnsOf (id : NodeId) : Attribute := ⟨.node id, .returns⟩

abbrev valueOf (id : NodeId) : Attribute := ⟨.node id, .value⟩

def render (a : Attribute) : String :=
  match a.owner with
  | .node id => a.kind.word ++ " of node " ++ toString id.index
  | .decl id => a.kind.word ++ " of declaration " ++ toString id.index

end Attribute

def AttributeKind.index : AttributeKind → Nat
  | .type => 0
  | .declared => 1
  | .decl => 2
  | .scope => 3
  | .returns => 4
  | .value => 5

def Attribute.key (a : Attribute) : Nat :=
  match a.owner with
  | .node id => 12 * id.index + a.kind.index
  | .decl id => 12 * id.index + 6 + a.kind.index

theorem AttributeKind.index_lt (k : AttributeKind) : k.index < 6 := by cases k <;> decide

theorem AttributeKind.index_inj {k l : AttributeKind} : k.index = l.index ↔ k = l := by
  cases k <;> cases l <;> decide

theorem Attribute.key_inj {a b : Attribute} : a.key = b.key ↔ a = b := by
  refine ⟨fun h => ?_, congrArg key⟩
  obtain ⟨o, k⟩ := a
  obtain ⟨p, l⟩ := b
  have hk := k.index_lt
  have hl := l.index_lt
  have hmod := congrArg (· % 12) h
  rcases o with ⟨⟨i⟩⟩ | ⟨⟨i⟩⟩ <;> rcases p with ⟨⟨j⟩⟩ | ⟨⟨j⟩⟩ <;> simp only [key] at h hmod
  · have hkl : k = l := AttributeKind.index_inj.1 (by omega)
    have hij : i = j := by omega
    rw [hkl, hij]
  · omega
  · omega
  · have hkl : k = l := AttributeKind.index_inj.1 (by omega)
    have hij : i = j := by omega
    rw [hkl, hij]

inductive Value where
  | type (t : Ty)
  | flag (b : Bool)
  | decl (id : DeclId)
  | scope (id : ScopeId)
  deriving Repr

inductive Slot where
  | set (v : Value)
  | failed
  deriving Repr

structure Attributes where
  slots : Std.TreeMap Nat Slot := {}

namespace Attributes

def slot? (t : Attributes) (a : Attribute) : Option Slot := t.slots[a.key]?

def isKnown (t : Attributes) (a : Attribute) : Bool := (t.slot? a).isSome

def get? (t : Attributes) (a : Attribute) : Option Value :=
  match t.slot? a with
  | some (.set v) => some v
  | _ => none

def isSet (t : Attributes) (a : Attribute) : Bool := (t.get? a).isSome

def isFailed (t : Attributes) (a : Attribute) : Bool :=
  match t.slot? a with
  | some .failed => true
  | _ => false

def size (t : Attributes) : Nat := t.slots.size

/-- Fills a slot that is unknown; a known one stays as it is. -/
def write (t : Attributes) (a : Attribute) (s : Slot) : Attributes :=
  if t.isKnown a then t else ⟨t.slots.insert a.key s⟩

/-- Gives an unknown attribute a value. -/
def set (t : Attributes) (a : Attribute) (v : Value) : Attributes := t.write a (.set v)

def fail (t : Attributes) (a : Attribute) : Attributes := t.write a .failed

def failAll (t : Attributes) (as : List Attribute) : Attributes := as.foldl fail t

def type? (t : Attributes) (a : Attribute) : Option Ty :=
  match t.get? a with
  | some (.type ty) => some ty
  | _ => none

def flag? (t : Attributes) (a : Attribute) : Option Bool :=
  match t.get? a with
  | some (.flag b) => some b
  | _ => none

/-- The declaration that an attribute is set to. -/
def decl? (t : Attributes) (a : Attribute) : Option DeclId :=
  match t.get? a with
  | some (.decl d) => some d
  | _ => none

def scope? (t : Attributes) (a : Attribute) : Option ScopeId :=
  match t.get? a with
  | some (.scope s) => some s
  | _ => none

@[simp] theorem slot?_empty (a : Attribute) : ({} : Attributes).slot? a = none := by
  simp [slot?]

/-- A write fills the slot it names if that was unknown, and changes no other. -/
theorem slot?_write (t : Attributes) (a b : Attribute) (s : Slot) :
    (t.write a s).slot? b = if a = b then some ((t.slot? a).getD s) else t.slot? b := by
  unfold write isKnown
  split
  · next h =>
    obtain ⟨v, hv⟩ := Option.isSome_iff_exists.1 h
    split
    · next hab => subst hab; simp [hv]
    · rfl
  · next h =>
    have hn : t.slot? a = none := by simpa using h
    simp only [slot?, Std.TreeMap.getElem?_insert, Nat.compare_eq_eq, Attribute.key_inj]
    split
    · simp only [slot?] at hn; simp [hn]
    · rfl

end Attributes

end ScriptAnalysis
