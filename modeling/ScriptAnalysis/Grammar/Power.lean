import ScriptAnalysis.Token.Basic

/-! Binding powers, and the parts that tokens play in the grammar. -/
namespace ScriptAnalysis

inductive Power where
  | lowest | comma | assignment | logicalOr | logicalAnd | relational | additive | multiplicative
  | unary | call | member | primary
  deriving DecidableEq, Repr

namespace Power

def level : Power → Nat
  | .lowest => 0
  | .comma => 1
  | .assignment => 2
  | .logicalOr => 3
  | .logicalAnd => 4
  | .relational => 5
  | .additive => 6
  | .multiplicative => 7
  | .unary => 8
  | .call => 9
  | .member => 10
  | .primary => 11

instance : LT Power := ⟨fun p q => p.level < q.level⟩

instance (p q : Power) : Decidable (p < q) := inferInstanceAs (Decidable (p.level < q.level))

end Power

namespace TokenKind

def binaryOp? : TokenKind → Option BinaryOp
  | .star => some .multiply
  | .slash => some .divide
  | .percent => some .remainder
  | .plus => some .add
  | .dash => some .subtract
  | .greater => some .greater
  | .less => some .lower
  | .greaterEquals => some .greaterEqual
  | .lessEquals => some .lowerEqual
  | .equals => some .equal
  | .notEquals => some .notEqual
  | .and => some .and
  | .or => some .or
  | _ => none

/-- The power of a token that extends the expression before it. -/
def extensionPower? : TokenKind → Option Power
  | .assignment => some .assignment
  | .or => some .logicalOr
  | .and => some .logicalAnd
  | .less | .lessEquals | .greater | .greaterEquals | .equals | .notEquals => some .relational
  | .plus | .dash => some .additive
  | .star | .slash | .percent => some .multiplicative
  | .openParen | .openBracket => some .call
  | .dot | .dollar => some .member
  | _ => none

def startsExpr : TokenKind → Bool
  | .number | .identifier | .string | .dash | .not | .openParen | .openBracket | .openCurly
  | .dollar | .create => true
  | _ => false

def startsStmt : TokenKind → Bool
  | .openCurly | .var | .fn | .cls | .pub | .pvt | .struct | .template | .ifWord | .whileWord
  | .returnWord => true
  | _ => false

/-- The power of a token in expressions; one that only starts a statement has the lowest. -/
def power? (k : TokenKind) : Option Power :=
  match k.extensionPower? with
  | some p => some p
  | none => if k.startsStmt then some .lowest else none

def startsType : TokenKind → Bool
  | .identifier => true
  | _ => false

def extendsType : TokenKind → Bool
  | .openBracket | .openCurly => true
  | _ => false

def typePower? (k : TokenKind) : Option Power :=
  if k.startsType then some .primary else if k.extendsType then some .call else none

end TokenKind

end ScriptAnalysis
