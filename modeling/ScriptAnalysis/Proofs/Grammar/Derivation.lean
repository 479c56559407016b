import ScriptAnalysis.Grammar.Stmt
import ScriptAnalysis.Proofs.Grammar.Words

/-!
The grammar, stated without the parser. `Reads input tree rest` says that the words of the input, up to
the rest, are derived from the grammar with the given tree. Operators bind by their powers; binary
operators of one power group to the left, assignments to the right.
-/
namespace ScriptAnalysis

open Word (mark)

section Lists

variable {α : Type}

inductive Items (R : List Word → α → List Word → Prop) :
    List Word → TokenKind → List α → List Word → Prop
  | nil {close : TokenKind} {rest : List Word} : Items R (mark close :: rest) close [] rest
  | last {close : TokenKind} {input rest : List Word} {a : α} (ha : R input a (mark close :: rest)) :
    Items R input close [a] rest
  | more {close : TokenKind} {input mid rest : List Word} {a : α} {items : List α}
    (ha : R input a (mark .comma :: mid)) (hitems : Items R mid close items rest) :
    Items R input close (a :: items) rest

inductive Many (R : List Word → α → List Word → Prop) : List Word → List α → List Word → Prop
  | nil {rest : List Word} : Many R rest [] rest
  | cons {input mid rest : List Word} {a : α} {items : List α} (ha : R input a mid)
    (hitems : Many R mid items rest) : Many R input (a :: items) rest

def Word.commaJoined : List (List Word) → List Word
  | [] => []
  | [part] => part
  | part :: next :: others => part ++ mark .comma :: commaJoined (next :: others)

end Lists

section Types

def Container.opening : Container → TokenKind
  | .array => .openBracket
  | .set => .openCurly

def Container.closing : Container → TokenKind
  | .array => .closeBracket
  | .set => .closeCurly

theorem Container.spelling?_opening (c : Container) : c.opening.spelling?.isSome := by
  cases c <;> rfl

theorem Container.spelling?_closing (c : Container) : c.closing.spelling?.isSome := by
  cases c <;> rfl

def TypeExpr.words : TypeExpr → List Word
  | .name _ text => [⟨.identifier, text⟩]
  | .container _ c component => component.words ++ [mark c.opening, mark c.closing]

theorem TypeExpr.exists_words (t : TypeExpr) :
    ∃ text tail, t.words = ⟨.identifier, text⟩ :: tail := by
  induction t with
  | name node text => exact ⟨text, [], rfl⟩
  | container node c component ih =>
    obtain ⟨text, tail, ht⟩ := ih
    exact ⟨text, _, by rw [TypeExpr.words, ht, List.cons_append]⟩

def Binder.words (b : Binder) : List Word := ⟨.identifier, b.name⟩ :: mark .colon :: b.type.words

/-- The grammar of names with written types. -/
def Binder.Reads (input : List Word) (b : Binder) (rest : List Word) : Prop :=
  input = b.words ++ rest

end Types

section Powers

def BinaryOp.power : BinaryOp → Power
  | .multiply | .divide | .remainder => .multiplicative
  | .add | .subtract => .additive
  | .greater | .lower | .greaterEqual | .lowerEqual | .equal | .notEqual => .relational
  | .and => .logicalAnd
  | .or => .logicalOr

def BinaryOp.kind : BinaryOp → TokenKind
  | .multiply => .star
  | .divide => .slash
  | .remainder => .percent
  | .add => .plus
  | .subtract => .dash
  | .greater => .greater
  | .lower => .less
  | .greaterEqual => .greaterEquals
  | .lowerEqual => .lessEquals
  | .equal => .equals
  | .notEqual => .notEquals
  | .and => .and
  | .or => .or

/-- The power of the outermost operator of an expression. -/
def Expr.power : Expr → Power
  | .assign _ _ _ => .assignment
  | .binary _ op _ _ => op.power
  | .not _ _ => .unary
  | _ => .primary

/-- The last operand of an expression, at any depth. -/
def Expr.tip : Expr → Expr
  | .not _ operand => operand.tip
  | .binary _ _ _ right => right.tip
  | .assign _ _ value => value.tip
  | e => e

def Composite.accessKind : Composite → TokenKind
  | .struct => .dot
  | .cls => .dollar

def Composite.constructorKind : Composite → TokenKind
  | .struct => .dollar
  | .cls => .create

end Powers

/-- The grammar of expressions. A sign `<` behind a name or member compares only if no type arguments
and parenthesis follow it. -/
inductive Expr.Reads : List Word → Expr → List Word → Prop
  | int {node : Node} {text : String} {value : Int} {rest : List Word} (hpoint : '.' ∉ text.toList)
    (hvalue : Numeral.integer? text.toList = some value) :
    Expr.Reads (⟨.number, text⟩ :: rest) (.int node value) rest
  | negativeInt {node : Node} {text : String} {value : Int} {rest : List Word}
    (hpoint : '.' ∉ text.toList) (hvalue : Numeral.integer? ('-' :: text.toList) = some value) :
    Expr.Reads (mark .dash :: ⟨.number, text⟩ :: rest) (.int node value) rest
  | float {node : Node} {text : String} {value : Binary64} {rest : List Word}
    (hpoint : '.' ∈ text.toList) (hvalue : Numeral.decimal? text.toList = some value) :
    Expr.Reads (⟨.number, text⟩ :: rest) (.float node value) rest
  | negativeFloat {node : Node} {text : String} {value : Binary64} {rest : List Word}
    (hpoint : '.' ∈ text.toList) (hvalue : Numeral.decimal? ('-' :: text.toList) = some value) :
    Expr.Reads (mark .dash :: ⟨.number, text⟩ :: rest) (.float node value) rest
  | string {node : Node} {value : String} {rest : List Word} :
    Expr.Reads (⟨.string, value⟩ :: rest) (.string node value) rest
  | symbol {ref : Reference} {rest : List Word} :
    Expr.Reads (⟨.identifier, ref.name⟩ :: rest) (.symbol ref) rest
  | paren {node : Node} {inner : Expr} {input rest : List Word}
    (hinner : Expr.Reads input inner (mark .closeParen :: rest)) :
    Expr.Reads (mark .openParen :: input) (.paren node inner) rest
  | literal {node : Node} {c : Container} {elements : List Expr} {input rest : List Word}
    (helements : Items Expr.Reads input c.closing elements rest) :
    Expr.Reads (mark c.opening :: input) (.literal node c elements) rest
  | construct {node : Node} {c : Composite} {ref : Reference} {rest : List Word} :
    Expr.Reads (mark c.constructorKind :: ⟨.identifier, ref.name⟩ :: rest) (.construct node c ref)
      rest
  | not {node : Node} {operand : Expr} {input rest : List Word}
    (hoperand : Expr.Reads input operand rest) (hpower : ¬ operand.power < .unary) :
    Expr.Reads (mark .not :: input) (.not node operand) rest
  | binary {node : Node} {op : BinaryOp} {left right : Expr} {input mid rest : List Word}
    (hleft : Expr.Reads input left (mark op.kind :: mid)) (hright : Expr.Reads mid right rest)
    (hleftPower : ¬ left.power < op.power) (hrightPower : op.power < right.power)
    (hless : op = .lower → left.tip.isNamed → typeArgumentsAhead (mid.map Word.kind) = false) :
    Expr.Reads input (.binary node op left right) rest
  | assign {node : Node} {target value : Expr} {input mid rest : List Word}
    (htarget : Expr.Reads input target (mark .assignment :: mid))
    (hvalue : Expr.Reads mid value rest) (hpower : .assignment < target.power) :
    Expr.Reads input (.assign node target value) rest
  | call {node : Node} {callee : Expr} {arguments : List Expr} {input mid rest : List Word}
    (hcallee : Expr.Reads input callee (mark .openParen :: mid)) (hpower : .unary < callee.power)
    (harguments : Items Expr.Reads mid .closeParen arguments rest) :
    Expr.Reads input (.call node callee arguments) rest
  | templateCall {node : Node} {callee : Expr} {types : List TypeExpr} {arguments : List Expr}
    {input mid rest : List Word}
    (hcallee : Expr.Reads input callee (mark .less ::
      (Word.commaJoined (types.map TypeExpr.words) ++ mark .greater :: mark .openParen :: mid)))
    (hnamed : callee.isNamed) (harguments : Items Expr.Reads mid .closeParen arguments rest) :
    Expr.Reads input (.templateCall node callee types arguments) rest
  | index {node : Node} {base position : Expr} {input mid rest : List Word}
    (hbase : Expr.Reads input base (mark .openBracket :: mid)) (hpower : .unary < base.power)
    (hposition : Expr.Reads mid position (mark .closeBracket :: rest)) :
    Expr.Reads input (.index node base position) rest
  | member {node : Node} {c : Composite} {stem : Expr} {name : String} {input rest : List Word}
    (hstem : Expr.Reads input stem (mark c.accessKind :: ⟨.identifier, name⟩ :: rest))
    (hpower : .unary < stem.power) : Expr.Reads input (.member node c stem name) rest

section Heads

def Visibility.words : Option Visibility → List Word
  | none => []
  | some .pub => [mark .pub]
  | some .pvt => [mark .pvt]

inductive TypeExpr.ReadsResult : List Word → TypeExpr → List Word → Prop
  | omitted {node : Node} {rest : List Word} : TypeExpr.ReadsResult rest (.name node "Void") rest
  | written {type : TypeExpr} {rest : List Word} :
    TypeExpr.ReadsResult (mark .colon :: (type.words ++ rest)) type rest

inductive Superclass.ReadsAll : List Word → List Superclass → List Word → Prop
  | none {rest : List Word} : Superclass.ReadsAll rest [] rest
  | some {first : Superclass} {others : List Superclass} {rest : List Word} :
    Superclass.ReadsAll (mark .fromWord :: (Word.commaJoined
      ((first :: others).map fun s => [⟨.identifier, s.name⟩]) ++ rest)) (first :: others) rest

end Heads

inductive Stmt.Reads : List Word → Stmt → List Word → Prop
  | block {node : Node} {body : List Stmt} {input rest : List Word}
    (hbody : Many Stmt.Reads input body (mark .closeCurly :: rest)) :
    Stmt.Reads (mark .openCurly :: input) (.block node body) rest
  | variable {binder : Binder} {value : Expr} {input rest : List Word}
    (hvalue : value.Reads input rest) :
    Stmt.Reads (mark .var :: (binder.words ++ mark .assignment :: input)) (.variable binder value) rest
  | field {binder : Binder} {rest : List Word} :
    Stmt.Reads (mark .var :: (binder.words ++ rest)) (.field binder) rest
  | function {node block : Node} {head : FunctionHead} {body : List Stmt}
    {input afterParameters inside rest : List Word}
    (hparameters : Items Binder.Reads input .closeParen head.parameters afterParameters)
    (hresult : head.result.ReadsResult afterParameters (mark .openCurly :: inside))
    (hbody : Many Stmt.Reads inside body (mark .closeCurly :: rest)) :
    Stmt.Reads (Visibility.words head.visibility ++
      mark .fn :: ⟨.identifier, head.name⟩ :: mark .openParen :: input)
      (.function node head block body) rest
  | struct {node : Node} {name : String} {fields : List Binder} {rest : List Word} :
    Stmt.Reads (mark .struct :: ⟨.identifier, name⟩ :: mark .openCurly ::
      (fields.flatMap (fun field => mark .var :: field.words) ++ mark .closeCurly :: rest))
      (.struct node name fields) rest
  | cls {node block : Node} {head : ClassHead} {body : List Stmt} {input inside rest : List Word}
    (hsuperclasses : Superclass.ReadsAll input head.superclasses (mark .openCurly :: inside))
    (hbody : Many Stmt.Reads inside body (mark .closeCurly :: rest)) :
    Stmt.Reads (Visibility.words head.visibility ++ mark .cls :: ⟨.identifier, head.name⟩ :: input)
      (.cls node head block body) rest
  | template {node block : Node} {head : TemplateHead} {body : List Stmt}
    {input afterTypes afterParameters inside rest : List Word}
    (htypes : Items Binder.Reads input .greater head.typeParameters
      (mark .fn :: ⟨.identifier, head.name⟩ :: mark .openParen :: afterTypes))
    (hparameters : Items Binder.Reads afterTypes .closeParen head.parameters afterParameters)
    (hresult : head.result.ReadsResult afterParameters (mark .openCurly :: inside))
    (hbody : Many Stmt.Reads inside body (mark .closeCurly :: rest)) :
    Stmt.Reads (mark .template :: mark .less :: input) (.template node head block body) rest
  | ifThen {node : Node} {condition : Expr} {thenBody : Stmt} {input mid rest : List Word}
    (hcondition : condition.Reads input mid) (hthen : Stmt.Reads mid thenBody rest) :
    Stmt.Reads (mark .ifWord :: input) (.ifThen node condition thenBody) rest
  | ifElse {node : Node} {condition : Expr} {thenBody elseBody : Stmt}
    {input mid other rest : List Word} (hcondition : condition.Reads input mid)
    (hthen : Stmt.Reads mid thenBody (mark .elseWord :: other))
    (helse : Stmt.Reads other elseBody rest) :
    Stmt.Reads (mark .ifWord :: input) (.ifElse node condition thenBody elseBody) rest
  | loop {node : Node} {condition : Expr} {body : Stmt} {input mid rest : List Word}
    (hcondition : condition.Reads input mid) (hbody : Stmt.Reads mid body rest) :
    Stmt.Reads (mark .whileWord :: input) (.loop node condition body) rest
  | ret {node : Node} {rest : List Word} : Stmt.Reads (mark .returnWord :: rest) (.ret node none) rest
  | retValue {node : Node} {value : Expr} {input rest : List Word} (hvalue : value.Reads input rest) :
    Stmt.Reads (mark .returnWord :: input) (.ret node (some value)) rest
  | action {node : Node} {expr : Expr} {input rest : List Word} (hexpr : expr.Reads input rest)
    (haction : expr.isAction) : Stmt.Reads input (.action node expr) rest

end ScriptAnalysis
