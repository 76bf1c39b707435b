import Abacus.Node

namespace Abacus.Node.Assembly

inductive Part
  | absent
  | empty
  | node (n : Node)

inductive Problem
  | missing
  | mismatch
  deriving DecidableEq, Repr

def Problem.name : Problem → String
  | missing => "missing"
  | mismatch => "model_type"

/-- Why parts do not make a node. Fields that cannot be filled come before everything else. -/
inductive Error
  | fields (problems : List (Field × Problem))
  | ambiguousBase
  | notNumeric (t : Token)
  | incompleteTail
  | wrongOperator (allowed : List Symbol) (t : Token)
  deriving DecidableEq

namespace Error

def message : Error → String
  | fields ps => String.intercalate "; " (ps.map fun p => p.1.name ++ ": " ++ p.2.name)
  | ambiguousBase => "base node holds exactly one of a number or an expression"
  | notNumeric t => "base node literal must be numeric, got " ++ .ofList t.label
  | incompleteTail => "tail node needs an operator, an operand and a tail, or none of them"
  | wrongOperator allowed t =>
    "tail operator must be one of " ++ String.intercalate ", " (allowed.map Symbol.name) ++
      ", got " ++ .ofList t.label

end Error

def asBase? : Node → Option Base
  | base b => some b
  | _ => none

def asFactor? : Node → Option Factor
  | factor f => some f
  | _ => none

def asTermTail? : Node → Option TermTail
  | termTail t => some t
  | _ => none

def asTerm? : Node → Option Term
  | term t => some t
  | _ => none

def asExpressionTail? : Node → Option ExpressionTail
  | expressionTail t => some t
  | _ => none

def asExpression? : Node → Option Expression
  | expression e => some e
  | _ => none

variable {α β : Type}

def required (as? : Node → Option α) : Part → Except Problem α
  | .absent => .error .missing
  | .empty => .error .mismatch
  | .node n => (as? n).elim (.error .mismatch) .ok

def optional (as? : Node → Option α) : Part → Except Problem (Option α)
  | .absent => .ok none
  | .empty => .ok none
  | .node n => (as? n).elim (.error .mismatch) (.ok ∘ some)

def defaulted (as? : Node → Option α) (default : α) : Part → Except Problem α
  | .absent => .ok default
  | .empty => .error .mismatch
  | .node n => (as? n).elim (.error .mismatch) .ok

def problem (field : Field) : Except Problem α → List (Field × Problem)
  | .ok _ => []
  | .error p => [(field, p)]

/-- Two fields at once, so that what is wrong with each is told. -/
def both (f : Field) (x : Except Problem α) (g : Field) (y : Except Problem β) :
    Except Error (α × β) :=
  match x, y with
  | .ok a, .ok b => .ok (a, b)
  | x, y => .error (.fields (problem f x ++ problem g y))

def makeBase (number : Option Token) (inner : Part) : Except Error Base :=
  match optional asExpression? inner with
  | .error p => .error (.fields [(.expression, p)])
  | .ok e =>
    match number, e with
    | some (.number n), none => .ok (.literal n)
    | some t, none => .error (.notNumeric t)
    | none, some e => .ok (.group e)
    | _, _ => .error .ambiguousBase

def makeFactor (b exponent : Part) : Except Error Factor := do
  match ← both .base (required asBase? b) .exponent (optional asFactor? exponent) with
  | (b, none) => .ok (.base b)
  | (b, some e) => .ok (.power b e)

def makeTermTail (operator : Option Token) (operand rest : Part) : Except Error TermTail := do
  match operator,
    ← both .factor (optional asFactor? operand) .tail (optional asTermTail? rest) with
  | none, (none, none) => .ok .nil
  | some t, (some f, some r) =>
    match MulOp.ofToken? t with
    | some op => .ok (.cons op f r)
    | none => .error (.wrongOperator [.divide, .multiply] t)
  | _, _ => .error .incompleteTail

def makeTerm (first rest : Part) : Except Error Term := do
  let (f, t) ← both .factor (required asFactor? first) .tail (defaulted asTermTail? .nil rest)
  .ok (.mk f t)

def makeExpressionTail (operator : Option Token) (operand rest : Part) :
    Except Error ExpressionTail := do
  match operator,
    ← both .term (optional asTerm? operand) .tail (optional asExpressionTail? rest) with
  | none, (none, none) => .ok .nil
  | some t, (some x, some r) =>
    match AddOp.ofToken? t with
    | some op => .ok (.cons op x r)
    | none => .error (.wrongOperator [.add, .subtract] t)
  | _, _ => .error .incompleteTail

def makeExpression (first rest : Part) : Except Error Expression := do
  let (t, r) ← both .term (required asTerm? first) .tail
    (defaulted asExpressionTail? .nil rest)
  .ok (.mk t r)

/-- A node of the given form. The token is the literal of a base or the operator of a tail. -/
def make (f : Form) (token : Option Token) (part : Field → Part) : Except Error Node :=
  match f with
  | .base => base <$> makeBase token (part .expression)
  | .factor => factor <$> makeFactor (part .base) (part .exponent)
  | .termTail => termTail <$> makeTermTail token (part .factor) (part .tail)
  | .term => term <$> makeTerm (part .factor) (part .tail)
  | .expressionTail => expressionTail <$> makeExpressionTail token (part .term) (part .tail)
  | .expression => expression <$> makeExpression (part .term) (part .tail)

end Abacus.Node.Assembly
