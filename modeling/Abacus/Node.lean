import Abacus.Tree.Text
import Abacus.Tree.Typing
import Abacus.Tree.Evaluation

namespace Abacus

inductive Node
  | base (b : Base)
  | factor (f : Factor)
  | termTail (t : TermTail)
  | term (t : Term)
  | expressionTail (t : ExpressionTail)
  | expression (e : Expression)

namespace Node

inductive Form
  | base
  | factor
  | termTail
  | term
  | expressionTail
  | expression
  deriving DecidableEq, Repr

def Form.name : Form → String
  | base => "BaseNode"
  | factor => "FactorNode"
  | termTail => "TermTail"
  | term => "TermNode"
  | expressionTail => "ExpressionTail"
  | expression => "ExpressionNode"

def form : Node → Form
  | base _ => .base
  | factor _ => .factor
  | termTail _ => .termTail
  | term _ => .term
  | expressionTail _ => .expressionTail
  | expression _ => .expression

inductive Field
  | base
  | exponent
  | factor
  | term
  | tail
  | expression
  deriving DecidableEq, Repr

namespace Field

def all : List Field := [base, exponent, factor, term, tail, expression]

def name : Field → String
  | base => "base"
  | exponent => "exponent"
  | factor => "factor"
  | term => "term"
  | tail => "tail"
  | expression => "expression"

def ofName? (name : String) : Option Field := all.find? fun f => f.name = name

end Field

/-- What a node holds in a field: nothing if it has no such field, nothing in it if it is empty. -/
def get? : Node → Field → Option (Option Node)
  | base (.group e), .expression => some (some (expression e))
  | base (.literal _), .expression => some none
  | factor (.base b), .base => some (some (base b))
  | factor (.base _), .exponent => some none
  | factor (.power b _), .base => some (some (base b))
  | factor (.power _ e), .exponent => some (some (factor e))
  | termTail .nil, .factor => some none
  | termTail .nil, .tail => some none
  | termTail (.cons _ f _), .factor => some (some (factor f))
  | termTail (.cons _ _ t), .tail => some (some (termTail t))
  | term (.mk f _), .factor => some (some (factor f))
  | term (.mk _ t), .tail => some (some (termTail t))
  | expressionTail .nil, .term => some none
  | expressionTail .nil, .tail => some none
  | expressionTail (.cons _ t _), .term => some (some (term t))
  | expressionTail (.cons _ _ r), .tail => some (some (expressionTail r))
  | expression (.mk t _), .term => some (some (term t))
  | expression (.mk _ r), .tail => some (some (expressionTail r))
  | _, _ => none

def flatten : Node → List Token
  | base b => b.flatten
  | factor f => f.flatten
  | termTail t => t.flatten
  | term t => t.flatten
  | expressionTail t => t.flatten
  | expression e => e.flatten

def isWritable (n : Node) : Bool := n.flatten.all Token.isWritable

def text : Node → List Char
  | base b => b.text
  | factor f => f.text
  | termTail t => t.text
  | term t => t.text
  | expressionTail t => t.text
  | expression e => e.text

def shape : Node → List Char
  | base b => b.shape
  | factor f => f.shape
  | termTail t => t.shape
  | term t => t.shape
  | expressionTail t => t.shape
  | expression e => e.shape

def Form.nameOf : Option Form → String
  | some f => f.name
  | none => "NoneType"

/-- What cannot be asked of a tail, which has no value until something stands before it, nor of a place
without a node. -/
inductive Error
  | noType (form : Option Form)
  | noValue (form : Option Form)
  | noField (form : Option Form) (name : String)
  | arithmetic (e : Arithmetic.Error)
  deriving DecidableEq

def Error.message : Error → String
  | noType f => "Cannot infer the type of " ++ Form.nameOf f
  | noValue f => "Unknown node type: " ++ Form.nameOf f
  | noField f name => s!"'{Form.nameOf f}' object has no attribute '{name}'"
  | arithmetic e => e.message

def type : Node → Except Error NumberType
  | base b => .ok b.type
  | factor f => .ok f.type
  | term t => .ok t.type
  | expression e => .ok e.type
  | n => .error (.noType n.form)

def evaluate (limit : Nat) : Node → Except Error Result
  | base b => (b.eval (fixed limit)).mapError .arithmetic
  | factor f => (f.eval (fixed limit)).mapError .arithmetic
  | term t => (t.eval (fixed limit)).mapError .arithmetic
  | expression e => (e.eval (fixed limit)).mapError .arithmetic
  | n => .error (.noValue n.form)

def applyTo (limit : Nat) (n : Node) (acc : Operand) : Except Error Operand :=
  match n with
  | termTail t => (t.applyTo (fixed limit) acc).mapError .arithmetic
  | expressionTail t => (t.applyTo (fixed limit) acc).mapError .arithmetic
  | n => .error (.noField n.form "apply")

def isParenthesized? : Node → Option Bool
  | base (.literal _) => some false
  | base (.group _) => some true
  | _ => none

def segments? : Node → Option (List (Symbol × Node))
  | termTail t => some (t.toList.map fun p => (p.1.symbol, factor p.2))
  | expressionTail t => some (t.toList.map fun p => (p.1.symbol, term p.2))
  | _ => none

end Node

mutual

/-- The nodes of a tree that have a value, each before those inside it and in the order in which they
are written. -/
def Base.walk : Base → List Node
  | .literal n => [.base (.literal n)]
  | .group e => .base (.group e) :: e.walk

def Factor.walk : Factor → List Node
  | .base b => .factor (.base b) :: b.walk
  | .power b e => .factor (.power b e) :: b.walk ++ e.walk

def TermTail.walk : TermTail → List Node
  | .nil => []
  | .cons _ f t => f.walk ++ t.walk

def Term.walk : Term → List Node
  | .mk f t => .term (.mk f t) :: f.walk ++ t.walk

def ExpressionTail.walk : ExpressionTail → List Node
  | .nil => []
  | .cons _ t r => t.walk ++ r.walk

def Expression.walk : Expression → List Node
  | .mk t r => .expression (.mk t r) :: t.walk ++ r.walk

end

end Abacus
