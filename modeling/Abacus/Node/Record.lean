import Abacus.Node.Assembly

namespace Abacus

/-- What a token is made of, whether or not that goes together. -/
structure Token.Parts where
  kind : Kind
  value : Option Number
  deriving DecidableEq

def Token.parts : Token → Token.Parts
  | number n => ⟨.number n.type, some n⟩
  | symbol s => ⟨.symbol s, none⟩

namespace Node

inductive Layer
  | product
  | sum
  deriving DecidableEq, Repr

namespace Layer

def form : Layer → Form
  | product => .term
  | sum => .expression

def tailForm : Layer → Form
  | product => .termTail
  | sum => .expressionTail

def operand : Layer → Field
  | product => .factor
  | sum => .term

end Layer

/-- What is held where a node belongs: nothing, or an object whose fields hold anything. -/
inductive Record
  | nothing
  | base (number : Option Token.Parts) (expression : Record)
  | factor (base exponent : Record)
  | tail (layer : Layer) (operator : Option Token.Parts) (operand rest : Record)
  | chain (layer : Layer) (first rest : Record)

namespace Record

def form : Record → Option Form
  | nothing => none
  | base .. => some .base
  | factor .. => some .factor
  | tail l .. => some l.tailForm
  | chain l .. => some l.form

def isNothing : Record → Bool
  | nothing => true
  | _ => false

def tailLayer? : Record → Option Layer
  | tail l .. => some l
  | _ => none

inductive Error
  | missing
  | token (f : Token.Fault)
  | node (e : Node.Error)
  deriving DecidableEq

def Error.arithmetic (e : Arithmetic.Error) : Error := .node (.arithmetic e)

/-- Errors that tell of a record or an operator that should never have come about. -/
def Error.IsGuard : Error → Prop
  | .node (.arithmetic (.unknownOperator _)) => True
  | .node (.arithmetic _) => False
  | _ => True

/-- The operators of a tail with an operand for each, and what ends them before their time. -/
abbrev Segments := List (Token.Parts × Record) × Option Error

/-- The segments from an object on in the loop over a tail of the layer. -/
def segmentsFrom (layer : Layer) : Record → Segments
  | nothing => ([], none)
  | tail _ none _ _ => ([], none)
  | tail l (some op) operand rest =>
    if l ≠ layer then ([], some (.node (.noField (some l.tailForm) layer.operand.name)))
    else if operand.isNothing then ([], some .missing)
    else
      let (xs, e) := segmentsFrom layer rest
      ((op, operand) :: xs, e)
  | x => ([], some (.node (.noField x.form "operator")))

def segments (x : Record) : Segments :=
  match x.tailLayer? with
  | some l => segmentsFrom l x
  | none => ([], some (.node (.noField x.form "segments")))

def literal : Option Token.Parts → Except Error Result
  | some ⟨k, some n⟩ => .ok ⟨if k = .number .decimal then .decimal else .integer, n⟩
  | _ => .error .missing

/-- The token of an operator is made for the message about a result, even if none is needed. -/
def described (k : Kind) (r : Except Arithmetic.Error Result) : Except Error Result := do
  let _ ← (Token.ofKind k).mapError .token
  r.mapError .arithmetic

def decimalBinary (k : Kind) (x y : Float) : Except Error Result :=
  match k with
  | .symbol .add => described k (Arithmetic.finite x .add y (x + y))
  | .symbol .subtract => described k (Arithmetic.finite x .subtract y (x - y))
  | .symbol .multiply => described k (Arithmetic.finite x .multiply y (x * y))
  | .symbol .divide => described k (Arithmetic.finite x .divide y (x / y))
  | k => .error (.arithmetic (.unknownOperator k))

def binary (k : Kind) (l r : Result) : Except Error Result :=
  if k = .symbol .divide ∧ r.value.isZero then .error (.arithmetic .divisionByZero)
  else
    match l.type.join r.type with
    | .decimal => do
      let x ← (Arithmetic.widen (.number l.value)).mapError .arithmetic
      let y ← (Arithmetic.widen (.number r.value)).mapError .arithmetic
      decimalBinary k x y
    | .integer => do
      let a ← (Arithmetic.whole (.number l.value)).mapError .arithmetic
      let b ← (Arithmetic.whole (.number r.value)).mapError .arithmetic
      (Arithmetic.integerBinary k a b).mapError .arithmetic

mutual

def evaluate (limit : Nat) : Record → Except Error Result
  | base number e => if e.isNothing then literal number else e.evaluate limit
  | factor b e => do
    let l ← b.evaluate limit
    if e.isNothing then .ok l
    else
      let r ← e.evaluate limit
      (Arithmetic.power (fixed limit) (.ofResult l) (.ofResult r)).mapError .arithmetic
  | chain _ x rest => do
    let acc ← x.evaluate limit
    match rest.tailLayer? with
    | some l => rest.applyFrom limit l acc
    | none => .error (.node (.noField rest.form "segments"))
  | x => .error (.node (.noValue x.form))

def applyFrom (limit : Nat) (layer : Layer) : Record → Result → Except Error Result
  | nothing, acc => .ok acc
  | tail _ none _ _, acc => .ok acc
  | tail l (some op) operand rest, acc =>
    if l ≠ layer then .error (.node (.noField (some l.tailForm) layer.operand.name))
    else if operand.isNothing then .error .missing
    else do
      let r ← operand.evaluate limit
      let acc ← binary op.kind acc r
      rest.applyFrom limit layer acc
  | x, _ => .error (.node (.noField x.form "operator"))

end

def literalType : Option Token.Parts → Except Error NumberType
  | some p => .ok (if p.kind = .number .decimal then .decimal else .integer)
  | none => .error .missing

mutual

def type : Record → Except Error NumberType
  | base number e => if e.isNothing then literalType number else e.type
  | factor b e =>
    if e.isNothing then b.type
    else do
      let t ← b.type
      let u ← e.type
      .ok (t.join u)
  | chain _ x rest => do
    let t ← x.type
    match rest.tailLayer? with
    | some l => do
      let u ← rest.typeFrom l .integer
      .ok (t.join u)
    | none => .error (.node (.noField rest.form "segments"))
  | x => .error (.node (.noType x.form))

def typeFrom (layer : Layer) : Record → NumberType → Except Error NumberType
  | nothing, acc => .ok acc
  | tail _ none _ _, acc => .ok acc
  | tail l (some _) operand rest, acc =>
    if l ≠ layer then .error (.node (.noField (some l.tailForm) layer.operand.name))
    else if operand.isNothing then .error .missing
    else do
      let t ← operand.type
      rest.typeFrom layer (acc.join t)
  | x, _ => .error (.node (.noField x.form "operator"))

end

/-- Why an object is not accepted: one of its tokens does not go together, or its own constructor or
that of an object in it refuses what it is given. -/
inductive Refusal
  | token (f : Token.Fault)
  | node (e : Assembly.Error)
  deriving DecidableEq

def checkToken : Option Token.Parts → Except Refusal (Option Token)
  | none => .ok none
  | some p => ((Token.ofParts p.kind p.value).mapError .token).map some

def partOf : Option Node → Assembly.Part
  | none => .empty
  | some n => .node n

def construct (f : Form) (t : Option Token) (held : Field → Option Node) :
    Except Refusal (Option Node) :=
  ((Assembly.make f t fun x => partOf (held x)).mapError .node).map some

/-- The node that an object is, if all constructors accept what they are given, from the innermost
on. -/
def check : Record → Except Refusal (Option Node)
  | nothing => .ok none
  | base number e => do
    let t ← checkToken number
    let e ← e.check
    construct .base t fun | .expression => e | _ => none
  | factor b e => do
    let b ← b.check
    let e ← e.check
    construct .factor none fun | .base => b | .exponent => e | _ => none
  | tail l op x rest => do
    let t ← checkToken op
    let x ← x.check
    let rest ← rest.check
    construct l.tailForm t fun f => if f = l.operand then x else if f = .tail then rest else none
  | chain l x rest => do
    let x ← x.check
    let rest ← rest.check
    construct l.form none fun f => if f = l.operand then x else if f = .tail then rest else none

end Record

end Node

end Abacus
