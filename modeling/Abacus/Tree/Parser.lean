import Abacus.Tree

namespace Abacus.Parser

inductive Cause
  | tooDeep (limit : Nat)
  | expectedOperand
  | expectedClosing
  | expectedEnd
  deriving DecidableEq, Repr

/-- The first token that no expression can go on with, none at the end of the tokens. -/
structure Rejection where
  cause : Cause
  found : Option Token
  deriving DecidableEq

namespace Rejection

def expected (r : Rejection) : List String :=
  match r.cause with
  | .tooDeep _ => []
  | .expectedOperand => ["number", "("]
  | .expectedClosing => [")"]
  | .expectedEnd => ["end of input"]

def message (r : Rejection) : String :=
  match r.cause with
  | .tooDeep limit => s!"Expression nested deeper than {limit} levels"
  | .expectedOperand =>
    "Unexpected token: " ++ Token.describe r.found ++ ", expected a number or '('"
  | .expectedClosing => "Unexpected token: " ++ Token.describe r.found ++ ", expected ')'"
  | .expectedEnd => "Unexpected token after expression: " ++ Token.describe r.found

end Rejection

/-- A rejection, unless its message would have to show an integer that is too long to be written. -/
inductive Error
  | rejected (r : Rejection)
  | unwritable (t : Token)
  deriving DecidableEq

def Rejection.toError (r : Rejection) : Error :=
  match r.cause, r.found with
  | .tooDeep _, _ => .rejected r
  | _, none => .rejected r
  | _, some t => if t.isWritable then .rejected r else .unwritable t

abbrev Rule (α : Type) := List Token → Except Rejection (α × List Token)

variable {α ω : Type}

def tooDeep (limit : Nat) : Rule α := fun ts => .error ⟨.tooDeep limit, ts.head?⟩

/-- Operators with an operand after each, as many as there are. Every operator takes a token, so the
number of tokens bounds their count. -/
def chain (op? : Token → Option ω) (operand : Rule α) : Nat → Rule (List (ω × α))
  | n + 1, t :: ts =>
    match op? t with
    | none => .ok ([], t :: ts)
    | some op => do
      let (x, ts) ← operand ts
      let (xs, ts) ← chain op? operand n ts
      .ok ((op, x) :: xs, ts)
  | _, ts => .ok ([], ts)

def termTail (factor : Rule Factor) : Rule TermTail := fun ts => do
  let (xs, ts) ← chain MulOp.ofToken? factor ts.length ts
  .ok (.ofList xs, ts)

def term (factor : Rule Factor) : Rule Term := fun ts => do
  let (f, ts) ← factor ts
  let (tail, ts) ← termTail factor ts
  .ok (.mk f tail, ts)

def expressionTail (factor : Rule Factor) : Rule ExpressionTail := fun ts => do
  let (xs, ts) ← chain AddOp.ofToken? (term factor) ts.length ts
  .ok (.ofList xs, ts)

def expressionOf (factor : Rule Factor) : Rule Expression := fun ts => do
  let (t, ts) ← term factor ts
  let (tail, ts) ← expressionTail factor ts
  .ok (.mk t tail, ts)

def base (nested : Rule Expression) : Rule Base
  | .number n :: ts => .ok (.literal n, ts)
  | .symbol .leftParen :: ts => do
    let (e, ts) ← nested ts
    match ts with
    | .symbol .rightParen :: ts => .ok (.group e, ts)
    | ts => .error ⟨.expectedClosing, ts.head?⟩
  | ts => .error ⟨.expectedOperand, ts.head?⟩

/-- A factor, given the rules for what is nested in it. -/
def factorOf (nested : Rule Expression) (exponent : Rule Factor) : Rule Factor := fun ts => do
  let (b, ts) ← base nested ts
  match ts with
  | .symbol .power :: ts => do
    let (e, ts) ← exponent ts
    .ok (.power b e, ts)
  | ts => .ok (.base b, ts)

/-- A factor with `room` levels of nesting left below it. Both an expression in parentheses and an
exponent go one level down. -/
def factor (limit : Nat) : Nat → Rule Factor
  | 0, ts => factorOf (tooDeep limit) (tooDeep limit) ts
  | room + 1, ts => factorOf (expressionOf (factor limit room)) (factor limit room) ts

def expression (limit : Nat) : Nat → Rule Expression
  | 0 => tooDeep limit
  | room + 1 => expressionOf (factor limit room)

def document (limit : Nat) (ts : List Token) : Except Rejection Expression := do
  let (e, rest) ← expression limit limit ts
  match rest with
  | [] => .ok e
  | t :: _ => .error ⟨.expectedEnd, some t⟩

def parse (limit : Nat) (ts : List Token) : Except Error Expression :=
  (document limit ts).mapError Rejection.toError

/-- The tokens before the first gap in a list that has places without one. Nothing is read past a
gap, so it ends the tokens. -/
def untilGap : List (Option Token) → List Token
  | some t :: ts => t :: untilGap ts
  | _ => []

end Abacus.Parser
