import Abacus.Tree.Parser

namespace Abacus.Parser

/-- The position of the next token and how deep it is nested. -/
structure Cursor where
  pos : Nat
  depth : Int
  deriving DecidableEq, Repr

/-- Why parsing breaks off. To take a token at the end of the tokens overruns them. -/
inductive Halt
  | rejected (r : Rejection)
  | overrun
  deriving DecidableEq

/-- Reads along the tokens with a cursor that it moves in place. There is no result if its calls
nest too deep. -/
abbrev Procedure (α : Type) := StateT Cursor (ExceptT Halt Option) α

namespace Procedure

variable (tokens : List Token) (limit : Nat)

def current : Procedure (Option Token) := do return tokens[(← get).pos]?

def advance : Procedure Token := do
  match ← current tokens with
  | some t =>
    modify fun c => { c with pos := c.pos + 1 }
    return t
  | none => throw .overrun

def enter : Procedure Unit := do
  modify fun c => { c with depth := c.depth + 1 }
  if limit < (← get).depth then throw (.rejected ⟨.tooDeep limit, ← current tokens⟩)

def leave : Procedure Unit := modify fun c => { c with depth := c.depth - 1 }

def nested {α : Type} (p : Procedure α) : Procedure α := do
  enter tokens limit
  let a ← p
  leave
  return a

def turn {α ω : Type} (op? : Token → Option ω) (operand : Procedure α)
    (loop : Procedure (List (ω × α))) : Procedure (List (ω × α)) := do
  match (← current tokens).bind op? with
  | none => return []
  | some op =>
    let _ ← advance tokens
    let a ← operand
    let xs ← loop
    return (op, a) :: xs

def close (e : Expression) : Procedure Base := do
  if (← current tokens) = some (.symbol .rightParen) then
    let _ ← advance tokens
    return .group e
  else
    throw (.rejected ⟨.expectedClosing, ← current tokens⟩)

def exhausted {α : Type} : Procedure α := fun _ => none

-- The number is how deep calls may nest, where a turn of a loop counts as a call within the one
-- before it.
mutual

def expression : Nat → Procedure Expression
  | 0 => exhausted
  | n + 1 => nested tokens limit do
    let t ← term n
    let tail ← expressionTail n
    return .mk t tail

def expressionTail : Nat → Procedure ExpressionTail
  | 0 => exhausted
  | n + 1 => do
    let xs ← addends n
    return .ofList xs

def addends : Nat → Procedure (List (AddOp × Term))
  | 0 => exhausted
  | n + 1 => turn tokens AddOp.ofToken? (term n) (addends n)

def term : Nat → Procedure Term
  | 0 => exhausted
  | n + 1 => do
    let f ← factor n
    let tail ← termTail n
    return .mk f tail

def termTail : Nat → Procedure TermTail
  | 0 => exhausted
  | n + 1 => do
    let xs ← multipliers n
    return .ofList xs

def multipliers : Nat → Procedure (List (MulOp × Factor))
  | 0 => exhausted
  | n + 1 => turn tokens MulOp.ofToken? (factor n) (multipliers n)

def factor : Nat → Procedure Factor
  | 0 => exhausted
  | n + 1 => do
    let b ← base n
    if (← current tokens) = some (.symbol .power) then
      let _ ← advance tokens
      let e ← nested tokens limit (factor n)
      return .power b e
    else
      return .base b

def base : Nat → Procedure Base
  | 0 => exhausted
  | n + 1 => do
    match ← current tokens with
    | some (.number m) =>
      let _ ← advance tokens
      return .literal m
    | some (.symbol .leftParen) =>
      let _ ← advance tokens
      let e ← expression n
      close tokens e
    | t => throw (.rejected ⟨.expectedOperand, t⟩)

end

def document (n : Nat) : Procedure Expression := do
  let e ← expression tokens limit n
  match ← current tokens with
  | none => return e
  | some t => throw (.rejected ⟨.expectedEnd, some t⟩)

/-- How a procedure finishes if its calls may nest deep enough. -/
def Finishes {α : Type} (p : Nat → Procedure α) (c : Cursor) (o : Except Halt (α × Cursor)) :
    Prop :=
  ∃ n, p n c = some o

end Procedure

end Abacus.Parser
