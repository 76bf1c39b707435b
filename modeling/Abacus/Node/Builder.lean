import Abacus.Node.Record
import Abacus.Tree.Cursor

namespace Abacus.Parser

open Node Node.Assembly

/-- Reads along the tokens and puts a node together from each part that is read. A node may be
refused on the way. -/
abbrev Builder (α : Type) := ExceptT Assembly.Error Procedure α

namespace Builder

variable (tokens : List Token) (limit : Nat) {α : Type}

def reject (cause : Cause) : Builder α := do
  let found ← Procedure.current tokens
  liftM (throw (.rejected ⟨cause, found⟩) : Procedure α)

def check (kinds : List Kind) : Builder Bool := do
  let t ← Procedure.current tokens
  return t.any fun t => kinds.contains t.kind

def construct (f : Form) (token : Option Token) (part : Field → Part) : Builder Node :=
  ExceptT.mk (pure (Assembly.make f token part))

def nested (b : Builder α) : Builder α := do
  Procedure.enter tokens limit
  let a ← b
  Procedure.leave
  return a

def turn (kinds : List Kind) (operand : Builder α) (loop : Builder (List (Token × α))) :
    Builder (List (Token × α)) := do
  if ← check tokens kinds then
    let op ← Procedure.advance tokens
    let a ← operand
    let xs ← loop
    return (op, a) :: xs
  else
    return []

/-- A tail is put together from its end, which is empty. -/
def tail (l : Layer) : List (Token × Node) → Builder Node
  | [] => construct l.tailForm none fun _ => .empty
  | (op, x) :: xs => do
    let rest ← tail l xs
    construct l.tailForm (some op) fun f =>
      if f = l.operand then .node x else if f = .tail then .node rest else .absent

def chain (l : Layer) (first rest : Node) : Builder Node :=
  construct l.form none fun f =>
    if f = l.operand then .node first else if f = .tail then .node rest else .absent

def power (b : Node) (exponent : Part) : Builder Node :=
  construct .factor none fun | .base => .node b | .exponent => exponent | _ => .absent

mutual

def expression : Nat → Builder Node
  | 0 => liftM (Procedure.exhausted : Procedure Node)
  | n + 1 => do
    let (t, rest) ← nested tokens limit do
      let t ← term n
      let rest ← expressionTail n
      return (t, rest)
    chain .sum t rest

def expressionTail : Nat → Builder Node
  | 0 => liftM (Procedure.exhausted : Procedure Node)
  | n + 1 => do
    let xs ← addends n
    tail .sum xs

def addends : Nat → Builder (List (Token × Node))
  | 0 => liftM (Procedure.exhausted : Procedure (List (Token × Node)))
  | n + 1 => turn tokens [.symbol .add, .symbol .subtract] (term n) (addends n)

def term : Nat → Builder Node
  | 0 => liftM (Procedure.exhausted : Procedure Node)
  | n + 1 => do
    let f ← factor n
    let rest ← termTail n
    chain .product f rest

def termTail : Nat → Builder Node
  | 0 => liftM (Procedure.exhausted : Procedure Node)
  | n + 1 => do
    let xs ← multipliers n
    tail .product xs

def multipliers : Nat → Builder (List (Token × Node))
  | 0 => liftM (Procedure.exhausted : Procedure (List (Token × Node)))
  | n + 1 => turn tokens [.symbol .multiply, .symbol .divide] (factor n) (multipliers n)

def factor : Nat → Builder Node
  | 0 => liftM (Procedure.exhausted : Procedure Node)
  | n + 1 => do
    let b ← base n
    if ← check tokens [.symbol .power] then
      let _ ← Procedure.advance tokens
      let e ← nested tokens limit (factor n)
      power b (.node e)
    else
      power b .empty

def base : Nat → Builder Node
  | 0 => liftM (Procedure.exhausted : Procedure Node)
  | n + 1 => do
    let t ← Procedure.current tokens
    if t.any Token.isNumeric then
      let t ← Procedure.advance tokens
      construct .base (some t) fun _ => .empty
    else if ← check tokens [.symbol .leftParen] then
      let _ ← Procedure.advance tokens
      let e ← expression n
      if ← check tokens [.symbol .rightParen] then
        let _ ← Procedure.advance tokens
        construct .base none fun _ => .node e
      else
        reject tokens .expectedClosing
    else
      reject tokens .expectedOperand

end

def document (n : Nat) : Builder Node := do
  let e ← expression tokens limit n
  match ← Procedure.current tokens with
  | none => return e
  | some _ => reject tokens .expectedEnd

end Builder

end Abacus.Parser
