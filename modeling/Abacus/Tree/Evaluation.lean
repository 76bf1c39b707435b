import Abacus.Tree
import Abacus.Arithmetic

namespace Abacus

open Arithmetic

section

variable {m : Type → Type} [Monad m] [MonadExcept Arithmetic.Error m] (limit : m Nat)

mutual

/-- The value of a tree, computed from left to right. A tail is applied to the value of what stands
before it. The limit on integer powers is looked up anew for each power that needs it. -/
def Base.eval : Base → m Result
  | .literal n => pure (.ofNumber n)
  | .group e => e.eval

def Factor.eval : Factor → m Result
  | .base b => b.eval
  | .power b e => do
    let l ← b.eval
    let r ← e.eval
    power limit (.ofResult l) (.ofResult r)

def TermTail.apply : TermTail → Result → m Result
  | .nil, acc => pure acc
  | .cons op f t, acc => do
    let r ← f.eval
    let acc ← ofExcept (binary (.symbol op.symbol) (.ofResult acc) (.ofResult r))
    t.apply acc

def Term.eval : Term → m Result
  | .mk f t => do
    let acc ← f.eval
    t.apply acc

def ExpressionTail.apply : ExpressionTail → Result → m Result
  | .nil, acc => pure acc
  | .cons op t r, acc => do
    let x ← t.eval
    let acc ← ofExcept (binary (.symbol op.symbol) (.ofResult acc) (.ofResult x))
    r.apply acc

def Expression.eval : Expression → m Result
  | .mk t r => do
    let acc ← t.eval
    r.apply acc

end

def TermTail.applyTo : TermTail → Operand → m Operand
  | .nil, acc => pure acc
  | .cons op f t, acc => do
    let r ← f.eval limit
    let acc ← ofExcept (binary (.symbol op.symbol) acc (.ofResult r))
    Operand.ofResult <$> t.apply limit acc

def ExpressionTail.applyTo : ExpressionTail → Operand → m Operand
  | .nil, acc => pure acc
  | .cons op t r, acc => do
    let x ← t.eval limit
    let acc ← ofExcept (binary (.symbol op.symbol) acc (.ofResult x))
    Operand.ofResult <$> r.apply limit acc

end

def fixed (limit : Nat) : Except Arithmetic.Error Nat := .ok limit

def Expression.evaluate (limit : Nat) (e : Expression) : Except Arithmetic.Error Result :=
  e.eval (fixed limit)

end Abacus
