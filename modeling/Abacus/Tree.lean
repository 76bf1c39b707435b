import Abacus.Token

namespace Abacus

inductive AddOp
  | add
  | subtract
  deriving DecidableEq, Repr

inductive MulOp
  | multiply
  | divide
  deriving DecidableEq, Repr

namespace AddOp

def symbol : AddOp → Symbol
  | add => .add
  | subtract => .subtract

def ofToken? : Token → Option AddOp
  | .symbol .add => some add
  | .symbol .subtract => some subtract
  | _ => none

theorem ofToken?_eq_some_iff {t : Token} {op : AddOp} :
    ofToken? t = some op ↔ t = .symbol op.symbol := by
  constructor
  · intro h
    unfold ofToken? at h
    split at h <;> cases h <;> rfl
  · rintro rfl
    cases op <;> rfl

end AddOp

namespace MulOp

def symbol : MulOp → Symbol
  | multiply => .multiply
  | divide => .divide

def ofToken? : Token → Option MulOp
  | .symbol .multiply => some multiply
  | .symbol .divide => some divide
  | _ => none

theorem ofToken?_eq_some_iff {t : Token} {op : MulOp} :
    ofToken? t = some op ↔ t = .symbol op.symbol := by
  constructor
  · intro h
    unfold ofToken? at h
    split at h <;> cases h <;> rfl
  · rintro rfl
    cases op <;> rfl

end MulOp

mutual

inductive Base
  | literal (n : Number)
  | group (e : Expression)

inductive Factor
  | base (b : Base)
  | power (b : Base) (exponent : Factor)

inductive TermTail
  | nil
  | cons (op : MulOp) (factor : Factor) (tail : TermTail)

inductive Term
  | mk (factor : Factor) (tail : TermTail)

inductive ExpressionTail
  | nil
  | cons (op : AddOp) (term : Term) (tail : ExpressionTail)

inductive Expression
  | mk (term : Term) (tail : ExpressionTail)

end

namespace TermTail

def toList : TermTail → List (MulOp × Factor)
  | nil => []
  | cons op f t => (op, f) :: t.toList

def ofList : List (MulOp × Factor) → TermTail
  | [] => nil
  | (op, f) :: r => cons op f (ofList r)

theorem ofList_toList : ∀ t : TermTail, ofList t.toList = t
  | nil => rfl
  | cons op f t => by rw [toList, ofList, ofList_toList t]

end TermTail

namespace ExpressionTail

def toList : ExpressionTail → List (AddOp × Term)
  | nil => []
  | cons op t r => (op, t) :: r.toList

def ofList : List (AddOp × Term) → ExpressionTail
  | [] => nil
  | (op, t) :: r => cons op t (ofList r)

theorem ofList_toList : ∀ t : ExpressionTail, ofList t.toList = t
  | nil => rfl
  | cons op t r => by rw [toList, ofList, ofList_toList r]

end ExpressionTail

mutual

def Base.flatten : Base → List Token
  | .literal n => [.number n]
  | .group e => .symbol .leftParen :: e.flatten ++ [.symbol .rightParen]

def Factor.flatten : Factor → List Token
  | .base b => b.flatten
  | .power b e => b.flatten ++ .symbol .power :: e.flatten

def TermTail.flatten : TermTail → List Token
  | .nil => []
  | .cons op f t => .symbol op.symbol :: f.flatten ++ t.flatten

def Term.flatten : Term → List Token
  | .mk f t => f.flatten ++ t.flatten

def ExpressionTail.flatten : ExpressionTail → List Token
  | .nil => []
  | .cons op t r => .symbol op.symbol :: t.flatten ++ r.flatten

def Expression.flatten : Expression → List Token
  | .mk t r => t.flatten ++ r.flatten

end

mutual

/-- How deep expressions and exponents are nested in each other. -/
def Base.nest : Base → Nat
  | .literal _ => 0
  | .group e => e.nest

def Factor.nest : Factor → Nat
  | .base b => b.nest
  | .power b e => max b.nest (e.nest + 1)

def TermTail.nest : TermTail → Nat
  | .nil => 0
  | .cons _ f t => max f.nest t.nest

def Term.nest : Term → Nat
  | .mk f t => max f.nest t.nest

def ExpressionTail.nest : ExpressionTail → Nat
  | .nil => 0
  | .cons _ t r => max t.nest r.nest

def Expression.nest : Expression → Nat
  | .mk t r => max t.nest r.nest + 1

end

mutual

/-- Equality of trees whose decimals compare as binary64 does. -/
def Base.same : Base → Base → Bool
  | .literal a, .literal b => a.same b
  | .group a, .group b => a.same b
  | _, _ => false

def Factor.same : Factor → Factor → Bool
  | .base a, .base b => a.same b
  | .power a x, .power b y => a.same b && x.same y
  | _, _ => false

def TermTail.same : TermTail → TermTail → Bool
  | .nil, .nil => true
  | .cons o a r, .cons p b s => o = p && a.same b && r.same s
  | _, _ => false

def Term.same : Term → Term → Bool
  | .mk a r, .mk b s => a.same b && r.same s

def ExpressionTail.same : ExpressionTail → ExpressionTail → Bool
  | .nil, .nil => true
  | .cons o a r, .cons p b s => o = p && a.same b && r.same s
  | _, _ => false

def Expression.same : Expression → Expression → Bool
  | .mk a r, .mk b s => a.same b && r.same s

end

end Abacus
