import Abacus.Operand
import Abacus.Token
import Abacus.Binary64.Logarithm
import Abacus.Binary64.Power

namespace Abacus

open Numeral Binary64

namespace Arithmetic

inductive Conversion
  | integerTooLarge
  | infinite
  | notANumber
  | missing (target : NumberType)
  deriving DecidableEq, Repr

namespace Conversion

def message : Conversion → String
  | integerTooLarge => "int too large to convert to float"
  | infinite => "cannot convert float infinity to integer"
  | notANumber => "cannot convert float NaN to integer"
  | missing .integer =>
    "int() argument must be a string, a bytes-like object or a real number, not 'NoneType'"
  | missing .decimal => "float() argument must be a string or a real number, not 'NoneType'"

end Conversion

inductive Error
  | divisionByZero
  | fractionalDivisor
  | zeroToNegative (type : NumberType)
  | notFinite (left : Float) (op : Symbol) (right : Float)
  | powerTooLarge (base exponent : Float)
  | notReal (base exponent : Float)
  | overBudget (base exponent : Int) (limit : Nat)
  | tooLargeForDecimal (n : Int)
  | unknownOperator (kind : Kind)
  | conversion (c : Conversion)
  deriving DecidableEq

def bitLength (n : Int) : Nat := if n = 0 then 0 else n.natAbs.log2 + 1

def brief (n : Int) : String :=
  if bitLength n ≤ 64 then .ofList (Integer.text n) else s!"<{bitLength n}-bit integer>"

namespace Error

def formula (x : Float) (op : Symbol) (y : Float) : String :=
  .ofList (Decimal.text x ++ ' ' :: op.char :: ' ' :: Decimal.text y)

def message : Error → String
  | divisionByZero => "Division by zero"
  | fractionalDivisor => "integer division or modulo by zero"
  | zeroToNegative .integer => "Division by zero: 0 raised to a negative power"
  | zeroToNegative .decimal => "Division by zero: 0.0 raised to a negative power"
  | notFinite x op y => "Result of " ++ formula x op y ++ " is not a finite number"
  | powerTooLarge x y => "Result of " ++ formula x .power y ++ " is too large"
  | notReal x y => formula x .power y ++ " has no real value"
  | overBudget b e limit =>
    "Result of " ++ brief b ++ " ^ " ++ brief e ++ s!" exceeds the {limit}-bit integer limit"
  | tooLargeForDecimal n => "Integer " ++ brief n ++ " is too large to convert to decimal"
  | unknownOperator k => "Unknown binary operator: " ++ k.name
  | conversion c => c.message

end Error

def widen (d : Datum) : Except Error Float :=
  match d.number? with
  | none => .error (.conversion (.missing .decimal))
  | some (.decimal x) => .ok x
  | some (.integer n) =>
    match Parts.ofInt? n with
    | some x => .ok x
    | none => .error (.tooLargeForDecimal n)

def truncate (x : Float) : Except Error Int :=
  if Parts.isNaN x then .error (.conversion .notANumber)
  else if Parts.isFinite x then .ok (Parts.truncate x)
  else .error (.conversion .infinite)

def whole (d : Datum) : Except Error Int :=
  match d.number? with
  | none => .error (.conversion (.missing .integer))
  | some (.integer n) => .ok n
  | some (.decimal x) => truncate x

def finite (x : Float) (op : Symbol) (y z : Float) : Except Error Result :=
  if Parts.isFinite z then .ok (.ofFloat z) else .error (.notFinite x op y)

def decimalBinary (k : Kind) (x y : Float) : Except Error Result :=
  match k with
  | .symbol .add => finite x .add y (x + y)
  | .symbol .subtract => finite x .subtract y (x - y)
  | .symbol .multiply => finite x .multiply y (x * y)
  | .symbol .divide => finite x .divide y (x / y)
  | k => .error (.unknownOperator k)

/-- The four operations on integers. A quotient is cut off toward zero. The divisor can still be zero
if it has just lost its fraction. -/
def integerBinary (k : Kind) (a b : Int) : Except Error Result :=
  match k with
  | .symbol .add => .ok (.ofInt (a + b))
  | .symbol .subtract => .ok (.ofInt (a - b))
  | .symbol .multiply => .ok (.ofInt (a * b))
  | .symbol .divide => if b = 0 then .error .fractionalDivisor else .ok (.ofInt (a.tdiv b))
  | k => .error (.unknownOperator k)

/-- Addition, subtraction, multiplication and division. One decimal operand makes the other a decimal
too. -/
def binary (k : Kind) (l r : Operand) : Except Error Result :=
  if k = .symbol .divide ∧ r.value.isZero then .error .divisionByZero
  else
    match l.type.join r.type with
    | .decimal => do decimalBinary k (← widen l.value) (← widen r.value)
    | .integer => do integerBinary k (← whole l.value) (← whole r.value)

/-- The bits of a power, by its exponent and the logarithm of its base, which have been rounded. This
can be wrong by one where the product of the two is close to a whole number. -/
def estimate (x l : Float) : Except Error Int :=
  if Parts.isFinite l then (truncate (x * l)).map (· + 1)
  else .error (.conversion .integerTooLarge)

/-- An estimate of the bits of `b ^ e`, found in binary64. An exponent past its range is too large for
that, and so is a base with so many bits that its logarithm is past it. -/
def sizeEstimate (b e : Int) : Except Error Int :=
  match Parts.ofInt? e with
  | none => .error (.conversion .integerTooLarge)
  | some x => estimate x (Logarithm.log2 b.natAbs)

/-- Whether `b ^ e` may be computed, for a base that is greater than one in absolute value and an
exponent that is not negative. Such a power has more bits than its exponent says. -/
def budget (limit : Nat) (b e : Int) : Except Error Unit :=
  if limit ≤ e then .error (.overBudget b e limit)
  else do
    let size ← sizeEstimate b e
    if limit < size then .error (.overBudget b e limit) else .ok ()

/-- `b ^ e` rounded toward zero. The sizes of powers that grow are checked against a limit, which is
looked up only for these. -/
def integerPower {m : Type → Type} [Monad m] [MonadExcept Error m] (limit : m Nat) (b e : Int) :
    m Int :=
  if b.natAbs = 1 then pure (if e % 2 = 0 then 1 else b)
  else if b = 0 then
    if e < 0 then throw (.zeroToNegative .integer) else pure (if e = 0 then 1 else 0)
  else if e < 0 then pure 0
  else do
    let k ← limit
    ofExcept (budget k b e)
    pure (b.pow e.toNat)

def decimalPower (x y : Float) : Except Error Result :=
  match Power.power x y with
  | .ok z => finite x .power y z
  | .error .pole => .error (.zeroToNegative .decimal)
  | .error .overflow => .error (.powerTooLarge x y)
  | .error .notReal => .error (.notReal x y)

def power {m : Type → Type} [Monad m] [MonadExcept Error m] (limit : m Nat) (l r : Operand) :
    m Result :=
  match l.type.join r.type with
  | .decimal => ofExcept do decimalPower (← widen l.value) (← widen r.value)
  | .integer => do
    let (b, e) ← ofExcept do .ok (← whole l.value, ← whole r.value)
    .ofInt <$> integerPower limit b e

end Arithmetic

end Abacus
