import Abacus.Binary64.Parts

namespace Abacus.Binary64.Power

open Rounding Parts

inductive Failure
  | pole
  | overflow
  | notReal
  deriving DecidableEq, Repr

def isIntegral (x : Float) : Bool := units (magnitude x) % grain = 0

def isOdd (x : Float) : Bool := isIntegral x && units (magnitude x) / grain % 2 = 1

def signed (x e : Float) (bits : Nat) : Float := ofParts (isNegative x && isOdd e) bits

/-- A power of a finite number other than zero with a finite exponent other than zero. A negative
base needs an integral exponent; with any other the power is complex, of the same absolute value. -/
def finite (x e : Float) : Except Failure Float :=
  let size := ofParts false (magnitude x)
  let y := if size == one then one else size.pow e
  if !isFinite y then .error .overflow
  else if isNegative x && !isIntegral e then .error .notReal
  else .ok (signed x e (magnitude y))

/-- `x` raised to `e`. An exponent of zero gives one even for what is not a number, as does a base of
one; infinities follow the limit. -/
def power (x e : Float) : Except Failure Float :=
  if isZero e then .ok one
  else if isNaN x then .ok x
  else if isNaN e then .ok (if x == one then one else e)
  else if !isFinite e then
    let size := magnitude x
    if size = magnitude one then .ok one
    else .ok (ofParts false (if isNegative e = decide (size < magnitude one) then infinity else 0))
  else if !isFinite x then .ok (signed x e (if isNegative e then 0 else infinity))
  else if isZero x then if isNegative e then .error .pole else .ok (signed x e 0)
  else finite x e

end Abacus.Binary64.Power
