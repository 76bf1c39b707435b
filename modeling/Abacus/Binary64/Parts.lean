import Abacus.Binary64.Rounding

namespace Abacus.Binary64.Parts

open Rounding

def magnitude (x : Float) : Nat := x.toBits.toNat % 0x8000000000000000

def isNegative (x : Float) : Bool := 0x8000000000000000 ≤ x.toBits.toNat

def isFinite (x : Float) : Bool := magnitude x < infinity

def isNaN (x : Float) : Bool := infinity < magnitude x

def isZero (x : Float) : Bool := magnitude x = 0

/-- The number with the given sign and magnitude bits; bits past those of infinity give infinity. -/
def ofParts (negative : Bool) (bits : Nat) : Float :=
  .ofBits (.ofNat (min bits infinity + if negative then 0x8000000000000000 else 0))

def one : Float := ofParts false 0x3ff0000000000000

/-- The nearest binary64 number, unless that is infinite. -/
def ofInt? (n : Int) : Option Float :=
  let bits := nearest n.natAbs 1
  if bits < infinity then some (ofParts (n < 0) bits) else none

def truncate (x : Float) : Int :=
  let n := units (magnitude x) / grain
  if isNegative x then -n else n

theorem magnitude_lt (x : Float) : magnitude x < 0x8000000000000000 := Nat.mod_lt _ (by decide)

end Abacus.Binary64.Parts
