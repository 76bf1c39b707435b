import Abacus.Binary64.Rounding

namespace Abacus

structure Decimal where
  mantissa : Nat
  exponent : Int
  deriving DecidableEq, Repr

namespace Decimal

def num (d : Decimal) : Nat := d.mantissa * Nat.pow 10 d.exponent.toNat

def den (d : Decimal) : Nat := Nat.pow 10 (-d.exponent).toNat

def nearest (d : Decimal) : Nat := Binary64.Rounding.nearest d.num d.den

def figures (d : Decimal) : List Char :=
  if d.mantissa = 0 then ['0']
  else ((Nat.toDigits 10 d.mantissa).reverse.dropWhile fun c => c = '0').reverse

/-- How many figures stand before the decimal point; a negative count asks for zeros after it. -/
def point (d : Decimal) : Int := (Nat.toDigits 10 d.mantissa).length + d.exponent

theorem den_pos (d : Decimal) : 0 < d.den := Nat.pow_pos (by decide)

theorem nearest_congr {d e : Decimal} (h : d.num * e.den = e.num * d.den) :
    d.nearest = e.nearest :=
  Binary64.Rounding.nearest_congr d.den_pos e.den_pos h

end Decimal

end Abacus
