import Abacus.Numeral.Reading
import Abacus.Binary64.Parts
import Abacus.Binary64.Shortest

namespace Abacus.Numeral.Decimal

open Text Reading Binary64.Parts Binary64.Shortest

def nan : Float := 0.0 / 0.0

/-- An exponent so large that it outweighs all the digits decides alone, and no more of it counts. -/
def bounded (room : Nat) (e : Int) : Int := max (-(room + 400)) (min e (room + 400))

def exponent? : List Char → Option Int
  | [] => some 0
  | c :: s =>
    let (negative, digits) := sign s
    if c.toLower = 'e' ∧ digits ≠ [] ∧ digits.all Digit.isAscii then
      some (if negative then -value digits else value digits)
    else none

def unsigned? (s : List Char) : Option Decimal :=
  let whole := s.takeWhile Digit.isAscii
  let (fraction, rest) := match s.dropWhile Digit.isAscii with
    | '.' :: r => (r.takeWhile Digit.isAscii, r.dropWhile Digit.isAscii)
    | r => ([], r)
  let digits := whole ++ fraction
  if digits = [] then none
  else (exponent? rest).map fun e =>
    ⟨value digits, bounded digits.length e - fraction.length⟩

def named? (s : List Char) : Option Float :=
  match String.ofList (s.map Char.toLower) with
  | "inf" | "infinity" => some (ofParts false Binary64.Rounding.infinity)
  | "nan" => some nan
  | _ => none

def readUnsigned? (negative : Bool) (s : List Char) : Option Float :=
  match unsigned? s with
  | some d => some (ofParts negative d.nearest)
  | none => (named? s).map fun x => if negative then -x else x

def read (s : List Char) : Except Fault Float :=
  match (strike '+' (unify s)).bind fun t => readUnsigned? (sign t).1 (sign t).2 with
  | some x => .ok x
  | none => .error (.notDecimal s)

def positional (figures : List Char) (point : Int) : List Char :=
  if point ≤ 0 then '0' :: '.' :: (List.replicate (-point).toNat '0' ++ figures)
  else if figures.length ≤ point.toNat then
    figures ++ List.replicate (point.toNat - figures.length) '0' ++ ['.', '0']
  else figures.take point.toNat ++ '.' :: figures.drop point.toNat

structure Style where
  least : Int
  greatest : Int
  exponentWidth : Nat

/-- Numbers from one ten-thousandth up to sixteen places before the point stand positionally. -/
def general : Style := ⟨-3, 16, 2⟩

def scientific (width : Nat) (figures : List Char) (point : Int) : List Char :=
  let e := Nat.toDigits 10 (point - 1).natAbs
  let fraction := figures.drop 1
  figures.take 1 ++ (if fraction = [] then [] else '.' :: fraction) ++
    'e' :: (if point < 1 then '-' else '+') :: (List.replicate (width - e.length) '0' ++ e)

def Style.layout (s : Style) (figures : List Char) (point : Int) : List Char :=
  if s.least ≤ point ∧ point ≤ s.greatest then positional figures point
  else scientific s.exponentWidth figures point

def render (layout : List Char → Int → List Char) (x : Float) : List Char :=
  if isNaN x then "nan".toList
  else
    let body := if isFinite x then
        let d := shortest (magnitude x)
        layout d.figures d.point
      else "inf".toList
    if isNegative x then '-' :: body else body

def text (x : Float) : List Char := render general.layout x

def plain (x : Float) : List Char := render positional x

end Abacus.Numeral.Decimal
