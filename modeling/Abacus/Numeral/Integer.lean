import Abacus.Numeral.Reading

namespace Abacus.Numeral.Integer

open Text Reading

/-- Read a decimal integer. A text with too many digits is refused before what follows the digits is
looked at, but not before its underscores are. -/
def read (s : List Char) : Except Fault Int :=
  let (negative, body) := sign (unify s)
  let run := body.takeWhile fun c => Digit.isAscii c || c = '_'
  match strike '+' run with
  | none => .error (.notInteger s)
  | some digits =>
    if longest < digits.length then .error (.tooManyDigits digits.length)
    else if digits = [] ∨ run.length < body.length then .error (.notInteger s)
    else .ok (if negative then -value digits else value digits)

def text (n : Int) : List Char :=
  if n < 0 then '-' :: Nat.toDigits 10 n.natAbs else Nat.toDigits 10 n.natAbs

def bound : Nat := Nat.pow 10 longest

def isWritable (n : Int) : Bool := n.natAbs < bound

theorem length_toDigits_le_of_isWritable {n : Int} (h : isWritable n = true) :
    (Nat.toDigits 10 n.natAbs).length ≤ longest := by
  have hl : 0 < longest := by decide
  unfold isWritable bound at h
  generalize longest = k at h hl ⊢
  exact (Nat.length_toDigits_le_iff (by decide) hl).mpr (of_decide_eq_true h)

end Abacus.Numeral.Integer
