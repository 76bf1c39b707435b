import Abacus.Numeral.Integer
import Abacus.Numeral.Decimal

namespace Abacus

open Numeral

inductive NumberType
  | integer
  | decimal
  deriving DecidableEq, Repr

namespace NumberType

def name : NumberType → String
  | integer => "integer"
  | decimal => "decimal"

def join : NumberType → NumberType → NumberType
  | integer, integer => integer
  | _, _ => decimal

theorem join_eq_decimal_iff {a b : NumberType} : join a b = decimal ↔ a = decimal ∨ b = decimal := by
  cases a <;> cases b <;> decide

end NumberType

inductive Number
  | integer (n : Int)
  | decimal (x : Float)
  deriving DecidableEq

namespace Number

def type : Number → NumberType
  | integer _ => .integer
  | decimal _ => .decimal

/-- Decimals compare as binary64 does: zeros are equal, and what is not a number equals nothing. -/
def same : Number → Number → Bool
  | integer a, integer b => a = b
  | decimal x, decimal y => x == y
  | _, _ => false

def text : Number → List Char
  | integer n => Integer.text n
  | decimal x => Decimal.text x

def lexeme : Number → List Char
  | integer n => Integer.text n
  | decimal x => Decimal.plain x

def isWritable : Number → Bool
  | integer n => Integer.isWritable n
  | decimal _ => true

def isZero : Number → Bool
  | integer n => n = 0
  | decimal x => Binary64.Parts.isZero x

def isFinite : Number → Bool
  | integer _ => true
  | decimal x => Binary64.Parts.isFinite x

end Number

end Abacus
