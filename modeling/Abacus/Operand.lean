import Abacus.Number

namespace Abacus

/-- A number together with the type it counts as. Operations read it at that type: a decimal operand
widens an integer, an integer operand drops the fraction of a decimal. -/
structure Result where
  type : NumberType
  value : Number
  deriving DecidableEq

namespace Result

def ofNumber (n : Number) : Result := ⟨n.type, n⟩

def ofInt (n : Int) : Result := ofNumber (.integer n)

def ofFloat (x : Float) : Result := ofNumber (.decimal x)

def text (r : Result) : List Char := r.type.name.toList ++ '(' :: r.value.text ++ [')']

end Result

inductive Datum
  | number (n : Number)
  | truth (b : Bool)
  | missing
  deriving DecidableEq

namespace Datum

def number? : Datum → Option Number
  | number n => some n
  | truth b => some (.integer b.toNat)
  | missing => none

def isZero (d : Datum) : Bool := d.number?.any Number.isZero

def isWritable (d : Datum) : Bool := d.number?.all Number.isWritable

def text : Datum → List Char
  | number n => n.text
  | truth true => "True".toList
  | truth false => "False".toList
  | missing => "None".toList

end Datum

structure Operand where
  type : NumberType
  value : Datum
  deriving DecidableEq

namespace Operand

def ofResult (r : Result) : Operand := ⟨r.type, .number r.value⟩

def text (o : Operand) : List Char := o.type.name.toList ++ '(' :: o.value.text ++ [')']

end Operand

end Abacus
