import Abacus.Numeral.Integer

namespace Abacus

open Numeral Text

structure Settings where
  maxDepth : Nat
  maxIntegerBits : Nat
  deriving DecidableEq, Repr

namespace Settings

inductive Variable
  | maxDepth
  | maxIntegerBits
  deriving DecidableEq, Repr

namespace Variable

def name : Variable → String
  | maxDepth => "CALCULATOR_MAX_DEPTH"
  | maxIntegerBits => "CALCULATOR_MAX_INTEGER_BITS"

def fallback : Variable → Nat
  | maxDepth => 100
  | maxIntegerBits => 1000000

end Variable

inductive Notice
  | notInteger (v : Variable) (value : List Char)
  | notPositive (v : Variable) (value : Int)
  deriving DecidableEq, Repr

def Notice.message : Notice → String
  | notInteger v s =>
    "Ignoring non-integer " ++ v.name ++ "=" ++ .ofList (Quoted.quote s) ++
      s!", using {v.fallback}"
  | notPositive v n =>
    "Ignoring non-positive " ++ v.name ++ "=" ++ .ofList (Integer.text n) ++
      s!", using {v.fallback}"

/-- The value of a variable, given the text it was set to: a positive integer, or else its fallback.
A blank text counts as none. -/
def resolve (v : Variable) (raw : Option (List Char)) : Nat × Option Notice :=
  let value := Blank.trim Blank.isBlank (raw.getD [])
  if value = [] then (v.fallback, none)
  else
    match Integer.read value with
    | .error _ => (v.fallback, some (.notInteger v value))
    | .ok n => if n ≤ 0 then (v.fallback, some (.notPositive v n)) else (n.toNat, none)

structure Environment where
  maxDepth : Option (List Char)
  maxIntegerBits : Option (List Char)
  deriving DecidableEq, Repr

namespace Environment

def empty : Environment := ⟨none, none⟩

def set (env : Environment) (name : String) (value : Option (List Char)) : Environment :=
  if name = Variable.maxDepth.name then { env with maxDepth := value }
  else if name = Variable.maxIntegerBits.name then { env with maxIntegerBits := value }
  else env

def settings (env : Environment) : Settings :=
  ⟨(resolve .maxDepth env.maxDepth).1, (resolve .maxIntegerBits env.maxIntegerBits).1⟩

def notices (env : Environment) : List Notice :=
  (resolve .maxDepth env.maxDepth).2.toList ++
    (resolve .maxIntegerBits env.maxIntegerBits).2.toList

end Environment

theorem resolve_pos (v : Variable) (raw : Option (List Char)) : 0 < (resolve v raw).1 := by
  have hf : 0 < v.fallback := by cases v <;> decide
  simp only [resolve]
  split
  · exact hf
  · split
    · exact hf
    · split
      · exact hf
      · next hn => exact Int.lt_toNat.mpr (Int.not_le.mp hn)

theorem settings_pos (env : Environment) :
    0 < env.settings.maxDepth ∧ 0 < env.settings.maxIntegerBits :=
  ⟨resolve_pos .., resolve_pos ..⟩

end Settings

end Abacus
