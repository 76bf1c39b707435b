import Abacus.Numeral.Integer

namespace Abacus.Manifest

open Numeral Text

abbrev Name := List Char

abbrev Key := List Name

mutual

inductive Value
  | string (s : List Char)
  | integer (n : Int)
  | table (t : Table)

inductive Table
  | nil
  | cons (name : Name) (value : Value) (rest : Table)

end

namespace Table

def get? : Table → Name → Option Value
  | nil, _ => none
  | cons name v t, wanted => if name = wanted then some v else t.get? wanted

def set : Table → Name → Value → Table
  | nil, name, v => cons name v nil
  | cons other w t, name, v =>
    if other = name then cons other v t else cons other w (t.set name v)

/-- Make sure of a table at the end of the key, unless a plain value stands in the way. -/
def open? : Table → Key → Option Table
  | t, [] => some t
  | t, name :: key =>
    match t.get? name with
    | none => do t.set name (.table (← nil.open? key))
    | some (.table inner) => do t.set name (.table (← inner.open? key))
    | some _ => none

def add? : Table → Key → Value → Option Table
  | _, [], _ => none
  | t, [name], v => if (t.get? name).isSome then none else some (t.set name v)
  | t, name :: key, v =>
    match t.get? name with
    | none => do t.set name (.table (← nil.add? key v))
    | some (.table inner) => do t.set name (.table (← inner.add? key v))
    | some _ => none

end Table

mutual

def Value.shown : Value → List Char
  | .string s => Quoted.quote s
  | .integer n => Integer.text n
  | .table t => '\x7b' :: t.shown ++ ['\x7d']

def Table.shown : Table → List Char
  | .nil => []
  | .cons name v .nil => Quoted.quote name ++ ':' :: ' ' :: v.shown
  | .cons name v t => Quoted.quote name ++ ':' :: ' ' :: v.shown ++ ',' :: ' ' :: t.shown

end

mutual

def Value.isWritable : Value → Bool
  | .string _ => true
  | .integer n => Integer.isWritable n
  | .table t => t.isWritable

def Table.isWritable : Table → Bool
  | .nil => true
  | .cons _ v t => v.isWritable && t.isWritable

end

def Value.text : Value → List Char
  | .string s => s
  | v => v.shown

def shownKey (key : Key) : List Char :=
  match key.map Quoted.quote with
  | [name] => '(' :: name ++ [',', ')']
  | names => '(' :: List.intercalate [',', ' '] names ++ [')']

end Abacus.Manifest
