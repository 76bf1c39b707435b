import Abacus.Number

namespace Abacus

open Text

inductive Symbol
  | add
  | subtract
  | multiply
  | divide
  | power
  | leftParen
  | rightParen
  deriving DecidableEq, Repr

namespace Symbol

def all : List Symbol := [add, subtract, multiply, divide, power, leftParen, rightParen]

def char : Symbol → Char
  | add => '+'
  | subtract => '-'
  | multiply => '*'
  | divide => '/'
  | power => '^'
  | leftParen => '('
  | rightParen => ')'

def name : Symbol → String
  | add => "add"
  | subtract => "subtract"
  | multiply => "multiply"
  | divide => "divide"
  | power => "exponent"
  | leftParen => "left_paren"
  | rightParen => "right_paren"

def ofChar? : Char → Option Symbol
  | '+' => some add
  | '-' => some subtract
  | '*' => some multiply
  | '/' => some divide
  | '^' => some power
  | '(' => some leftParen
  | ')' => some rightParen
  | _ => none

def ofText? : List Char → Option Symbol
  | [c] => ofChar? c
  | _ => none

theorem ofChar?_char (s : Symbol) : ofChar? s.char = some s := by cases s <;> rfl

theorem char_of_ofChar? {c : Char} {s : Symbol} (h : ofChar? c = some s) : s.char = c := by
  unfold ofChar? at h
  split at h <;> cases h <;> rfl

end Symbol

inductive Kind
  | number (type : NumberType)
  | symbol (s : Symbol)
  deriving DecidableEq, Repr

namespace Kind

def all : List Kind := number .integer :: number .decimal :: Symbol.all.map symbol

def name : Kind → String
  | number t => t.name
  | symbol s => s.name

def ofName? (name : String) : Option Kind := all.find? fun k => k.name = name

end Kind

inductive Token
  | number (n : Number)
  | symbol (s : Symbol)
  deriving DecidableEq

namespace Token

/-- Why parts do not make a token. -/
inductive Fault
  | notSymbol (text : List Char)
  | numericKind (type : NumberType)
  | unknownKind
  | payload (kind : Kind) (value : Option Number)
  deriving DecidableEq

def Fault.message : Fault → String
  | notSymbol s => "not an operator or punctuation lexeme: " ++ .ofList (Quoted.quote s)
  | numericKind t => t.name ++ " is not an operator kind"
  | unknownKind => "kind: enum"
  | payload k value =>
    let got := ", got " ++ (value.map fun n => String.ofList n.text).getD "None"
    match k with
    | .number .integer => "integer token requires an int value" ++ got
    | .number .decimal => "decimal token requires a float value" ++ got
    | .symbol s => s.name ++ " token carries no value" ++ got

def kind : Token → Kind
  | number n => .number n.type
  | symbol s => .symbol s

def isNumeric : Token → Bool
  | number _ => true
  | symbol _ => false

def same : Token → Token → Bool
  | number a, number b => a.same b
  | symbol s, symbol t => s = t
  | _, _ => false

def lexeme : Token → List Char
  | number n => n.lexeme
  | symbol s => [s.char]

def isWritable : Token → Bool
  | number n => n.isWritable
  | symbol _ => true

def label : Token → List Char
  | number n => "Token(".toList ++ n.type.name.toList ++ ", ".toList ++ n.text ++ [')']
  | symbol s => "Token(".toList ++ s.name.toList ++ [')']

def describe : Option Token → String
  | some t => .ofList (Quoted.quote t.lexeme)
  | none => "end of input"

def ofLexeme (text : List Char) : Except Fault Token :=
  match Symbol.ofText? text with
  | some s => .ok (symbol s)
  | none => .error (.notSymbol text)

def ofKind : Kind → Except Fault Token
  | .symbol s => .ok (symbol s)
  | .number t => .error (.numericKind t)

/-- A token from a kind and a value: a number of the kind's own type, nothing for a symbol. -/
def ofParts (k : Kind) (value : Option Number) : Except Fault Token :=
  match k, value with
  | .symbol s, none => .ok (symbol s)
  | .number t, some n => if n.type = t then .ok (number n) else .error (.payload k value)
  | _, _ => .error (.payload k value)

theorem ofLexeme_char (s : Symbol) : ofLexeme [s.char] = .ok (symbol s) := by
  rw [ofLexeme, Symbol.ofText?, Symbol.ofChar?_char]

theorem ofParts_kind (n : Number) : ofParts (number n).kind (some n) = .ok (number n) := by
  simp [ofParts, kind]

end Token

end Abacus
