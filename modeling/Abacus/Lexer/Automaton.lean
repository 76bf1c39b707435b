import Abacus.Token

namespace Abacus.Lexer

open Text

inductive CharClass
  | blank
  | digit
  | hyphen
  | fullStop
  | operator
  | endOfInput
  deriving DecidableEq, Repr

namespace CharClass

def isBlank (c : Char) : Bool :=
  c = ' ' || c = '\t' || c = '\n' || c = '\r' || c = '\x0c' || c = '\x0b'

def ofChar? (c : Char) : Option CharClass :=
  if isBlank c then some blank
  else if Digit.isAscii c then some digit
  else if c = '-' then some hyphen
  else if c = '.' then some fullStop
  else (Symbol.ofChar? c).map fun _ => operator

end CharClass

/-- Literals keep the text read so far. A hyphen waits for the next character, which decides whether
it is a sign. -/
inductive State
  | start
  | hyphen
  | integer (digits : List Char)
  | decimal (digits : List Char)
  deriving DecidableEq, Repr

namespace State

def digits : State → List Char
  | start => []
  | hyphen => []
  | integer ds => ds
  | decimal ds => ds

end State

inductive Fault
  | numeral (fault : Numeral.Fault)
  | token (fault : Token.Fault)
  deriving DecidableEq

namespace Fault

def message : Fault → String
  | numeral f => f.message
  | token f => f.message

end Fault

inductive Next
  | state (s : State)
  | accept
  | reject
  deriving DecidableEq, Repr

structure Step where
  next : Next
  emitted : List Token
  deriving DecidableEq

namespace Step

def goto (s : State) (emitted : List Token) : Step := ⟨.state s, emitted⟩

def reject : Step := ⟨.reject, []⟩

end Step

def symbolOf (text : List Char) : Except Fault Token := (Token.ofLexeme text).mapError .token

def integerOf (digits : List Char) : Except Fault Token :=
  match Numeral.Integer.read digits with
  | .ok n => .ok (.number (.integer n))
  | .error f => .error (.numeral f)

def decimalOf (digits : List Char) : Except Fault Token :=
  match Numeral.Decimal.read digits with
  | .ok x => .ok (.number (.decimal x))
  | .error f => .error (.numeral f)

/-- What a character does once the tokens before it are settled. -/
def settle (before : List Token) (c : CharClass) (text : List Char) : Except Fault Step :=
  match c with
  | .hyphen => .ok (.goto .start (before ++ [.symbol .subtract]))
  | .operator => (symbolOf text).map fun t => .goto .start (before ++ [t])
  | .endOfInput => .ok ⟨.accept, before⟩
  | _ => .ok (.goto .start before)

/-- One step on a character of class `c` with the given text, which is empty at the end of input.
A hyphen right after a literal subtracts; elsewhere it waits. -/
def step (s : State) (c : CharClass) (text : List Char) : Except Fault Step :=
  match s, c with
  | .start, .digit => .ok (.goto (.integer text) [])
  | .start, .hyphen => .ok (.goto .hyphen [])
  | .start, .fullStop => .ok .reject
  | .start, c => settle [] c text
  | .hyphen, .digit => .ok (.goto (.integer ('-' :: text)) [])
  | .hyphen, .hyphen => .ok (.goto .hyphen [.symbol .subtract])
  | .hyphen, .fullStop => .ok .reject
  | .hyphen, c => settle [.symbol .subtract] c text
  | .integer ds, .digit => .ok (.goto (.integer (ds ++ text)) [])
  | .integer ds, .fullStop => .ok (.goto (.decimal (ds ++ ['.'])) [])
  | .integer ds, c => (integerOf ds).bind fun t => settle [t] c text
  | .decimal ds, .digit => .ok (.goto (.decimal (ds ++ text)) [])
  | .decimal _, .fullStop => .ok .reject
  | .decimal ds, c => (decimalOf ds).bind fun t => settle [t] c text

end Abacus.Lexer
