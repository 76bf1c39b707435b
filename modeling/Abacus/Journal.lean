import Abacus.Calculation
import Abacus.Tree.Text

namespace Abacus

inductive Event
  | notice (n : Settings.Notice)
  | emitted (t : Token) (offset : Nat)
  | parsed (count : Nat) (e : Expression)
  | evaluated (e : Expression) (r : Result)

namespace Event

def source : Event → String
  | notice _ => "WARNING calculator.environment: "
  | emitted .. => "DEBUG calculator.lexer: "
  | parsed .. => "DEBUG calculator.parser: "
  | evaluated .. => "DEBUG calculator.evaluator: "

def message? : Event → Option String
  | notice n => some n.message
  | emitted t i => if t.isWritable then
      some ("Emitting " ++ .ofList t.label ++ s!" at offset {i}")
    else none
  | parsed n e => if e.flatten.all Token.isWritable then
      some (s!"Parsed {n} tokens into " ++ .ofList e.text)
    else none
  | evaluated e r => if e.flatten.all Token.isWritable && r.value.isWritable then
      some ("Evaluated " ++ .ofList e.text ++ " to " ++ .ofList r.text)
    else none

def line (e : Event) : String := e.source ++ e.message?.getD "<unprintable>"

end Event

namespace Journal

def ofNotices (env : Settings.Environment) : List Event := env.notices.map .notice

/-- Evaluation that keeps a journal. The settings are looked up for each power that needs the limit,
and what is wrong with them is noted every time. -/
abbrev Evaluation := ExceptT Arithmetic.Error (StateM (List Event))

def limit (env : Settings.Environment) : Evaluation Nat := do
  modify (· ++ ofNotices env)
  return env.settings.maxIntegerBits

def evaluate (env : Settings.Environment) (e : Expression) : List Event × Except Failure Result :=
  let (outcome, events) := (e.eval (limit env)).run.run []
  match outcome with
  | .ok r => (events ++ [.evaluated e r], .ok r)
  | .error err => (events, .error (.arithmetic err))

def calculate (env : Settings.Environment) (source : List Char) :
    List Event × Except Failure Result :=
  let scan := Lexer.scan source
  let start := ofNotices env ++ scan.emitted.map fun p => .emitted p.1 p.2
  match Calculation.tree env.settings source with
  | .error f => (start, .error f)
  | .ok e =>
    let (events, outcome) := evaluate env e
    (start ++ .parsed scan.tokens.length e :: events, outcome)

end Journal

end Abacus
