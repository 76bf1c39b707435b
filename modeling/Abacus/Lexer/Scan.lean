import Abacus.Lexer.Automaton
import Abacus.Snippet

namespace Abacus.Lexer

open Text

inductive Cause
  | unrecognized
  | unexpected
  | badLiteral (length : Nat)
  | prematureEnd
  deriving DecidableEq, Repr

structure Error where
  cause : Cause
  offset : Nat
  char : Option Char
  deriving DecidableEq, Repr

namespace Error

def message (e : Error) : String :=
  let char := String.ofList (Quoted.quote e.char.toList)
  match e.cause with
  | .unrecognized => s!"Unrecognized character {char} at offset {e.offset}"
  | .unexpected => s!"Unexpected character {char} at offset {e.offset}"
  | .badLiteral n => s!"Invalid numeric literal of {n} characters ending at offset {e.offset}"
  | .prematureEnd => "Unexpected end of input"

def report (source : List Char) (e : Error) : String :=
  (Snippet.mk source e.offset).report e.message

end Error

/-- The tokens of a text, each with the offset at which it was emitted, up to its end or to the
first error. -/
structure Scan where
  emitted : List (Token × Nat)
  error : Option Error
  deriving DecidableEq

namespace Scan

def tokens (r : Scan) : List Token := r.emitted.map Prod.fst

def fail (e : Error) : Scan := ⟨[], some e⟩

def prepend (ts : List Token) (offset : Nat) (r : Scan) : Scan :=
  ⟨ts.map (fun t => (t, offset)) ++ r.emitted, r.error⟩

def result (r : Scan) : Except Error (List Token) :=
  match r.error with
  | none => .ok r.tokens
  | some e => .error e

end Scan

/-- Read one character. It has to belong to the alphabet and to be possible in the state, and a
literal that it ends has to be a numeral. -/
def read (s : State) (offset : Nat) (c : Char) : Except Error (State × List Token) :=
  match CharClass.ofChar? c with
  | none => .error ⟨.unrecognized, offset, some c⟩
  | some k =>
    match step s k [c] with
    | .error _ => .error ⟨.badLiteral s.digits.length, offset, some c⟩
    | .ok ⟨.state s', ts⟩ => .ok (s', ts)
    | .ok _ => .error ⟨.unexpected, offset, some c⟩

def finish (s : State) (offset : Nat) : Except Error (List Token) :=
  match step s .endOfInput [] with
  | .error _ => .error ⟨.badLiteral s.digits.length, offset, none⟩
  | .ok ⟨.accept, ts⟩ => .ok ts
  | .ok _ => .error ⟨.prematureEnd, offset, none⟩

def scanFrom (s : State) (offset : Nat) : List Char → Scan
  | [] =>
    match finish s offset with
    | .ok ts => .prepend ts offset ⟨[], none⟩
    | .error e => .fail e
  | c :: cs =>
    match read s offset c with
    | .ok (s', ts) => .prepend ts offset (scanFrom s' (offset + 1) cs)
    | .error e => .fail e

def scan (source : List Char) : Scan := scanFrom .start 0 source

end Abacus.Lexer
