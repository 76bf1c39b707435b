import Abacus.Manifest

namespace Abacus.Manifest

open Numeral Text

inductive Cause
  | statement
  | keyStart
  | noEquals
  | value
  | unterminated
  | unclosed
  | control (c : Char)
  | hidden (c : Char)
  | escape
  | hex
  | notScalar
  | noBracket
  | trailing
  | declaredTwice (key : Key)
  | redefined (key : Key)
  | occupied
  deriving DecidableEq, Repr

namespace Cause

def message : Cause → String
  | statement => "Invalid statement"
  | keyStart => "Invalid initial character for a key part"
  | noEquals => "Expected '=' after a key in a key/value pair"
  | value => "Invalid value"
  | unterminated => "Unterminated string"
  | unclosed => "Expected \"'\""
  | control c => "Illegal character " ++ .ofList (Quoted.quote [c])
  | hidden c => "Found invalid character " ++ .ofList (Quoted.quote [c])
  | escape => "Unescaped '\\' in a string"
  | hex => "Invalid hex value"
  | notScalar => "Escaped character is not a Unicode scalar value"
  | noBracket => "Expected ']' at the end of a table declaration"
  | trailing => "Expected newline or end of document after a statement"
  | declaredTwice key => "Cannot declare " ++ .ofList (shownKey key) ++ " twice"
  | redefined key => "Cannot redefine namespace " ++ .ofList (shownKey key)
  | occupied => "Cannot overwrite a value"

end Cause

/-- A place is told by how many characters are left from it on. -/
inductive Error
  | malformed (cause : Cause) (left : Nat)
  | numeral (fault : Numeral.Fault)
  deriving DecidableEq, Repr

def place (source : List Char) (left : Nat) : String :=
  if left = 0 then "end of document"
  else
    let before := source.take (source.length - left)
    let line := before.count '\n' + 1
    let column := (before.reverse.takeWhile fun c => c ≠ '\n').length + 1
    s!"line {line}, column {column}"

def Error.message (source : List Char) : Error → String
  | malformed c left => c.message ++ " (at " ++ place source left ++ ")"
  | numeral f => f.message

abbrev Rule (α : Type) := List Char → Except Error (α × List Char)

def fail {α : Type} (c : Cause) (rest : List Char) : Except Error α :=
  .error (.malformed c rest.length)

def isBlank (c : Char) : Bool := c = ' ' || c = '\t'

def isControl (c : Char) : Bool := (c.toNat < 32 && c ≠ '\t') || c.toNat = 127

def isBare (c : Char) : Bool := c.isAlphanum || c = '-' || c = '_'

def skipBlanks (cs : List Char) : List Char := cs.dropWhile isBlank

def hexDigit? (c : Char) : Option Nat :=
  if Digit.isAscii c then some (c.toNat - 48)
  else if 'a' ≤ c ∧ c ≤ 'f' then some (c.toNat - 87)
  else if 'A' ≤ c ∧ c ≤ 'F' then some (c.toNat - 55)
  else none

def number (base : Nat) (digits : List Char) : Nat :=
  digits.foldl (fun n c => n * base + (hexDigit? c).getD 0) 0

def spelled (width : Nat) : Rule Char := fun cs =>
  let digits := cs.take width
  if digits.length = width ∧ digits.all fun c => (hexDigit? c).isSome then
    let n := number 16 digits
    if n.isValidChar then .ok (.ofNat n, cs.drop width)
    else fail .notScalar (cs.drop width)
  else fail .hex cs

def escaped : Rule Char
  | 'b' :: cs => .ok ('\x08', cs)
  | 't' :: cs => .ok ('\t', cs)
  | 'n' :: cs => .ok ('\n', cs)
  | 'f' :: cs => .ok ('\x0c', cs)
  | 'r' :: cs => .ok ('\r', cs)
  | '"' :: cs => .ok ('"', cs)
  | '\\' :: cs => .ok ('\\', cs)
  | 'u' :: cs => spelled 4 cs
  | 'U' :: cs => spelled 8 cs
  | cs => fail .escape (cs.drop 1)

/-- The rest of a string in double quotes. Every step reads a character or more, so their number
bounds the steps. -/
def quoted : Nat → Rule (List Char)
  | _, [] => fail .unterminated []
  | 0, cs => fail .unterminated cs
  | n + 1, c :: cs =>
    if c = '"' then .ok ([], cs)
    else if c = '\\' then do
      let (d, cs) ← escaped cs
      let (s, cs) ← quoted n cs
      .ok (d :: s, cs)
    else if isControl c then fail (.control c) (c :: cs)
    else do
      let (s, cs) ← quoted n cs
      .ok (c :: s, cs)

def verbatim : Rule (List Char) := fun cs =>
  let s := cs.takeWhile (· ≠ '\'')
  match cs.drop s.length, s.dropWhile fun c => !isControl c with
  | [], _ => fail .unclosed []
  | _ :: rest, [] => .ok (s, rest)
  | _, c :: _ => fail (.hidden c) (cs.dropWhile fun c => !isControl c)

def string? : List Char → Option (Except Error (List Char × List Char))
  | '"' :: cs => some (quoted cs.length cs)
  | '\'' :: cs => some (verbatim cs)
  | _ => none

def namePart : Rule Name := fun cs =>
  let bare := cs.takeWhile isBare
  if bare ≠ [] then .ok (bare, cs.drop bare.length)
  else (string? cs).getD (fail .keyStart cs)

def key : Nat → Rule Key
  | 0, cs => fail .keyStart cs
  | n + 1, cs => do
    let (name, cs) ← namePart cs
    match skipBlanks cs with
    | '.' :: cs => do
      let (names, cs) ← key n (skipBlanks cs)
      .ok (name :: names, cs)
    | cs => .ok ([name], cs)

def digits (isDigit : Char → Bool) : List Char → List Char × List Char
  | '_' :: c :: cs =>
    if isDigit c then
      let (ds, rest) := digits isDigit cs
      (c :: ds, rest)
    else ([], '_' :: c :: cs)
  | c :: cs =>
    if isDigit c then
      let (ds, rest) := digits isDigit cs
      (c :: ds, rest)
    else ([], c :: cs)
  | [] => ([], [])

/-- Digits after a letter that names their base; at least one of them. -/
def based (base : Nat) (isDigit : Char → Bool) : List Char → Option (Int × List Char)
  | c :: cs =>
    if isDigit c then
      let (ds, rest) := digits isDigit cs
      some (number base (c :: ds), rest)
    else none
  | [] => none

def prefixed? : List Char → Option (Int × List Char)
  | '0' :: 'x' :: cs => based 16 (fun c => (hexDigit? c).isSome) cs
  | '0' :: 'o' :: cs => based 8 (fun c => '0' ≤ c && c ≤ '7') cs
  | '0' :: 'b' :: cs => based 2 (fun c => c = '0' || c = '1') cs
  | _ => none

def decimal : Rule Int := fun cs =>
  let (sign, body) := match cs with
    | '+' :: r => (['+'], r)
    | '-' :: r => (['-'], r)
    | r => ([], r)
  match body with
  | '0' :: rest => .ok (0, rest)
  | c :: r =>
    if Digit.isAscii c then
      let (ds, rest) := digits Digit.isAscii r
      match Integer.read (sign ++ c :: ds) with
      | .ok n => .ok (n, rest)
      | .error f => .error (.numeral f)
    else fail .value cs
  | [] => fail .value cs

def value : Rule Value := fun cs =>
  match string? cs, prefixed? cs with
  | some r, _ => r.map fun p => (.string p.1, p.2)
  | none, some (n, rest) => .ok (.integer n, rest)
  | none, none => (decimal cs).map fun p => (.integer p.1, p.2)

/-- What has been read so far: the entries, the table that is open, the tables that cannot be opened
again, and those that the open table has been writing to. -/
structure Draft where
  table : Table
  header : Key
  closed : List Key
  written : List Key

namespace Draft

def empty : Draft := ⟨.nil, [], [], []⟩

def declare (d : Draft) (k : Key) (rest : List Char) : Except Error Draft :=
  let closed := d.written ++ d.closed
  if k ∈ closed then fail (.declaredTwice k) rest
  else
    match d.table.open? k with
    | some t => .ok ⟨t, k, k :: closed, []⟩
    | none => fail .occupied rest

def between (d : Draft) (k : Key) : List Key :=
  ((List.range k.length).drop 1).map fun i => d.header ++ k.take i

def define (d : Draft) (k : Key) (v : Value) (rest : List Char) : Except Error Draft :=
  match (d.between k).find? fun part => part ∈ d.closed with
  | some part => fail (.redefined part) rest
  | none =>
    match d.table.add? (d.header ++ k) v with
    | some t => .ok ⟨t, d.header, d.closed, d.between k ++ d.written⟩
    | none => fail .occupied rest

end Draft

def header (d : Draft) (cs : List Char) : Except Error (Draft × List Char) := do
  let (k, rest) ← key cs.length (skipBlanks cs)
  let d ← d.declare k rest
  match rest with
  | ']' :: rest => .ok (d, rest)
  | rest => fail .noBracket rest

def pair (d : Draft) (cs : List Char) : Except Error (Draft × List Char) := do
  let (k, rest) ← key cs.length cs
  match rest with
  | '=' :: rest => do
    let (v, rest) ← value (skipBlanks rest)
    let d ← d.define k v rest
    .ok (d, rest)
  | rest => fail .noEquals rest

def statement (d : Draft) : List Char → Except Error (Draft × List Char)
  | '[' :: cs => header d cs
  | '#' :: cs => .ok (d, '#' :: cs)
  | c :: cs =>
    if isBare c ∨ c = '"' ∨ c = '\'' then pair d (c :: cs) else fail .statement (c :: cs)
  | [] => .ok (d, [])

def endOfLine (cs : List Char) : Except Error (List Char) :=
  match skipBlanks cs with
  | '#' :: cs =>
    let comment := cs.takeWhile (· ≠ '\n')
    match comment.dropWhile fun c => !isControl c with
    | [] => .ok (cs.drop comment.length)
    | c :: _ => fail (.hidden c) (cs.dropWhile fun c => !isControl c)
  | [] => .ok []
  | '\n' :: cs => .ok ('\n' :: cs)
  | cs => fail .trailing cs

def lines : Nat → Draft → List Char → Except Error Table
  | 0, d, _ => .ok d.table
  | n + 1, d, cs =>
    match skipBlanks cs with
    | [] => .ok d.table
    | '\n' :: cs => lines n d cs
    | cs => do
      let (d, rest) ← statement d cs
      match ← endOfLine rest with
      | [] => .ok d.table
      | _ :: rest => lines n d rest

def unifyLines : List Char → List Char
  | '\r' :: '\n' :: cs => '\n' :: unifyLines cs
  | c :: cs => c :: unifyLines cs
  | [] => []

def read (source : List Char) : Except Error Table :=
  let cs := unifyLines source
  lines (cs.length + 1) .empty cs

end Abacus.Manifest
