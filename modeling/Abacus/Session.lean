import Abacus.Calculation

namespace Abacus

/-- A source that is read token by token. What is left of it is known from the start, since nothing
that happens between two tokens changes it. -/
structure Scanner where
  source : List Char
  rest : List Token
  error : Option Lexer.Error

namespace Scanner

def ofSource (source : List Char) : Scanner :=
  let r := Lexer.scan source
  ⟨source, r.tokens, r.error⟩

def close (s : Scanner) : Scanner := ⟨s.source, [], none⟩

/-- The next token, if one is left. The error is told once, after the tokens before it. -/
def next (s : Scanner) : Except Failure (Option Token) × Scanner :=
  match s.rest, s.error with
  | t :: ts, _ => (.ok (some t), { s with rest := ts })
  | [], some e => (.error (.lexical s.source e), s.close)
  | [], none => (.ok none, s)

def tree (settings : Settings) (s : Scanner) : Except Failure Expression :=
  match s.error with
  | some e => .error (.lexical s.source e)
  | none => Calculation.ofTokens settings s.rest

end Scanner

structure Session where
  environment : Settings.Environment
  scanners : List (String × Scanner)
  trees : List (String × Expression)

namespace Session

def start (env : Settings.Environment) : Session := ⟨env, [], []⟩

def scanner? (s : Session) (name : String) : Option Scanner := s.scanners.lookup name

def tree? (s : Session) (name : String) : Option Expression := s.trees.lookup name

def setScanner (s : Session) (name : String) (x : Scanner) : Session :=
  { s with scanners := (name, x) :: s.scanners.filter fun p => p.1 ≠ name }

def setTree (s : Session) (name : String) (e : Expression) : Session :=
  { s with trees := (name, e) :: s.trees.filter fun p => p.1 ≠ name }

def setVariable (s : Session) (name : String) (value : Option (List Char)) : Session :=
  { s with environment := s.environment.set name value }

def keep (s : Session) (name : String) (r : Except Failure Expression) : Session :=
  match r with
  | .ok e => s.setTree name e
  | .error _ => s

def plant (s : Session) (name : String) (source : List Char) :
    Except Failure Expression × Session :=
  let r := Calculation.tree s.environment.settings source
  (r, s.keep name r)

/-- Parse what is left of a scanner and keep the tree. The scanner is used up in any case. -/
def parseScanner (s : Session) (name tree : String) (x : Scanner) :
    Except Failure Expression × Session :=
  let r := x.tree s.environment.settings
  (r, (s.setScanner name x.close).keep tree r)

end Session

end Abacus
