import Abacus.Lexer.Scan
import Abacus.Settings
import Abacus.Tree.Parser
import Abacus.Tree.Evaluation

namespace Abacus

inductive Failure
  | lexical (source : List Char) (e : Lexer.Error)
  | parse (e : Parser.Error)
  | arithmetic (e : Arithmetic.Error)
  deriving DecidableEq

namespace Calculation

def tokenize (source : List Char) : Except Failure (List Token) :=
  (Lexer.scan source).result.mapError (.lexical source)

def ofTokens (s : Settings) (ts : List Token) : Except Failure Expression :=
  (Parser.parse s.maxDepth ts).mapError .parse

def ofSlots (s : Settings) (ts : List (Option Token)) : Except Failure Expression :=
  ofTokens s (Parser.untilGap ts)

/-- The tree of a source. The whole source is read into tokens first, so a lexical error anywhere in
it comes before every other. -/
def tree (s : Settings) (source : List Char) : Except Failure Expression := do
  ofTokens s (← tokenize source)

def evaluate (s : Settings) (e : Expression) : Except Failure Result :=
  (e.evaluate s.maxIntegerBits).mapError .arithmetic

def calculate (s : Settings) (source : List Char) : Except Failure Result := do
  evaluate s (← tree s source)

end Calculation

end Abacus
