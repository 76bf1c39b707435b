import Abacus.Journal
import Abacus.Node.Assembly
import Abacus.Node.Place
import Abacus.Node.Builder
import Abacus.Session
import Abacus.Version
import Abacus.Proofs.Grammar.Rules
import Abacus.Proofs.Grammar.Derivation
import Abacus.Proofs.Grammar.Meaning
import Abacus.Proofs.Lexer.Run
import Abacus.Proofs.Lexer.Places
import Abacus.Proofs.Lexer.LongestMatch
import Abacus.Proofs.Binary64.Encoding
import Abacus.Proofs.Binary64.ReadBack
import Abacus.Proofs.Binary64.Rounding
import Abacus.Proofs.Binary64.Operations
import Abacus.Proofs.Binary64.Value
import Abacus.Proofs.Binary64.Logarithm
import Abacus.Proofs.Binary64.Magnitude
import Abacus.Proofs.Numeral.Positional
import Abacus.Proofs.Lexer.Passage
import Abacus.Proofs.Lexer.Numbers
import Abacus.Proofs.Lexer.Lexemes
import Abacus.Proofs.Lexer.Blanks
import Abacus.Proofs.Lexer.Stop
import Abacus.Proofs.Tree.Spacing
import Abacus.Proofs.RoundTrip
import Abacus.Proofs.Grammar.Rejection
import Abacus.Proofs.Grammar.ViablePrefix
import Abacus.Proofs.Composition
import Abacus.Proofs.Arithmetic
import Abacus.Proofs.Tree.Typing
import Abacus.Proofs.Escape
import Abacus.Proofs.Overrun
import Abacus.Proofs.Failure
import Abacus.Proofs.Limits
import Abacus.Proofs.IntegerOperations
import Abacus.Proofs.Denotation
import Abacus.Proofs.Budget
import Abacus.Proofs.Lexer.Report
import Abacus.Proofs.Tree.Finite
import Abacus.Proofs.Lexer.Concatenation
import Abacus.Proofs.Lexer.Reachable
import Abacus.Proofs.Grammar.Lookahead
import Abacus.Proofs.Grammar.Unwritable
import Abacus.Proofs.Grammar.Cursor
import Abacus.Proofs.Grammar.Frame
import Abacus.Proofs.Numeral.Expansion
import Abacus.Proofs.Operators
import Abacus.Proofs.Node.Assembly
import Abacus.Proofs.Node.Record
import Abacus.Proofs.Node.Builder
import Abacus.Proofs.Node.Guards
