import Abacus.Tree

namespace Abacus

mutual

/-- A tree as it is written: operators stand between spaces, parentheses close in on their
contents. -/
def Base.text : Base → List Char
  | .literal n => n.lexeme
  | .group e => '(' :: e.text ++ [')']

def Factor.text : Factor → List Char
  | .base b => b.text
  | .power b e => b.text ++ ' ' :: Symbol.power.char :: ' ' :: e.text

def TermTail.text : TermTail → List Char
  | .nil => []
  | .cons op f t => ' ' :: op.symbol.char :: ' ' :: f.text ++ t.text

def Term.text : Term → List Char
  | .mk f t => f.text ++ t.text

def ExpressionTail.text : ExpressionTail → List Char
  | .nil => []
  | .cons op t r => ' ' :: op.symbol.char :: ' ' :: t.text ++ r.text

def Expression.text : Expression → List Char
  | .mk t r => t.text ++ r.text

end

mutual

def Base.shape : Base → List Char
  | .literal n => (Token.number n).label
  | .group e => '(' :: e.shape ++ [')']

def Factor.shape : Factor → List Char
  | .base b => 'F' :: '\x7b' :: b.shape ++ ['\x7d']
  | .power b e => 'F' :: '\x7b' :: b.shape ++ Symbol.power.char :: e.shape ++ ['\x7d']

def TermTail.shape : TermTail → List Char
  | .nil => []
  | .cons op f t => ' ' :: op.symbol.char :: f.shape ++ t.shape

def Term.shape : Term → List Char
  | .mk f t => 'T' :: '\x7b' :: f.shape ++ t.shape ++ ['\x7d']

def ExpressionTail.shape : ExpressionTail → List Char
  | .nil => []
  | .cons op t r => ' ' :: op.symbol.char :: t.shape ++ r.shape

def Expression.shape : Expression → List Char
  | .mk t r => 'E' :: '\x7b' :: t.shape ++ r.shape ++ ['\x7d']

end

end Abacus
