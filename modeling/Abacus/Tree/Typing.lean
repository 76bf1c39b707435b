import Abacus.Tree

namespace Abacus

mutual

def Base.type : Base → NumberType
  | .literal n => n.type
  | .group e => e.type

def Factor.type : Factor → NumberType
  | .base b => b.type
  | .power b e => b.type.join e.type

def TermTail.type : TermTail → NumberType
  | .nil => .integer
  | .cons _ f t => f.type.join t.type

def Term.type : Term → NumberType
  | .mk f t => f.type.join t.type

def ExpressionTail.type : ExpressionTail → NumberType
  | .nil => .integer
  | .cons _ t r => t.type.join r.type

def Expression.type : Expression → NumberType
  | .mk t r => t.type.join r.type

end

end Abacus
