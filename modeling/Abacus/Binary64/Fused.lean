import Abacus.Binary64.Parts

namespace Abacus.Binary64.Fused

open Rounding Parts

def multiple (x : Float) : Int :=
  if isNegative x then -units (magnitude x) else units (magnitude x)

/-- `x * y + z` for finite numbers, rounded once and not also after the product. A sum of zero is
positive. -/
def mulAdd (x y z : Float) : Float :=
  let sum := multiple x * multiple y + multiple z * grain
  ofParts (sum < 0) (nearest sum.natAbs (grain * grain))

end Abacus.Binary64.Fused
