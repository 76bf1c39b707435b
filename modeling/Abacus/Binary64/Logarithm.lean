import Abacus.Binary64.Fused
import Abacus.Binary64.Logarithm.Table

namespace Abacus.Binary64.Logarithm

open Rounding Parts Fused

/-- The reciprocal of the natural logarithm of two, in two parts: its leading bits and the rest. -/
def leading : Float := .ofBits 0x3ff7154765200000

def trailing : Float := .ofBits 0x3de705fc2eefa200

def linear (r : Float) : Float × Float :=
  let head := r * leading
  (head, mulAdd r trailing (mulAdd r leading (-head)))

def cubic (a b c d : UInt64) (r : Float) : Float :=
  mulAdd (r * r) (mulAdd r (.ofBits d) (.ofBits c)) (mulAdd r (.ofBits b) (.ofBits a))

/-- What has to be added to the first order for the logarithm of `1 + r`, divided by `r * r`. The six
terms are enough while `r` is below 1/128. -/
def correction (r : Float) : Float :=
  let square := r * r
  mulAdd (square * square)
    (mulAdd r (.ofBits 0x3fca6225e117f92e) (.ofBits 0xbfcec7b328ea92bc))
    (cubic 0xbfe71547652b8339 0x3fdec709dc3a04be 0xbfd7154764702ffb 0x3fd2776c50034c48 r)

/-- The logarithm of `2 ^ k * z`, where `z` lies in the piece of the anchor. What `z` is to the anchor
is close to one; its logarithm is added to those of the anchor and of the power of two. -/
def reduced (k : Int) (a : Anchor) (z : Float) : Float :=
  let r := mulAdd z (.ofBits a.reciprocal) (-one)
  let (head, rest) := linear r
  let base := ofParts (k < 0) (nearest k.natAbs 1) + .ofBits a.logarithm
  let sum := base + head
  let lost := base - sum + head + rest
  mulAdd (r * r) (correction r) lost + sum

/-- The logarithm of a number within a twentieth of one, where the logarithm is so small that more
terms count. -/
def nearOne (x : Float) : Float :=
  let r := x - one
  let (head, rest) := linear r
  let square := r * r
  let second := mulAdd r (.ofBits 0x3fdec709dc3a03f7) (.ofBits 0xbfe71547652b82fe)
  let sum := mulAdd second square head
  let lost := mulAdd second square (head - sum) + rest
  let higher := mulAdd (square * square)
    (cubic 0xbfc7153fbc64a79b 0x3fc484d154f01b4a 0xbfc289e4a72c383c 0x3fc0b32f285aee66 r)
    (cubic 0xbfd71547652b7c3f 0x3fd2776c50f05be4 0xbfcec709dd768fe5 0x3fca61761ec4e736 r)
  sum + mulAdd higher (square * square) lost

def origin : Int := 0x3fe6000000000000

/-- The binary logarithm of a positive normal number, wrong by less than 0.55 units in the last
place. Magnitude bits count the positive numbers in order, so beyond the origin they fall into whole
binades and pieces that are the 64th part of one. -/
def ofFloat (x : Float) : Float :=
  let bits := magnitude x
  if bits = magnitude one then 0
  else if 0x3feea4af00000000 ≤ bits ∧ bits < 0x3ff0b55900000000 then nearOne x
  else
    let k := (bits - origin) / 0x10000000000000
    let piece := ((bits - origin) / 0x400000000000 % 64).toNat
    let z := ofParts false (bits - k * 0x10000000000000).toNat
    match anchors[piece]? with
    | some a => reduced k a z
    | none => 0

/-- A mantissa of at most 53 bits and the power of two it is multiplied by, for the nearest such
number to `n`, a half going to the even mantissa. -/
def head (n : Nat) : Nat × Nat :=
  let k := n.log2 - 52
  (divRound n (1 <<< k), k)

/-- The binary logarithm of an integer greater than zero, which is rounded to binary64 first. Past the
range of binary64 it is split into a mantissa from a half up to one and a power of two, and the
logarithms of the two are added. -/
def log2 (n : Nat) : Float :=
  let bits := nearest n 1
  if bits < infinity then ofFloat (ofParts false bits)
  else
    let (m, k) := head n
    ofFloat (ofParts false (nearest m 0x20000000000000)) + ofParts false (nearest (k + 53) 1)

end Abacus.Binary64.Logarithm
