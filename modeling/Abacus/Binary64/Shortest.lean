import Abacus.Decimal

namespace Abacus.Binary64.Shortest

open Rounding

/-- The place of the first figure of `num / den`: the least `p` with `num / den < 10 ^ p`, for a
quotient below one that is no power of ten. -/
def leading (num den : Nat) : Int :=
  if den ≤ num then (Nat.toDigits 10 (num / den)).length
  else 1 - (Nat.toDigits 10 (den / num)).length

/-- The neighbours of a number among the multiples of `10 ^ exponent`, and whether the upper one is
the nearer. Of two at the same distance the one with an even mantissa counts as nearer. -/
def neighbours (bits : Nat) (exponent : Int) : Decimal × Decimal × Bool :=
  let num := units bits * Nat.pow 10 (-exponent).toNat
  let den := grain * Nat.pow 10 exponent.toNat
  let q := num / den
  let r := num % den
  (⟨q, exponent⟩, ⟨q + 1, exponent⟩, den < 2 * r || (den = 2 * r && q % 2 = 1))

def candidate? (bits n : Nat) : Option Decimal :=
  let (lower, upper, up) := neighbours bits (leading (units bits) grain - n)
  if lower.nearest = bits ∧ (up = false ∨ upper.nearest ≠ bits) then some lower
  else if upper.nearest = bits then some upper
  else none

def exact (bits : Nat) : Decimal := ⟨units bits * Nat.pow 5 1074, -1074⟩

/-- The decimal with the fewest figures that reads back as the number with these magnitude bits, and
of those the nearest to it. Seventeen figures always suffice. -/
def shortest (bits : Nat) : Decimal :=
  if bits = 0 then ⟨0, 0⟩
  else ((List.range 17).findSome? fun n => candidate? bits (n + 1)).getD (exact bits)

theorem nearest_of_candidate? {bits n : Nat} {d : Decimal} (h : candidate? bits n = some d) :
    d.nearest = bits := by
  unfold candidate? at h
  simp only [] at h
  split at h
  · next hc => cases h; exact hc.1
  · split at h
    · next hc => cases h; exact hc
    · exact absurd h (by simp)

end Abacus.Binary64.Shortest
