import Abacus.Binary64.Shortest
import Mathlib.Algebra.Group.Nat.Defs

namespace Abacus.Binary64

namespace Rounding

variable {num bits k : Nat}

theorem grain_eq : grain = 2 ^ 1074 := by
  unfold grain
  generalize 1074 = k
  rw [Nat.shiftLeft_eq, Nat.one_mul]

theorem grain_pos : 0 < grain := by
  rw [grain_eq]
  generalize 1074 = k
  exact Nat.two_pow_pos k

theorem nearest_grain (num : Nat) :
    nearest num grain =
      min ((num.log2 - 52) * 2 ^ 52 + divRound num (2 ^ (num.log2 - 52))) infinity := by
  have hp : place (num * grain) grain = num.log2 - 52 := by
    rw [place, Nat.mul_div_cancel _ grain_pos]
  simp only [nearest, hp]
  rw [Nat.shiftLeft_eq, Nat.mul_comm grain, divRound_mul_right _ _ _ grain_pos]
  rfl

theorem divRound_mul_self (num : Nat) (hk : 0 < k) : divRound (num * k) k = num := by
  rw [divRound]
  simp only [Nat.mul_div_cancel _ hk, Nat.mul_mod_left]
  rw [if_pos (by omega)]

theorem log2_mul_two_pow (h : num ≠ 0) (k : Nat) : (num * 2 ^ k).log2 = num.log2 + k := by
  induction k with
  | zero => rw [Nat.pow_zero, Nat.mul_one, Nat.add_zero]
  | succ k ih =>
    have hk : num * 2 ^ (k + 1) = 2 * (num * 2 ^ k) := by
      rw [Nat.pow_succ, ← Nat.mul_assoc, Nat.mul_comm]
    have hn : num * 2 ^ k ≠ 0 := Nat.mul_ne_zero h (Nat.ne_of_gt (Nat.two_pow_pos k))
    rw [hk, Nat.log2_two_mul hn, ih, Nat.add_assoc]

theorem units_of_lt (h : bits < 2 ^ 52) : units bits = bits := if_pos h

theorem units_of_le (h : 2 ^ 52 ≤ bits) :
    units bits = (2 ^ 52 + bits % 2 ^ 52) * 2 ^ (bits / 2 ^ 52 - 1) := by
  rw [← Nat.shiftLeft_eq]
  exact if_neg (Nat.not_lt.mpr h)

theorem nearest_units (h : bits < infinity) : nearest (units bits) grain = bits := by
  rw [nearest_grain]
  by_cases hb : bits < 2 ^ 52
  · have hl : bits.log2 - 52 = 0 := by
      by_cases h0 : bits = 0
      · rw [h0]
        rfl
      · have hlt : bits.log2 < 52 := (Nat.log2_lt h0).mpr hb
        omega
    have hd : divRound bits (2 ^ 0) = bits := by
      rw [Nat.pow_zero, ← Nat.mul_one bits, divRound_mul_self _ Nat.one_pos, Nat.mul_one]
    rw [units_of_lt hb, hl, hd]
    omega
  · have hle : 2 ^ 52 ≤ bits := Nat.not_lt.mp hb
    have hm : (2 ^ 52 + bits % 2 ^ 52).log2 = 52 :=
      (Nat.log2_eq_iff (by omega)).mpr ⟨by omega, by omega⟩
    have hl : (units bits).log2 - 52 = bits / 2 ^ 52 - 1 := by
      rw [units_of_le hle, log2_mul_two_pow (by omega), hm]
      omega
    rw [hl, units_of_le hle, divRound_mul_self _ (Nat.two_pow_pos _)]
    omega

end Rounding

namespace Shortest

open Rounding

theorem nearest_exact {bits : Nat} (h : bits < infinity) : (exact bits).nearest = bits := by
  have hn : (exact bits).num = units bits * Nat.pow 5 1074 := Nat.mul_one _
  have he : (-(-1074 : Int)).toNat = 1074 := rfl
  have hd : (exact bits).den = grain * Nat.pow 5 1074 := by
    rw [grain_eq]
    unfold Decimal.den exact
    rw [he]
    generalize 1074 = k
    exact Nat.mul_pow 2 5 k
  rw [Decimal.nearest, hn, hd]
  generalize 1074 = k
  have hk : 0 < Nat.pow 5 k := Nat.pow_pos (by decide)
  rw [nearest_mul_right _ _ _ hk, nearest_units h]

/-- The shortest decimal of a finite number reads back as that number. -/
theorem nearest_shortest {bits : Nat} (h : bits < infinity) : (shortest bits).nearest = bits := by
  rw [shortest]
  by_cases hb : bits = 0
  · rw [if_pos hb, hb]
    exact nearest_zero _
  · rw [if_neg hb]
    cases hf : (List.range 17).findSome? fun n => candidate? bits (n + 1) with
    | none => exact nearest_exact h
    | some d =>
      obtain ⟨n, -, hn⟩ := List.exists_of_findSome?_eq_some hf
      exact nearest_of_candidate? hn

end Shortest

end Abacus.Binary64
