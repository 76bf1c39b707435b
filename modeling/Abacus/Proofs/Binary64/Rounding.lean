import Abacus.Proofs.Binary64.ReadBack
import Mathlib.Algebra.Order.Ring.Int
import Mathlib.Data.Nat.Cast.Order.Ring
import Mathlib.Data.Nat.Log

namespace Abacus.Binary64.Rounding

variable {num den bits m k : Nat}

/-- The exponent of the grain is given a name, so that the power is not computed. -/
theorem exists_grain_eq : ∃ c : Nat, c = 1074 ∧ grain = 2 ^ c := ⟨_, rfl, grain_eq⟩

theorem divRound_bounds (num den : Nat) :
    num / den ≤ divRound num den ∧ divRound num den ≤ num / den + 1 := by
  unfold divRound
  simp only
  split
  · omega
  · split <;> omega

theorem abs_sub_divRound_le (num : Nat) (hden : 0 < den) :
    2 * |(num : Int) - divRound num den * den| ≤ den := by
  have hd : (num : Int) = (num / den : Nat) * den + (num % den : Nat) := by
    exact_mod_cast (Nat.div_add_mod' num den).symm
  have hlt : num % den < den := Nat.mod_lt num hden
  unfold divRound
  simp only
  generalize num / den = q at *
  generalize num % den = r at *
  rw [hd]
  have hdown : |(q : Int) * den + r - q * den| = r := by
    rw [add_sub_cancel_left, Nat.abs_cast]
  have hup : |(q : Int) * den + r - (q + 1 : Nat) * den| = den - r := by
    rw [Nat.cast_succ, add_mul, one_mul, add_sub_add_left_eq_sub, abs_sub_comm]
    exact abs_of_nonneg (by omega)
  split
  · rw [hdown]
    omega
  · split
    · rw [hup]
      omega
    · obtain hq | hq := Nat.mod_two_eq_zero_or_one q
      · rw [hq, Nat.add_zero, hdown]
        omega
      · rw [hq, hup]
        omega

theorem divRound_eq_of_abs_sub_lt (h : 2 * |(num : Int) - m * den| < den) :
    divRound num den = m := by
  have hp : ((m * den : Nat) : Int) = m * den := Int.natCast_mul m den
  have hs : ((m * den + den : Nat) : Int) = m * den + den := by
    rw [Int.natCast_add, hp]
  obtain ⟨hl, hu⟩ := abs_lt.mp (by omega : |(num : Int) - m * den| < den)
  rw [← hp] at h hl hu
  obtain hle | hgt := le_or_gt (m * den) num
  · have hq : num / den = m := Nat.div_eq_of_lt_le hle (by rw [Nat.succ_mul]; omega)
    have hr : num % den = num - m * den := by
      rw [Nat.mod_eq_sub_div_mul, hq]
    rw [abs_of_nonneg (by omega)] at h
    rw [divRound, hq, hr]
    rw [if_pos (by omega)]
  · have hm : 0 < m := Nat.pos_of_mul_pos_right (Nat.zero_lt_of_lt hgt)
    obtain ⟨m, rfl⟩ : ∃ i, m = i + 1 := ⟨m - 1, by omega⟩
    rw [Nat.succ_mul] at hgt h hl hu
    have hq : num / den = m := Nat.div_eq_of_lt_le (by omega) (by rw [Nat.succ_mul]; omega)
    have hr : num % den = num - m * den := by
      rw [Nat.mod_eq_sub_div_mul, hq]
    rw [abs_of_neg (by omega)] at h
    rw [divRound, hq, hr]
    rw [if_neg (by omega), if_pos (by omega)]

theorem lt_mul_place (num : Nat) (hden : 0 < den) : num < den * 2 ^ (place num den + 53) := by
  rw [Nat.mul_comm, ← Nat.div_lt_iff_lt_mul hden]
  refine Nat.lt_log2_self.trans_le (Nat.pow_le_pow_right (by decide) ?_)
  rw [place]
  omega

theorem mul_place_le (num : Nat) (hden : 0 < den) (hk : place num den ≠ 0) :
    den * 2 ^ (place num den + 52) ≤ num := by
  rw [place] at hk
  have hq : num / den ≠ 0 := by
    intro h
    rw [h] at hk
    exact hk rfl
  rw [Nat.mul_comm, ← Nat.le_div_iff_mul_le hden, ← Nat.le_log2 hq, place]
  omega

/-- Rounding can add a bit to the 53, but takes none away. -/
theorem divRound_place (num : Nat) (hden : 0 < den) :
    divRound num (den * 2 ^ place num den) ≤ 2 ^ 53 ∧
      (2 ^ 52 ≤ divRound num (den * 2 ^ place num den) ∨ place num den = 0) := by
  obtain ⟨hl, hu⟩ := divRound_bounds num (den * 2 ^ place num den)
  have hlt : num / (den * 2 ^ place num den) < 2 ^ 53 := by
    apply Nat.div_lt_of_lt_mul
    rw [Nat.mul_assoc, ← pow_add]
    exact lt_mul_place num hden
  refine ⟨by omega, ?_⟩
  by_cases hk : place num den = 0
  · exact .inr hk
  · refine .inl (le_trans ?_ hl)
    rw [Nat.le_div_iff_mul_le (Nat.mul_pos hden (Nat.two_pow_pos _)), Nat.mul_left_comm, ← pow_add,
      Nat.add_comm]
    exact mul_place_le num hden hk

theorem nearest_eq (num den : Nat) :
    nearest num den = min (place (num * grain) den * 2 ^ 52 +
      divRound (num * grain) (den * 2 ^ place (num * grain) den)) infinity := by
  have hp : 0x10000000000000 = 2 ^ 52 := rfl
  simp only [nearest, Nat.shiftLeft_eq, hp]

theorem place_grain_mul (num c : Nat) :
    place (num * grain) (grain * 2 ^ c) = num.log2 - c - 52 := by
  rw [place, Nat.mul_comm, Nat.mul_div_mul_left _ _ grain_pos, Nat.log2_eq_log_two,
    Nat.log_div_base_pow, Nat.log2_eq_log_two]

theorem divRound_grain_mul (num c k : Nat) :
    divRound (num * grain) (grain * 2 ^ c * 2 ^ k) = divRound num (2 ^ (c + k)) := by
  rw [Nat.mul_assoc, ← pow_add, Nat.mul_comm grain, divRound_mul_right _ _ _ grain_pos]

theorem units_add (hle : m ≤ 2 ^ 53) (hc : 2 ^ 52 ≤ m ∨ k = 0) :
    units (k * 2 ^ 52 + m) = m * 2 ^ k := by
  by_cases hlt : m < 2 ^ 52
  · obtain rfl : k = 0 := by omega
    rw [units_of_lt (by omega)]
    omega
  rw [units_of_le (by omega)]
  obtain hm | rfl := Nat.lt_or_eq_of_le hle
  · have hd : (k * 2 ^ 52 + m) / 2 ^ 52 - 1 = k := by omega
    have hr : 2 ^ 52 + (k * 2 ^ 52 + m) % 2 ^ 52 = m := by omega
    rw [hd, hr]
  · have hd : (k * 2 ^ 52 + 2 ^ 53) / 2 ^ 52 - 1 = k + 1 := by omega
    have hr : 2 ^ 52 + (k * 2 ^ 52 + 2 ^ 53) % 2 ^ 52 = 2 ^ 52 := by omega
    have hp : 52 + (k + 1) = 53 + k := by omega
    rw [hd, hr, ← pow_add, ← pow_add, hp]

theorem units_nearest (hden : 0 < den) (h : nearest num den < infinity) :
    units (nearest num den) = divRound (num * grain) (den * 2 ^ place (num * grain) den) *
      2 ^ place (num * grain) den := by
  obtain ⟨hle, hc⟩ := divRound_place (num * grain) hden
  rw [nearest_eq] at h ⊢
  rw [Nat.min_eq_left (by omega), units_add hle hc]

end Abacus.Binary64.Rounding
