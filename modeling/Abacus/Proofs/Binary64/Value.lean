import Abacus.Proofs.Binary64.Operations

namespace Abacus.Binary64

open Rounding Parts Operations
open Float.Model.UnpackedFloat (Sign)

def value (x : Float) : ℚ := Fused.multiple x / grain

/-- The number is what rounding to nearest makes of `q`. -/
def Rounds (x : Float) (q : ℚ) : Prop :=
  ∃ (n : Int) (den : Nat), 0 < den ∧ q = n / den ∧ IsNearest x.toBits.toBitVec n den

variable {x y z : Float} {q : ℚ} {n : Int} {num den p m : Nat}

theorem cast_grain_pos : (0 : ℚ) < grain := Nat.cast_pos.mpr grain_pos

theorem grain_ne_zero : (grain : ℚ) ≠ 0 := cast_grain_pos.ne'

theorem one_div_two_pow_le_one (p : Nat) : (1 : ℚ) / 2 ^ p ≤ 1 := by
  rw [div_le_one (by positivity)]
  exact one_le_pow₀ (by norm_num)

theorem rounds_add (hx : isFinite x = true) (hy : isFinite y = true) :
    Rounds (x + y) (value x + value y) := by
  refine ⟨_, _, grain_pos, ?_, isNearest_add hx hy⟩
  rw [value, value, ← add_div]
  push_cast
  rfl

theorem rounds_sub (hx : isFinite x = true) (hy : isFinite y = true) :
    Rounds (x - y) (value x - value y) := by
  refine ⟨_, _, grain_pos, ?_, isNearest_sub hx hy⟩
  rw [value, value, ← sub_div]
  push_cast
  rfl

theorem rounds_mul (hx : isFinite x = true) (hy : isFinite y = true) :
    Rounds (x * y) (value x * value y) := by
  refine ⟨_, _, Nat.mul_pos grain_pos grain_pos, ?_, isNearest_mul hx hy⟩
  rw [value, value, div_mul_div_comm]
  push_cast
  rfl

theorem isNearest_ofParts (n : Int) (den : Nat) :
    IsNearest (ofParts (n < 0) (nearest n.natAbs den)).toBits.toBitVec n den := by
  have h : (ofParts (n < 0) (nearest n.natAbs den)).toBits.toBitVec.toNat = _ :=
    toNat_toBits_ofParts
  rw [Nat.min_eq_left (nearest_le _ _)] at h
  by_cases hn : n < 0
  · refine ⟨.negative, ?_, ?_⟩
    · change n = -(n.natAbs : Int)
      omega
    · rw [h, if_pos (decide_eq_true hn), Nat.add_comm]
      rfl
  · refine ⟨.positive, ?_, ?_⟩
    · change n = (n.natAbs : Int)
      omega
    · rw [h, if_neg (by simpa using hn), Nat.add_zero]
      exact (Nat.zero_add _).symm

theorem rounds_mulAdd (x y z : Float) :
    Rounds (Fused.mulAdd x y z) (value x * value y + value z) := by
  refine ⟨_, _, Nat.mul_pos grain_pos grain_pos, ?_, isNearest_ofParts _ _⟩
  have hg := grain_ne_zero
  rw [value, value, value]
  push_cast
  field_simp

theorem multiple_of_isNearest (h : IsNearest x.toBits.toBitVec n den) :
    magnitude x = nearest n.natAbs den ∧ ∃ s : Sign, n = s.apply n.natAbs ∧
      Fused.multiple x = s.apply (units (nearest n.natAbs den)) := by
  obtain ⟨s, hs, hw⟩ := h
  obtain ⟨t, ht, hx⟩ := toNat_toBits x
  have hm : magnitude x < 2 ^ 63 := magnitude_lt x
  have hn : nearest n.natAbs den < 2 ^ 63 := (nearest_le _ _).trans_lt (by decide)
  have he : t.toBitVec.toNat * 2 ^ 63 + magnitude x =
      s.toBitVec.toNat * 2 ^ 63 + nearest n.natAbs den := hx.symm.trans hw
  have hmag : magnitude x = nearest n.natAbs den := by omega
  have hst : t = s := by
    have hb : t.toBitVec.toNat = s.toBitVec.toNat := by omega
    rw [← Sign.ofBitVec_toBitVec t, BitVec.eq_of_toNat_eq hb, Sign.ofBitVec_toBitVec]
  refine ⟨hmag, s, hs, ?_⟩
  rw [ht, hst, hmag]

theorem isNaN_eq_false_of_isNearest (h : IsNearest x.toBits.toBitVec n den) : isNaN x = false := by
  obtain ⟨hm, -⟩ := multiple_of_isNearest h
  rw [isNaN, hm]
  exact decide_eq_false (Nat.not_lt.mpr (nearest_le _ _))

theorem isNaN_mul (hx : isFinite x = true) (hy : isFinite y = true) : isNaN (x * y) = false :=
  isNaN_eq_false_of_isNearest (isNearest_mul hx hy)

theorem isFinite_of_ofInt? (h : ofInt? n = some x) : isFinite x = true := by
  unfold ofInt? at h
  simp only at h
  split at h
  · next hlt =>
    obtain rfl := Option.some.inj h
    rw [isFinite, magnitude_ofParts, Nat.min_eq_left hlt.le]
    exact decide_eq_true hlt
  · cases h

/-- Rounding goes to the nearest point of a grid, whose spacing is in proportion to the number. -/
structure Spacing (q : ℚ) (v : ℚ) (k : Nat) : Prop where
  nonneg : 0 ≤ q
  upper : q < 2 ^ 53 * (2 ^ k / grain)
  lower : k ≠ 0 → 2 ^ 52 * (2 ^ k / grain) ≤ q
  near : 2 * |v - q| ≤ 2 ^ k / grain
  unique : ∀ m : Nat, 2 * |m * (2 ^ k / grain) - q| < 2 ^ k / grain → v = m * (2 ^ k / grain)

theorem exists_spacing (num : Nat) (hden : 0 < den) (h : nearest num den < infinity) :
    ∃ k, Spacing (num / den) (units (nearest num den) / grain) k := by
  have hg := cast_grain_pos
  have hd : (0 : ℚ) < den := Nat.cast_pos.mpr hden
  have hk := mul_place_le (num * grain) hden
  have hu := lt_mul_place (num * grain) hden
  rw [units_nearest hden h]
  generalize place (num * grain) den = k at *
  have hdk : 0 < den * 2 ^ k := Nat.mul_pos hden (Nat.two_pow_pos k)
  have hn := abs_sub_divRound_le (num * grain) hdk
  have hm (m : Nat) := @divRound_eq_of_abs_sub_lt (num * grain) (den * 2 ^ k) m
  generalize divRound (num * grain) (den * 2 ^ k) = r at *
  -- Everything is compared after multiplication by both denominators.
  have hp : (0 : ℚ) < den * grain := mul_pos hd hg
  have hq : (num / den : ℚ) * (den * grain) = (num * grain : Nat) := by
    push_cast
    field_simp
  have hs : (2 ^ k / grain : ℚ) * (den * grain) = (den * 2 ^ k : Nat) := by
    push_cast
    field_simp
  have ha (m : Nat) : |(m : ℚ) * (2 ^ k / grain) - num / den| * (den * grain) =
      (|((num * grain : Nat) : Int) - m * (den * 2 ^ k : Nat)| : Int) := by
    rw [← abs_of_pos hp, ← abs_mul, sub_mul, mul_assoc, hs, hq, abs_sub_comm]
    push_cast
    rfl
  have hv : ((r * 2 ^ k : Nat) : ℚ) / grain = r * (2 ^ k / grain) := by
    push_cast
    ring
  rw [hv]
  have hc (i : Nat) : (2 : ℚ) ^ i * (2 ^ k / grain) * (den * grain) =
      (den * 2 ^ (k + i) : Nat) := by
    rw [mul_assoc, hs]
    push_cast
    ring
  refine ⟨k, div_nonneg num.cast_nonneg den.cast_nonneg, ?_, ?_, ?_, ?_⟩
  · rw [← mul_lt_mul_iff_left₀ hp, hq, hc]
    exact Nat.cast_lt.mpr hu
  · intro hk0
    rw [← mul_le_mul_iff_left₀ hp, hq, hc]
    exact Nat.cast_le.mpr (hk hk0)
  · rw [← mul_le_mul_iff_left₀ hp, mul_assoc, ha, hs]
    exact_mod_cast hn
  · intro m h
    rw [← mul_lt_mul_iff_left₀ hp, mul_assoc, ha, hs] at h
    rw [hm m (by exact_mod_cast h)]

namespace Spacing

variable {v : ℚ} {k : Nat}

theorem exists_mul (h : Spacing q v k) (hp : p ≤ 1074) (hq : q < 2 ^ 53 * (1 / 2 ^ p)) :
    ∃ j : Nat, (1 : ℚ) / 2 ^ p = 2 ^ j * (2 ^ k / grain) := by
  obtain ⟨c, hc, hg⟩ := exists_grain_eq
  have hgq : (grain : ℚ) = 2 ^ c := by
    rw [hg]
    push_cast
    rfl
  have hk : k + p ≤ c := by
    by_cases hk0 : k = 0
    · omega
    have hl := (h.lower hk0).trans_lt hq
    rw [hgq] at hl
    have hlt : (2 : ℚ) ^ (k + p) < 2 ^ (c + 1) := by
      have hc2 : (0 : ℚ) < 2 ^ c := by positivity
      have hp2 : (0 : ℚ) < 2 ^ p := by positivity
      rw [mul_div_assoc', mul_one_div, div_lt_div_iff₀ hc2 hp2] at hl
      rw [pow_add, pow_succ]
      linarith
    have := (pow_lt_pow_iff_right₀ (by norm_num : (1 : ℚ) < 2)).mp hlt
    omega
  obtain ⟨j, rfl⟩ := Nat.exists_eq_add_of_le hk
  refine ⟨j, ?_⟩
  rw [hgq, pow_add, pow_add]
  field_simp

theorem error (h : Spacing q v k) (hp : p ≤ 1074) (hq : q < 2 ^ 53 * (1 / 2 ^ p)) :
    2 * |v - q| ≤ 1 / 2 ^ p := by
  obtain ⟨j, hj⟩ := h.exists_mul hp hq
  have hs : (0 : ℚ) ≤ 2 ^ k / grain := by positivity
  have hj1 : (1 : ℚ) ≤ 2 ^ j := one_le_pow₀ (by norm_num)
  rw [hj]
  exact h.near.trans (le_mul_of_one_le_left hs hj1)

theorem eq_of_near (h : Spacing q v k) (hp : p ≤ 1074) (hq : q < 2 ^ 53 * (1 / 2 ^ p)) (m : Nat)
    (hm : 2 * |m * (1 / 2 ^ p) - q| < 2 ^ k / grain) : v = m * (1 / 2 ^ p) := by
  obtain ⟨j, hj⟩ := h.exists_mul hp hq
  have hc : (m : ℚ) * (1 / 2 ^ p) = (m * 2 ^ j : Nat) * (2 ^ k / grain) := by
    rw [hj]
    push_cast
    ring
  rw [hc] at hm ⊢
  exact h.unique _ hm

theorem eq_self (h : Spacing q v k) (hp : p ≤ 1074) (hm : m < 2 ^ 53) (hq : q = m * (1 / 2 ^ p)) :
    v = q := by
  have hp2 : (0 : ℚ) < 1 / 2 ^ p := by positivity
  have hlt : q < 2 ^ 53 * (1 / 2 ^ p) := by
    rw [hq]
    exact mul_lt_mul_of_pos_right (by exact_mod_cast hm) hp2
  rw [hq]
  apply h.eq_of_near hp hlt
  rw [hq, sub_self, abs_zero, mul_zero]
  have hg := cast_grain_pos
  positivity

theorem eq_natCast (h : Spacing q v k) (hm : m < 2 ^ 52) (hq : |m - q| ≤ m / 2 ^ 55) : v = m := by
  have hmq : (m : ℚ) < 2 ^ 52 := by exact_mod_cast hm
  obtain ⟨hl, hu⟩ := abs_le.mp hq
  have hup := h.upper
  have hpos : (0 : ℚ) < 2 ^ k / grain := by
    have hg := cast_grain_pos
    positivity
  have hn := h.eq_of_near (p := 0) (by omega) (by norm_num; linarith) m (by norm_num; linarith)
  simpa using hn

end Spacing

theorem nearest_lt_infinity (hden : 0 < den) (h : num < den * 2 ^ 64) :
    nearest num den < infinity := by
  obtain ⟨c, hc, hg⟩ := exists_grain_eq
  have hk : place (num * grain) den ≠ 0 → place (num * grain) den + 52 < 64 + c := by
    intro hk
    have hl := mul_place_le (num * grain) hden hk
    have hlt : den * 2 ^ (place (num * grain) den + 52) < den * 2 ^ (64 + c) := by
      rw [pow_add 2 64, ← Nat.mul_assoc, ← hg]
      exact hl.trans_lt (Nat.mul_lt_mul_of_pos_right h grain_pos)
    exact (Nat.pow_lt_pow_iff_right (by decide)).mp (Nat.lt_of_mul_lt_mul_left hlt)
  obtain ⟨hle, -⟩ := divRound_place (num * grain) hden
  rw [nearest_eq, infinity]
  omega

theorem exists_spacing_of_rounds (h : Rounds x q) (hq : |q| < 2 ^ 64) :
    isFinite x = true ∧ ∃ (s a v : ℚ) (k : Nat), |s| = 1 ∧ q = s * a ∧ value x = s * v ∧
      Spacing a v k := by
  obtain ⟨n, den, hden, rfl, hn⟩ := h
  obtain ⟨hm, s, hs, hv⟩ := multiple_of_isNearest hn
  have hd : (0 : ℚ) < den := Nat.cast_pos.mpr hden
  have hfin : nearest n.natAbs den < infinity := by
    apply nearest_lt_infinity hden
    rw [abs_div, abs_of_pos hd, div_lt_iff₀ hd, mul_comm, ← Int.cast_abs, Int.abs_eq_natAbs] at hq
    exact_mod_cast hq
  refine ⟨?_, ?_⟩
  · rw [isFinite, hm]
    exact decide_eq_true hfin
  obtain ⟨k, hk⟩ := exists_spacing n.natAbs hden hfin
  have hc (i : Nat) : ((s.apply i : Int) : ℚ) = (s.apply 1 : Int) * i := by
    cases s <;> simp [Sign.apply]
  refine ⟨(s.apply 1 : Int), _, _, k, ?_, ?_, ?_, hk⟩
  · cases s <;> simp [Sign.apply]
  · rw [mul_div_assoc', ← hc, ← hs]
  · rw [value, hv, hc, mul_div_assoc]

/-- Rounding is off by half of the spacing at the most. -/
theorem value_bounds (h : Rounds x q) (hp : p ≤ 1074) (hl : -(2 ^ 53 / 2 ^ p) < q)
    (hu : q < 2 ^ 53 / 2 ^ p) :
    isFinite x = true ∧ q - 1 / 2 ^ (p + 1) ≤ value x ∧ value x ≤ q + 1 / 2 ^ (p + 1) := by
  have hq : |q| < 2 ^ 53 * (1 / 2 ^ p) := by
    rw [mul_one_div]
    exact abs_lt.mpr ⟨hl, hu⟩
  have hlt : |q| < 2 ^ 64 := by
    have hp1 := one_div_two_pow_le_one p
    linarith
  obtain ⟨hf, s, a, v, k, hs, rfl, hv, hk⟩ := exists_spacing_of_rounds h hlt
  refine ⟨hf, ?_⟩
  rw [abs_mul, hs, one_mul, abs_of_nonneg hk.nonneg] at hq
  have he : |value x - s * a| ≤ 1 / 2 ^ (p + 1) := by
    have hk := hk.error hp hq
    rw [hv, ← mul_sub, abs_mul, hs, one_mul, pow_succ, ← div_div]
    linarith
  obtain ⟨hel, heu⟩ := abs_le.mp he
  constructor <;> linarith

theorem value_eq_self (h : Rounds x q) (hp : p ≤ 1074) (hm : m < 2 ^ 53)
    (hq : |q| = m * (1 / 2 ^ p)) : isFinite x = true ∧ value x = q := by
  have hlt : |q| < 2 ^ 64 := by
    have hp1 := one_div_two_pow_le_one p
    have hm' : (m : ℚ) < 2 ^ 53 := by exact_mod_cast hm
    have hle : |q| ≤ m := hq ▸ mul_le_of_le_one_right m.cast_nonneg hp1
    linarith
  obtain ⟨hf, s, a, v, k, hs, rfl, hv, hk⟩ := exists_spacing_of_rounds h hlt
  refine ⟨hf, ?_⟩
  rw [abs_mul, hs, one_mul, abs_of_nonneg hk.nonneg] at hq
  rw [hv, hk.eq_self hp hm hq]

/-- What is close enough to a natural number is rounded to it. -/
theorem value_eq_natCast (h : Rounds x q) (hm : m < 2 ^ 52) (hq : |m - q| ≤ m / 2 ^ 55) :
    isFinite x = true ∧ value x = m := by
  have hm' : (m : ℚ) < 2 ^ 52 := by exact_mod_cast hm
  have hm0 : (0 : ℚ) ≤ m := m.cast_nonneg
  obtain ⟨hl, hu⟩ := abs_le.mp hq
  have hlt : |q| < 2 ^ 64 := by
    rw [abs_lt]
    constructor <;> linarith
  obtain ⟨hf, s, a, v, k, hs, rfl, hv, hk⟩ := exists_spacing_of_rounds h hlt
  refine ⟨hf, ?_⟩
  have ha := hk.nonneg
  obtain rfl | rfl : s = 1 ∨ s = -1 := by
    rwa [abs_eq (by norm_num)] at hs
  · rw [one_mul] at hq hv
    rw [hv, hk.eq_natCast hm hq]
  · have hz : (m : ℚ) = 0 := by linarith
    have hz' : a = 0 := by linarith
    have hv0 := hk.eq_natCast hm (by rw [hz, hz']; norm_num)
    rw [hv, hv0, hz, mul_zero]

end Abacus.Binary64
