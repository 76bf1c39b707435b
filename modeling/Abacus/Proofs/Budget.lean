import Abacus.Proofs.Binary64.Logarithm
import Abacus.Proofs.IntegerOperations

namespace Abacus.Arithmetic

open Grammar Outcome Binary64

/-- A power under a budget that is exact: it is computed if it has no more bits than the limit. -/
def budgetedPower (limit : Nat) (b e : Int) : Except Error Int :=
  if bitLength (b ^ e.toNat) ≤ limit then .ok (b ^ e.toNat) else .error (.overBudget b e limit)

variable {limit : Nat} {b e n size : Int} {err : Error}

theorem bitLength_le_iff : bitLength n ≤ limit ↔ n.natAbs < 2 ^ limit := by
  unfold bitLength
  by_cases h : n = 0
  · simp [h]
  · rw [if_neg h, Nat.succ_le_iff]
    exact Nat.log2_lt (Int.natAbs_ne_zero.mpr h)

theorem bitLength_pow_le_iff :
    bitLength (b ^ e.toNat) ≤ limit ↔ b.natAbs ^ e.toNat < 2 ^ limit := by
  rw [bitLength_le_iff, Int.natAbs_pow]

theorem lt_bitLength_pow (hb : 1 < b.natAbs) (he : 0 ≤ e) (hl : limit ≤ e) :
    limit < bitLength (b ^ e.toNat) := by
  have hle : limit ≤ e.toNat := by omega
  refine Nat.lt_of_not_le fun h => ?_
  have hlt : b.natAbs ^ e.toNat < 2 ^ limit := bitLength_pow_le_iff.mp h
  have hge : 2 ^ limit ≤ b.natAbs ^ e.toNat :=
    (Nat.pow_le_pow_right (by decide) hle).trans (Nat.pow_le_pow_left hb _)
  omega

theorem integerPower_of_limit_le (hb : 1 < b.natAbs) (he : 0 ≤ e) (hl : limit ≤ e) :
    integerPower (fixed limit) b e = budgetedPower limit b e := by
  rw [integerPower_of_exponent hb he hl, budgetedPower,
    if_neg (Nat.not_le.mpr (lt_bitLength_pow hb he hl))]

theorem sizeEstimate_eq_ok_iff : sizeEstimate b e = .ok size ↔
    ∃ x, Parts.ofInt? e = some x ∧ Parts.isFinite (x * Logarithm.log2 b.natAbs) = true ∧
      size = Parts.truncate (x * Logarithm.log2 b.natAbs) + 1 := by
  cases hx : Parts.ofInt? e with
  | none =>
    rw [sizeEstimate_of_none hx]
    simp
  | some x =>
    rw [sizeEstimate_of_some hx]
    simp only [Option.some.injEq, exists_eq_left']
    generalize Logarithm.log2 b.natAbs = l
    by_cases h : Parts.isFinite (x * l) = true
    · rw [estimate_of_isFinite (isFinite_of_ofInt? hx) (Operations.isFinite_of_isFinite_mul h),
        if_pos h, and_iff_right h]
      simp [eq_comm]
    · have hl : Escapes (estimate x l) := escapes_estimate.mpr (Bool.eq_false_of_not_eq_true h)
      obtain ⟨err, hy, -⟩ := hl
      simp [hy, h]

theorem integerPower_eq_budgetedPower (hb : 1 < b.natAbs) (he : 0 ≤ e) (hl : e < limit) :
    integerPower (fixed limit) b e = budgetedPower limit b e ↔
      ∃ size, sizeEstimate b e = .ok size ∧ (size ≤ limit ↔ bitLength (b ^ e.toNat) ≤ limit) := by
  cases hs : sizeEstimate b e with
  | error err =>
    obtain ⟨c, rfl, -⟩ := exists_overruns_of_sizeEstimate hb he hl hs
    rw [integerPower_of_not_sizeEstimate hb he hl hs, budgetedPower]
    by_cases hbits : bitLength (b ^ e.toNat) ≤ limit <;> simp [hbits]
  | ok size =>
    rw [integerPower_of_sizeEstimate hb he hl hs, budgetedPower]
    by_cases hsize : size ≤ limit
    · by_cases hbits : bitLength (b ^ e.toNat) ≤ limit <;> simp [hsize, hbits]
    · by_cases hbits : bitLength (b ^ e.toNat) ≤ limit <;> simp [Int.not_le.mp hsize, hbits]

/-- The power of a base that grows is computed just where its bits are within the limit, if and only
if the exponent times the logarithm of the base, as it is rounded, is on the right side of the limit.
No such product is needed where the exponent reaches the limit. -/
theorem integerPower_eq_budgetedPower_iff (hb : 1 < b.natAbs) (he : 0 ≤ e) :
    integerPower (fixed limit) b e = budgetedPower limit b e ↔
      (e < limit → ∃ x, Parts.ofInt? e = some x ∧
        Parts.isFinite (x * Logarithm.log2 b.natAbs) = true ∧
        (Parts.truncate (x * Logarithm.log2 b.natAbs) < limit ↔
          b.natAbs ^ e.toNat < 2 ^ limit)) := by
  by_cases hl : limit ≤ e
  · exact iff_of_true (integerPower_of_limit_le hb he hl) fun h => absurd hl (Int.not_le.mpr h)
  have hl : e < limit := Int.not_le.mp hl
  rw [forall_prop_of_true hl, integerPower_eq_budgetedPower hb he hl]
  simp only [sizeEstimate_eq_ok_iff, bitLength_pow_le_iff]
  constructor
  · rintro ⟨_, ⟨x, hx, hf, rfl⟩, hs⟩
    exact ⟨x, hx, hf, hs⟩
  · rintro ⟨x, hx, hf, hs⟩
    exact ⟨_, ⟨x, hx, hf, rfl⟩, hs⟩

theorem integerPower_eq_budgetedPower_cube :
    integerPower (fixed 5) 3 3 = budgetedPower 5 3 3 := by
  refine (integerPower_eq_budgetedPower_iff (by decide) (by decide)).mpr fun _ => ?_
  exact ⟨Parts.ofParts false (Rounding.nearest 3 1), by decide +kernel, by decide +kernel,
    by decide +kernel⟩

/-- An integer one below a power of two has the logarithm of that power, as it is rounded, and so is
turned down with 60 bits at a limit of 60. Another power is computed with one bit too many. -/
theorem integerPower_of_sixty_bits :
    integerPower (fixed 60) (2 ^ 60 - 1) 1 = .error (.overBudget (2 ^ 60 - 1) 1 60) ∧
      bitLength ((2 ^ 60 - 1) ^ 1) = 60 ∧
      integerPower (fixed 923) 17020999051677 21 = .ok (17020999051677 ^ 21) ∧
      bitLength (17020999051677 ^ 21) = 924 := by
  decide +kernel

section

variable {m k : Nat}

theorem ofInt?_natCast (h : m < 2 ^ 52) : Parts.ofInt? m = some (ofNat m) := by
  have hf : Parts.magnitude (ofNat m) < Rounding.infinity := of_decide_eq_true (value_ofNat h).1
  rw [ofNat, Parts.magnitude_ofParts] at hf
  have hlt : Rounding.nearest m 1 < Rounding.infinity := by omega
  unfold Parts.ofInt?
  simp only [Int.natAbs_natCast]
  rw [if_pos hlt, decide_eq_false (Int.not_lt.mpr m.cast_nonneg), ofNat]

theorem sizeEstimate_of_log2 (hl : Logarithm.log2 b.natAbs = ofNat k) (hk : k < 2 ^ 52)
    (hm : m < 2 ^ 52) (h : m * k < 2 ^ 52) : sizeEstimate b m = .ok (m * k + 1) := by
  obtain ⟨hf, hv⟩ := value_ofNat_mul hm hk h
  rw [sizeEstimate_eq_ok_iff]
  refine ⟨ofNat m, ofInt?_natCast hm, ?_, ?_⟩
  · rw [hl, hf]
  · rw [hl, truncate_eq hv]
    push_cast
    rfl

/-- The budget of a power of two is exact at every limit. -/
theorem integerPower_two_pow (hb : b.natAbs = 2 ^ k) (hk : 1 ≤ k) (hlt : k < 2 ^ 51)
    (h : m * k < 2 ^ 52) : integerPower (fixed limit) b m = budgetedPower limit b m := by
  have hb1 : 1 < b.natAbs := hb ▸ Nat.one_lt_two_pow (by omega)
  have hm0 : (0 : Int) ≤ m := Int.natCast_nonneg m
  by_cases hl : (limit : Int) ≤ m
  · exact integerPower_of_limit_le hb1 hm0 hl
  have hm : m < 2 ^ 52 := (Nat.le_mul_of_pos_right m hk).trans_lt h
  have hlog : Logarithm.log2 b.natAbs = ofNat k := hb ▸ Logarithm.log2_two_pow hk hlt
  rw [integerPower_eq_budgetedPower hb1 hm0 (Int.not_le.mp hl)]
  refine ⟨_, sizeEstimate_of_log2 hlog (by omega) hm h, ?_⟩
  rw [bitLength_pow_le_iff, hb, Int.toNat_natCast, ← pow_mul, Nat.mul_comm k,
    Nat.pow_lt_pow_iff_right (by decide)]
  omega

/-- The powers of one below a power of two are turned down at a limit that they do not pass, if the
base has more than 53 bits. -/
theorem integerPower_pred_two_pow (hb : b.natAbs = 2 ^ k - 1) (hk : 54 ≤ k) (hlt : k < 2 ^ 51)
    (hm : 1 ≤ m) (h : m * k < 2 ^ 52) :
    integerPower (fixed (m * k)) b m = .error (.overBudget b m (m * k)) ∧
      bitLength (b ^ m) ≤ m * k := by
  have hp : 2 < 2 ^ k := (by decide : 2 < 2 ^ 54).trans_le (Nat.pow_le_pow_right (by decide) hk)
  have hlog : Logarithm.log2 b.natAbs = ofNat k := hb ▸ Logarithm.log2_pred hk hlt
  have hm' : m < 2 ^ 52 := (Nat.le_mul_of_pos_right m (by omega)).trans_lt h
  have hmk : m < m * k := by
    rw [Nat.lt_mul_iff_one_lt_right hm]
    omega
  have hs := sizeEstimate_of_log2 hlog (by omega) hm' h
  constructor
  · rw [integerPower_of_sizeEstimate (by omega) (Int.natCast_nonneg m) (by omega) hs]
    exact if_neg (by push_cast; omega)
  · rw [bitLength_le_iff, Int.natAbs_pow, hb, Nat.mul_comm, pow_mul]
    exact Nat.pow_lt_pow_left (by omega) (by omega)

end

end Abacus.Arithmetic
