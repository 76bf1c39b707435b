import Abacus.Proofs.Binary64.Logarithm

namespace Abacus.Binary64

open Rounding Parts Operations Fused

variable {x y z : Float} {q a b c d : ℚ} {n : Nat}

/-- A finite number that is at most `b` in absolute value. -/
structure Bounded (x : Float) (b : ℚ) : Prop where
  isFinite : isFinite x = true
  abs_value_le : |value x| ≤ b

theorem rounds_neg (h : isFinite x = true) : Rounds (-x) (-value x) := by
  refine ⟨_, _, grain_pos, ?_, isNearest_pack (holds_neg (holds_toBits h))⟩
  rw [value, ← neg_div]
  push_cast
  rfl

theorem bounded_of_rounds (h : Rounds x q) (hc : |q| + 1 ≤ c ∧ c ≤ 2 ^ 53) : Bounded x c := by
  obtain ⟨hq, hc⟩ := hc
  obtain ⟨hl, hu⟩ := abs_le.mp (le_refl |q|)
  -- No two numbers that are so small are more than one apart, and rounding goes to the nearer one.
  obtain ⟨hf, hv⟩ := value_bounds h (p := 0) (by omega) (by linarith) (by linarith)
  norm_num at hv
  refine ⟨hf, abs_le.mpr ?_⟩
  constructor <;> linarith

theorem bounded_of_multiple (h : isFinite x = true ∧ (multiple x).natAbs ≤ n * grain) :
    Bounded x n := by
  refine ⟨h.1, ?_⟩
  rw [value, abs_div, abs_of_pos cast_grain_pos, div_le_iff₀ cast_grain_pos, ← Int.cast_abs,
    Int.abs_eq_natAbs]
  exact_mod_cast h.2

namespace Bounded

theorem neg (hx : Bounded x a) (h : a + 1 ≤ c ∧ c ≤ 2 ^ 53) : Bounded (-x) c := by
  apply bounded_of_rounds (rounds_neg hx.isFinite)
  refine ⟨?_, h.2⟩
  rw [abs_neg]
  linarith [hx.abs_value_le, h.1]

theorem add (hx : Bounded x a) (hy : Bounded y b) (h : a + b + 1 ≤ c ∧ c ≤ 2 ^ 53) :
    Bounded (x + y) c := by
  apply bounded_of_rounds (rounds_add hx.isFinite hy.isFinite)
  refine ⟨?_, h.2⟩
  linarith [abs_add_le (value x) (value y), hx.abs_value_le, hy.abs_value_le, h.1]

theorem sub (hx : Bounded x a) (hy : Bounded y b) (h : a + b + 1 ≤ c ∧ c ≤ 2 ^ 53) :
    Bounded (x - y) c := by
  apply bounded_of_rounds (rounds_sub hx.isFinite hy.isFinite)
  refine ⟨?_, h.2⟩
  linarith [abs_sub (value x) (value y), hx.abs_value_le, hy.abs_value_le, h.1]

theorem abs_mul_le (hx : Bounded x a) (hy : Bounded y b) : |value x * value y| ≤ a * b := by
  rw [abs_mul]
  exact mul_le_mul hx.abs_value_le hy.abs_value_le (abs_nonneg _)
    ((abs_nonneg _).trans hx.abs_value_le)

theorem mul (hx : Bounded x a) (hy : Bounded y b) (h : a * b + 1 ≤ c ∧ c ≤ 2 ^ 53) :
    Bounded (x * y) c := by
  apply bounded_of_rounds (rounds_mul hx.isFinite hy.isFinite)
  refine ⟨?_, h.2⟩
  linarith [abs_mul_le hx hy, h.1]

theorem mulAdd (hx : Bounded x a) (hy : Bounded y b) (hz : Bounded z c)
    (h : a * b + c + 1 ≤ d ∧ d ≤ 2 ^ 53) : Bounded (Fused.mulAdd x y z) d := by
  apply bounded_of_rounds (rounds_mulAdd x y z)
  refine ⟨?_, h.2⟩
  linarith [abs_add_le (value x * value y) (value z), abs_mul_le hx hy, hz.abs_value_le, h.1]

end Bounded

namespace Logarithm

variable {r : Float} {k : Int} {p : Anchor} {bits : Nat}

theorem bounded_ofBits {w : UInt64}
    (h : isFinite (.ofBits w) = true ∧ (multiple (.ofBits w)).natAbs ≤ 2 * grain) :
    Bounded (.ofBits w) 2 := by
  have h := bounded_of_multiple h
  exact_mod_cast h

theorem bounded_one : Bounded one 2 := by
  have h := bounded_of_multiple (x := one) (n := 2) (by decide +kernel)
  exact_mod_cast h

theorem bounded_linear (hr : Bounded r 8) :
    Bounded (linear r).1 17 ∧ Bounded (linear r).2 52 := by
  have hl : Bounded leading 2 := bounded_ofBits (by decide +kernel)
  have ht : Bounded trailing 2 := bounded_ofBits (by decide +kernel)
  have hh : Bounded (r * leading) 17 := hr.mul hl (by norm_num)
  have hn : Bounded (-(r * leading)) 18 := hh.neg (by norm_num)
  have hm : Bounded (mulAdd r leading (-(r * leading))) 35 := hr.mulAdd hl hn (by norm_num)
  exact ⟨hh, hr.mulAdd ht hm (by norm_num)⟩

theorem bounded_cubic {w₀ w₁ w₂ w₃ : UInt64} (h₀ : Bounded (.ofBits w₀) 2)
    (h₁ : Bounded (.ofBits w₁) 2) (h₂ : Bounded (.ofBits w₂) 2) (h₃ : Bounded (.ofBits w₃) 2)
    (hr : Bounded r 8) : Bounded (cubic w₀ w₁ w₂ w₃ r) 1300 := by
  have hs : Bounded (r * r) 65 := hr.mul hr (by norm_num)
  have hu : Bounded (mulAdd r (.ofBits w₃) (.ofBits w₂)) 19 := hr.mulAdd h₃ h₂ (by norm_num)
  have hl : Bounded (mulAdd r (.ofBits w₁) (.ofBits w₀)) 19 := hr.mulAdd h₁ h₀ (by norm_num)
  exact hs.mulAdd hu hl (by norm_num)

theorem bounded_correction (hr : Bounded r 8) : Bounded (correction r) (10 ^ 5) := by
  have hs : Bounded (r * r) 65 := hr.mul hr (by norm_num)
  have hq : Bounded (r * r * (r * r)) 4226 := hs.mul hs (by norm_num)
  have hu : Bounded (mulAdd r (.ofBits 0x3fca6225e117f92e) (.ofBits 0xbfcec7b328ea92bc)) 19 :=
    hr.mulAdd (bounded_ofBits (by decide +kernel)) (bounded_ofBits (by decide +kernel))
      (by norm_num)
  have hc : Bounded (cubic 0xbfe71547652b8339 0x3fdec709dc3a04be 0xbfd7154764702ffb
      0x3fd2776c50034c48 r) 1300 := by
    apply bounded_cubic _ _ _ _ hr <;> exact bounded_ofBits (by decide +kernel)
  exact hq.mulAdd hu hc (by norm_num)

theorem bounded_anchor (h : p ∈ anchors) :
    Bounded (.ofBits p.reciprocal) 2 ∧ Bounded (.ofBits p.logarithm) 2 := by
  have ha : ∀ p ∈ anchors.toList,
      (isFinite (.ofBits p.reciprocal) = true ∧
        (multiple (.ofBits p.reciprocal)).natAbs ≤ 2 * grain) ∧
      isFinite (.ofBits p.logarithm) = true ∧
        (multiple (.ofBits p.logarithm)).natAbs ≤ 2 * grain := by
    decide +kernel
  obtain ⟨hr, hl⟩ := ha p h.val
  exact ⟨bounded_ofBits hr, bounded_ofBits hl⟩

theorem bounded_reduced (hk : |k| ≤ 1100) (hp : p ∈ anchors) (hz : Bounded z 2) :
    Bounded (reduced k p z) (10 ^ 11) := by
  obtain ⟨hrec, hlog⟩ := bounded_anchor hp
  have hi : Bounded (ofParts (k < 0) (nearest k.natAbs 1)) 1101 := by
    apply bounded_of_rounds (q := k) ⟨k, 1, Nat.one_pos, by simp, isNearest_ofParts k 1⟩
    have hk : |(k : ℚ)| ≤ 1100 := by exact_mod_cast hk
    constructor <;> linarith
  have hb := hi.add (c := 1104) hlog (by norm_num)
  have hr := hz.mulAdd (d := 8) hrec (bounded_one.neg (c := 3) (by norm_num)) (by norm_num)
  obtain ⟨hh, ht⟩ := bounded_linear hr
  have hs := hb.add (c := 1122) hh (by norm_num)
  have hl := ((hb.sub (c := 2227) hs (by norm_num)).add (c := 2245) hh (by norm_num)).add
    (c := 2298) ht (by norm_num)
  have hq := hr.mul (c := 65) hr (by norm_num)
  exact (hq.mulAdd (d := 10 ^ 7) (bounded_correction hr) hl (by norm_num)).add hs (by norm_num)

theorem bounded_nearOne (hx : Bounded x 2) : Bounded (nearOne x) (10 ^ 11) := by
  have hr : Bounded (x - one) 8 := hx.sub bounded_one (by norm_num)
  obtain ⟨hh, ht⟩ := bounded_linear hr
  have hq : Bounded ((x - one) * (x - one)) 65 := hr.mul hr (by norm_num)
  have hqq := hq.mul (c := 4226) hq (by norm_num)
  have h2 : Bounded (mulAdd (x - one) (.ofBits 0x3fdec709dc3a03f7) (.ofBits 0xbfe71547652b82fe))
      19 :=
    hr.mulAdd (bounded_ofBits (by decide +kernel)) (bounded_ofBits (by decide +kernel))
      (by norm_num)
  have hs := h2.mulAdd (d := 1253) hq hh (by norm_num)
  have hl := (h2.mulAdd (d := 2507) hq (hh.sub (c := 1271) hs (by norm_num)) (by norm_num)).add
    (c := 2560) ht (by norm_num)
  have hc : Bounded (cubic 0xbfc7153fbc64a79b 0x3fc484d154f01b4a 0xbfc289e4a72c383c
      0x3fc0b32f285aee66 (x - one)) 1300 := by
    apply bounded_cubic _ _ _ _ hr <;> exact bounded_ofBits (by decide +kernel)
  have hd : Bounded (cubic 0xbfd71547652b7c3f 0x3fd2776c50f05be4 0xbfcec709dd768fe5
      0x3fca61761ec4e736 (x - one)) 1300 := by
    apply bounded_cubic _ _ _ _ hr <;> exact bounded_ofBits (by decide +kernel)
  have ho := hqq.mulAdd (d := 10 ^ 7) hc hd (by norm_num)
  exact hs.add (ho.mulAdd (d := 5 * 10 ^ 10) hqq hl (by norm_num)) (by norm_num)

theorem bounded_ofParts (hl : 1022 * 2 ^ 52 ≤ bits) (hu : bits < 1024 * 2 ^ 52) :
    Bounded (ofParts false bits) 2 := by
  obtain ⟨hf, hv⟩ := value_ofParts false bits (1075 - bits / 2 ^ 52) (by omega) (by omega) (by omega)
  refine ⟨hf, ?_⟩
  have hm : ((2 ^ 52 + bits % 2 ^ 52 : Nat) : ℚ) ≤ 2 ^ 53 := by
    exact_mod_cast (by omega : 2 ^ 52 + bits % 2 ^ 52 ≤ 2 ^ 53)
  have hp : (2 : ℚ) ^ 52 ≤ 2 ^ (1075 - bits / 2 ^ 52) :=
    pow_le_pow_right₀ (by norm_num) (by omega)
  rw [hv, if_neg (by decide), one_mul, mul_one_div, abs_of_nonneg (by positivity),
    div_le_iff₀ (by positivity)]
  calc ((2 ^ 52 + bits % 2 ^ 52 : Nat) : ℚ) ≤ 2 * 2 ^ 52 := by linarith
    _ ≤ 2 * 2 ^ (1075 - bits / 2 ^ 52) := by linarith

theorem bounded_ofFloat (h : bits < infinity) : Bounded (ofFloat (ofParts false bits)) (10 ^ 11) := by
  have hm : magnitude (ofParts false bits) = bits := by
    rw [magnitude_ofParts, Nat.min_eq_left h.le]
  have h0 : Bounded 0 (10 ^ 11) := by
    have h := bounded_of_multiple (x := 0) (n := 10 ^ 11) (by decide +kernel)
    exact_mod_cast h
  rw [infinity] at h
  unfold ofFloat
  simp only [hm]
  split
  · exact h0
  split
  · exact bounded_nearOne (bounded_ofParts (by omega) (by omega))
  split
  · next hp =>
    apply bounded_reduced _ (Array.mem_of_getElem? hp)
    · apply bounded_ofParts <;> rw [origin] <;> omega
    · rw [origin, abs_le]
      omega
  · exact h0

theorem head_le (n : Nat) : (head n).1 ≤ 2 ^ 53 := by
  obtain ⟨-, hu⟩ := divRound_bounds n (1 <<< (n.log2 - 52))
  have hlt : n / 1 <<< (n.log2 - 52) < 2 ^ 53 := by
    rw [Nat.shiftLeft_eq, Nat.one_mul, Nat.div_lt_iff_lt_mul (Nat.two_pow_pos _), ← pow_add]
    exact Nat.lt_log2_self.trans_le (Nat.pow_le_pow_right (by decide) (by omega))
  exact hu.trans hlt

/-- An integer has a finite logarithm unless it has more than 2 ^ 51 bits. -/
theorem isFinite_log2 (hn : n.log2 < 2 ^ 51) : isFinite (log2 n) = true := by
  unfold log2
  simp only
  split
  · next h => exact (bounded_ofFloat h).isFinite
  · have hlt : nearest (head n).1 0x20000000000000 < infinity := by
      apply nearest_lt_infinity (by decide)
      have hle := head_le n
      omega
    have hk : (head n).2 + 53 < 2 ^ 52 := by
      rw [head]
      simp only
      omega
    obtain ⟨hf, hv⟩ := value_ofNat hk
    have hb : Bounded (ofNat ((head n).2 + 53)) (2 ^ 52) := by
      refine ⟨hf, ?_⟩
      rw [hv, Nat.abs_cast]
      exact_mod_cast hk.le
    exact ((bounded_ofFloat hlt).add hb (c := 2 ^ 53) (by norm_num)).isFinite

end Logarithm

end Abacus.Binary64
