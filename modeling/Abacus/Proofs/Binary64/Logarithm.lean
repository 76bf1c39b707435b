import Abacus.Binary64.Logarithm
import Abacus.Proofs.Binary64.Value

namespace Abacus.Binary64

open Rounding Parts Operations Fused
open Float.Model.UnpackedFloat (Sign)

variable {x y : Float} {n k : Nat}

def ofNat (n : Nat) : Float := ofParts false (nearest n 1)

theorem rounds_ofNat (n : Nat) : Rounds (ofNat n) n := by
  refine ⟨n, 1, Nat.one_pos, by simp, ?_⟩
  have h := isNearest_ofParts n 1
  rwa [decide_eq_false (Int.not_lt.mpr n.cast_nonneg), Int.natAbs_natCast] at h

theorem value_ofNat (h : n < 2 ^ 52) : isFinite (ofNat n) = true ∧ value (ofNat n) = n := by
  apply value_eq_natCast (rounds_ofNat n) h
  rw [sub_self, abs_zero]
  positivity

theorem eq_ofNat (hx : isFinite x = true) (hn : n ≠ 0) (h : value x = n) : x = ofNat n := by
  have hm : multiple x = (n * grain : Nat) := by
    rw [value, div_eq_iff grain_ne_zero] at h
    exact_mod_cast h
  have hpos : 0 < n * grain := Nat.mul_pos (Nat.pos_of_ne_zero hn) grain_pos
  have hfin : magnitude x < infinity := of_decide_eq_true hx
  have hneg : isNegative x = false := by
    by_contra hneg
    rw [Bool.not_eq_false] at hneg
    rw [multiple, if_pos hneg] at hm
    omega
  have hu : units (magnitude x) = n * grain := by
    rw [multiple, if_neg (by simp [hneg])] at hm
    exact_mod_cast hm
  have hmag : magnitude x = nearest n 1 := by
    rw [← nearest_units hfin, hu, ← nearest_mul_right n 1 grain grain_pos, Nat.one_mul]
  rw [ofNat, ← hmag, ← hneg, ofParts_magnitude]
  exact decide_eq_false (Nat.lt_asymm hfin)

theorem add_eq_ofNat (hx : isFinite x = true) (hy : isFinite y = true) (hn : n ≠ 0)
    (hlt : n < 2 ^ 52) (h : value x + value y = n) : x + y = ofNat n := by
  obtain ⟨hf, hv⟩ := value_eq_natCast (rounds_add hx hy) hlt (by
    rw [h, sub_self, abs_zero]
    positivity)
  exact eq_ofNat hf hn hv

theorem value_ofNat_mul {m : Nat} (hm : m < 2 ^ 52) (hn : n < 2 ^ 52) (h : m * n < 2 ^ 52) :
    isFinite (ofNat m * ofNat n) = true ∧ value (ofNat m * ofNat n) = (m * n : Nat) := by
  obtain ⟨hfm, hvm⟩ := value_ofNat hm
  obtain ⟨hfn, hvn⟩ := value_ofNat hn
  apply value_eq_natCast (rounds_mul hfm hfn) h
  rw [hvm, hvn, ← Nat.cast_mul, sub_self, abs_zero]
  positivity

theorem truncate_eq (h : value x = n) : Parts.truncate x = n := by
  have hm : multiple x = (n * grain : Nat) := by
    rw [value, div_eq_iff grain_ne_zero] at h
    exact_mod_cast h
  unfold multiple at hm
  unfold Parts.truncate
  simp only
  split
  · next hneg =>
    rw [if_pos hneg] at hm
    have hu : units (magnitude x) = 0 := by omega
    have hn : n * grain = 0 := by omega
    obtain rfl : n = 0 := (Nat.mul_eq_zero.mp hn).resolve_right (Nat.ne_of_gt grain_pos)
    simp [hu]
  · next hneg =>
    rw [if_neg hneg] at hm
    have hu : units (magnitude x) = n * grain := by exact_mod_cast hm
    rw [hu, Nat.mul_div_cancel _ grain_pos]

theorem nearest_two_pow (k : Nat) : nearest (2 ^ k) 1 = min ((k + 1023) * 2 ^ 52) infinity := by
  obtain ⟨c, hc, hg⟩ := exists_grain_eq
  have hp : place (2 ^ k * grain) 1 = k + c - 52 := by
    rw [place, Nat.div_one, hg, ← pow_add, Nat.log2_two_pow]
  have hd : 2 ^ k * grain = 2 ^ 52 * (1 * 2 ^ (k + c - 52)) := by
    have he : k + c = 52 + (k + c - 52) := by omega
    rw [hg, Nat.one_mul, ← pow_add, ← pow_add, ← he]
  rw [nearest_eq, hp, hd, divRound_mul_self _ (by positivity)]
  omega

theorem log2_pred_two_pow (hk : k ≠ 0) : (2 ^ k - 1).log2 = k - 1 := by
  obtain ⟨k, rfl⟩ : ∃ i, k = i + 1 := ⟨k - 1, by omega⟩
  have hp : 2 ^ (k + 1) = 2 * 2 ^ k := pow_succ' 2 k
  have hk : 0 < 2 ^ k := Nat.two_pow_pos k
  rw [Nat.add_sub_cancel]
  exact (Nat.log2_eq_iff (by omega)).mpr ⟨by omega, by omega⟩

/-- Above 53 bits, the one that a power of two is short of is less than a half of the last place, or
just a half that goes up. -/
theorem divRound_pred_two_pow (c : Nat) {k : Nat} (hk : 54 ≤ k) :
    divRound ((2 ^ k - 1) * 2 ^ c) (2 ^ (k + c - 53)) = 2 ^ 53 := by
  obtain ⟨j, rfl⟩ := Nat.exists_eq_add_of_le hk
  have hp : 2 ^ (54 + j + c - 53) = 2 ^ (j + 1) * 2 ^ c := by
    rw [← pow_add]
    congr 1
    omega
  rw [hp, divRound_mul_right _ _ _ (Nat.two_pow_pos c)]
  by_cases hj : j = 0
  · subst hj
    decide
  · have h2 : 2 ^ (54 + j) = 2 ^ 53 * 2 ^ (j + 1) := by
      rw [← pow_add]
      congr 1
      omega
    have h4 : 4 ≤ 2 ^ (j + 1) := Nat.pow_le_pow_right (n := 2) (by decide) (by omega : 2 ≤ j + 1)
    apply divRound_eq_of_abs_sub_lt
    rw [h2]
    generalize 2 ^ (j + 1) = d at *
    have hone : ((2 ^ 53 * d - 1 : Nat) : Int) - (2 ^ 53 : Nat) * d = -1 := by omega
    rw [hone, abs_neg, abs_one]
    omega

theorem nearest_pred_two_pow (hk : 54 ≤ k) :
    nearest (2 ^ k - 1) 1 = min ((k + 1023) * 2 ^ 52) infinity := by
  obtain ⟨c, hc, hg⟩ := exists_grain_eq
  have hp : place ((2 ^ k - 1) * grain) 1 = k + c - 53 := by
    have h1 : 2 ^ k - 1 ≠ 0 := Nat.sub_ne_zero_of_lt (Nat.one_lt_two_pow (by omega))
    rw [place, Nat.div_one, hg, log2_mul_two_pow h1, log2_pred_two_pow (by omega)]
    omega
  rw [nearest_eq, hp, hg, Nat.one_mul, divRound_pred_two_pow c hk]
  omega

theorem isNegative_ofParts (negative : Bool) (bits : Nat) :
    isNegative (ofParts negative bits) = negative := by
  have hi : min bits infinity < 0x8000000000000000 :=
    (Nat.min_le_right _ _).trans_lt (by decide)
  rw [isNegative, toNat_toBits_ofParts]
  cases negative with
  | false => exact decide_eq_false (by rw [if_neg (by decide)]; omega)
  | true => exact decide_eq_true (by rw [if_pos rfl]; omega)

theorem value_ofParts (negative : Bool) (bits p : Nat) (hb : 2 ^ 52 ≤ bits)
    (hp : bits / 2 ^ 52 + p = 1075) (hp1 : 1 ≤ p) :
    isFinite (ofParts negative bits) = true ∧ value (ofParts negative bits) =
      (if negative then -1 else 1) * (2 ^ 52 + bits % 2 ^ 52 : Nat) * (1 / 2 ^ p) := by
  have hlt : bits < infinity := by
    rw [infinity]
    omega
  have hm : magnitude (ofParts negative bits) = bits := by
    rw [magnitude_ofParts, Nat.min_eq_left hlt.le]
  refine ⟨by rw [isFinite, hm]; exact decide_eq_true hlt, ?_⟩
  obtain ⟨c, hc, hg⟩ := exists_grain_eq
  obtain rfl : c = bits / 2 ^ 52 - 1 + p := by omega
  rw [value, multiple, hm, isNegative_ofParts, units_of_le hb, hg]
  generalize 2 ^ 52 + bits % 2 ^ 52 = m
  generalize bits / 2 ^ 52 - 1 = i
  cases negative <;> simp <;> field_simp <;> ring

namespace Logarithm

def unitAnchor : Anchor := ⟨0x3fefc07ef9caa76b, 0x3f86fe53b1500000⟩

def unitRatio : Float := mulAdd one (.ofBits unitAnchor.reciprocal) (-one)

theorem unitAnchor_logarithm :
    Float.ofBits unitAnchor.logarithm = ofParts false 0x3f86fe53b1500000 := by
  decide +kernel

theorem linear_unitRatio : linear unitRatio =
    (ofParts true 0x3f86e77b68af981a, ofParts true 0x3d76d84f71c9d28d) := by
  decide +kernel

theorem square_unitRatio : unitRatio * unitRatio = ofParts false 0x3f0f81842b07064f := by
  decide +kernel

theorem correction_unitRatio : correction unitRatio = ofParts true 0x3fe733ff1bc2a16f := by
  decide +kernel

/-- What is lost when a small number is added to a large one is found again and made up for. -/
theorem add_lost {b h r s t : Float} {l : ℚ} (hfb : isFinite b = true) (hfh : isFinite h = true)
    (hfr : isFinite r = true) (hk : 1 ≤ k) (hlt : k < 1024) (hb : value b = k + l)
    (hl : |l| < 1 / 2) (hh : |value h| < 1 / 80) (hr : |value r| < 1 / 2 ^ 39)
    (hs : |value s * value t| < 1 / 20000)
    (h0 : |l + value h + value r + value s * value t| < 1 / 2 ^ 60) :
    mulAdd s t (b - (b + h) + h + r) + (b + h) = ofNat k := by
  have hk1 : (1 : ℚ) ≤ k := by exact_mod_cast hk
  have hkq : (k : ℚ) ≤ 1023 := by exact_mod_cast Nat.le_of_lt_succ hlt
  rw [abs_lt] at hl hh hr hs h0
  norm_num at hr h0
  obtain ⟨hf1, hl1, hu1⟩ := value_bounds (rounds_add hfb hfh) (p := 43) (by omega)
    (by norm_num; linarith) (by norm_num; linarith)
  norm_num at hl1 hu1
  obtain ⟨hf2, hl2, hu2⟩ := value_bounds (rounds_sub hfb hf1) (p := 59) (by omega)
    (by norm_num; linarith) (by norm_num; linarith)
  norm_num at hl2 hu2
  obtain ⟨hf3, hl3, hu3⟩ := value_bounds (rounds_add hf2 hfh) (p := 96) (by omega)
    (by norm_num; linarith) (by norm_num; linarith)
  norm_num at hl3 hu3
  obtain ⟨hf4, hl4, hu4⟩ := value_bounds (rounds_add hf3 hfr) (p := 91) (by omega)
    (by norm_num; linarith) (by norm_num; linarith)
  norm_num at hl4 hu4
  obtain ⟨hf5, hl5, hu5⟩ := value_bounds (rounds_mulAdd s t (b - (b + h) + h + r)) (p := 67)
    (by omega) (by norm_num; linarith) (by norm_num; linarith)
  norm_num at hl5 hu5
  obtain ⟨hf, hv⟩ := value_eq_natCast (rounds_add hf5 hf1) (m := k) (by omega) (by
    rw [abs_le]
    constructor <;> norm_num <;> linarith)
  exact eq_ofNat hf (by omega) hv

theorem ofParts_eq_ofNat (k : Nat) :
    ofParts (decide ((k : Int) < 0)) (nearest (k : Int).natAbs 1) = ofNat k := by
  rw [decide_eq_false (Int.not_lt.mpr k.cast_nonneg), Int.natAbs_natCast, ofNat]

theorem reduced_one (hk : 1 ≤ k) (hlt : k < 1024) : reduced k unitAnchor one = ofNat k := by
  have hd (negative : Bool) (bits p : Nat) (h : 2 ^ 52 ≤ bits ∧ bits / 2 ^ 52 + p = 1075 ∧ 1 ≤ p) :=
    value_ofParts negative bits p h.1 h.2.1 h.2.2
  obtain ⟨hfl, hvl⟩ := hd false 0x3f86fe53b1500000 59 (by decide)
  obtain ⟨hfh, hvh⟩ := hd true 0x3f86e77b68af981a 59 (by decide)
  obtain ⟨hfr, hvr⟩ := hd true 0x3d76d84f71c9d28d 92 (by decide)
  obtain ⟨-, hvs⟩ := hd false 0x3f0f81842b07064f 67 (by decide)
  obtain ⟨-, hvt⟩ := hd true 0x3fe733ff1bc2a16f 53 (by decide)
  norm_num at hvl hvh hvr hvs hvt
  obtain ⟨hfk, hvk⟩ := value_ofNat (n := k) (by omega)
  have hr : mulAdd one (.ofBits unitAnchor.reciprocal) (-one) = unitRatio := rfl
  simp only [reduced, ofParts_eq_ofNat, hr, linear_unitRatio, square_unitRatio,
    correction_unitRatio, unitAnchor_logarithm]
  obtain ⟨hfb, hvb⟩ := value_eq_self (rounds_add hfk hfl) (p := 39) (m := k * 2 ^ 39 + 6172261141)
    (by omega) (by omega) (by
      rw [hvk, hvl, abs_of_nonneg (by positivity)]
      push_cast
      ring)
  rw [hvk] at hvb
  apply add_lost hfb hfh hfr hk hlt hvb
  · rw [hvl]
    norm_num [abs_lt]
  · rw [hvh]
    norm_num [abs_lt]
  · rw [hvr]
    norm_num [abs_lt]
  · rw [hvs, hvt]
    norm_num [abs_lt]
  · rw [hvl, hvh, hvr, hvs, hvt]
    norm_num [abs_lt]

theorem magnitude_ofParts_two_pow (hlt : k < 1024) :
    magnitude (ofParts false ((k + 1023) * 2 ^ 52)) = (k + 1023) * 2 ^ 52 := by
  rw [magnitude_ofParts, infinity]
  omega

theorem magnitude_one : magnitude one = 1023 * 2 ^ 52 := by
  rw [one, magnitude_ofParts, infinity]
  omega

/-- The pieces of a binade are counted from the same place in each, and so a power of two is in the
piece of one. -/
theorem ofFloat_two_pow (hk : 1 ≤ k) (hlt : k < 1024) :
    ofFloat (ofParts false ((k + 1023) * 2 ^ 52)) = ofNat k := by
  have hm := magnitude_ofParts_two_pow hlt
  have ho : (((k + 1023) * 2 ^ 52 : Nat) : Int) - origin =
      k * 0x10000000000000 + 0xa000000000000 := by
    rw [origin]
    omega
  have hq : ((((k + 1023) * 2 ^ 52 : Nat) : Int) - origin) / 0x10000000000000 = k := by
    rw [ho]
    omega
  have hp : ((((k + 1023) * 2 ^ 52 : Nat) : Int) - origin) / 0x400000000000 % 64 = 40 := by
    rw [ho]
    omega
  have hz : ((((k + 1023) * 2 ^ 52 : Nat) : Int) - k * 0x10000000000000).toNat = 1023 * 2 ^ 52 := by
    omega
  have ha : anchors[(40 : Int).toNat]? = some unitAnchor := rfl
  unfold ofFloat
  simp only [hm, magnitude_one]
  rw [if_neg (by omega), if_neg (by omega)]
  simp only [hq, hp, hz, ha]
  exact reduced_one hk hlt

theorem log2_of_lt (hk : 1 ≤ k) (hlt : k < 1024)
    (hn : nearest n 1 = min ((k + 1023) * 2 ^ 52) infinity) : log2 n = ofNat k := by
  have hlt' : (k + 1023) * 2 ^ 52 < infinity := by
    rw [infinity]
    omega
  rw [Nat.min_eq_left hlt'.le] at hn
  unfold log2
  simp only [hn]
  rw [if_pos hlt', ofFloat_two_pow hk hlt]

theorem ofFloat_half :
    ofFloat (ofParts false (nearest (2 ^ 52) 0x20000000000000)) =
      ofParts true 0x3ff0000000000000 := by
  decide +kernel

theorem ofFloat_unit : ofFloat (ofParts false (nearest (2 ^ 53) 0x20000000000000)) = ofNat 0 := by
  decide +kernel

theorem log2_of_le (hk : 1024 ≤ k) (hn : nearest n 1 = min ((k + 1023) * 2 ^ 52) infinity)
    {m i : Nat} (hh : head n = (m, i)) :
    log2 n = ofFloat (ofParts false (nearest m 0x20000000000000)) + ofNat (i + 53) := by
  have hle : infinity ≤ (k + 1023) * 2 ^ 52 := by
    rw [infinity]
    omega
  rw [Nat.min_eq_right hle] at hn
  unfold log2
  simp only [hn]
  rw [if_neg (Nat.lt_irrefl _), hh]
  rfl

theorem head_two_pow (hk : 52 ≤ k) : head (2 ^ k) = (2 ^ 52, k - 52) := by
  have hp : 2 ^ k = 2 ^ 52 * 2 ^ (k - 52) := by
    rw [← pow_add, Nat.add_sub_cancel' hk]
  rw [head]
  simp only [Nat.log2_two_pow, Nat.shiftLeft_eq, Nat.one_mul]
  conv_lhs => rw [hp]
  rw [divRound_mul_self _ (Nat.two_pow_pos _)]

theorem head_pred_two_pow (hk : 54 ≤ k) : head (2 ^ k - 1) = (2 ^ 53, k - 53) := by
  have hd := divRound_pred_two_pow 0 hk
  rw [Nat.pow_zero, Nat.mul_one, Nat.add_zero] at hd
  have hl : k - 1 - 52 = k - 53 := by omega
  rw [head, log2_pred_two_pow (by omega)]
  simp only [hl, Nat.shiftLeft_eq, Nat.one_mul, hd]

/-- The logarithm of a power of two is exact. -/
theorem log2_two_pow (hk : 1 ≤ k) (hlt : k < 2 ^ 51) : log2 (2 ^ k) = ofNat k := by
  by_cases h : k < 1024
  · exact log2_of_lt hk h (nearest_two_pow k)
  · rw [log2_of_le (by omega) (nearest_two_pow k) (head_two_pow (by omega)), ofFloat_half]
    have hs : k - 52 + 53 = k + 1 := by omega
    obtain ⟨hf1, hv1⟩ := value_ofParts true 0x3ff0000000000000 52 (by decide) (by decide)
      (by decide)
    obtain ⟨hf, hv⟩ := value_ofNat (n := k + 1) (by omega)
    rw [hs]
    apply add_eq_ofNat hf1 hf (by omega) (by omega)
    rw [hv1, hv]
    norm_num

/-- One below a power of two, the logarithm is that of the power if the two are not told apart. -/
theorem log2_pred (hk : 54 ≤ k) (hlt : k < 2 ^ 51) : log2 (2 ^ k - 1) = ofNat k := by
  by_cases h : k < 1024
  · exact log2_of_lt (by omega) h (nearest_pred_two_pow hk)
  · rw [log2_of_le (by omega) (nearest_pred_two_pow hk) (head_pred_two_pow hk), ofFloat_unit]
    have hs : k - 53 + 53 = k := by omega
    obtain ⟨hf0, hv0⟩ := value_ofNat (n := 0) (by decide)
    obtain ⟨hf, hv⟩ := value_ofNat (n := k) (by omega)
    rw [hs]
    apply add_eq_ofNat hf0 hf (by omega) (by omega)
    rw [hv0, hv, Nat.cast_zero, zero_add]

end Logarithm

end Abacus.Binary64
