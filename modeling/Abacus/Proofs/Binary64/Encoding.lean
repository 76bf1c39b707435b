import Abacus.Binary64.Parts
import Mathlib

namespace Abacus.Binary64.Parts

open Rounding
open Float.Model (Format)
open Float.Model.UnpackedFloat hiding infinity

theorem toNat_unpackMantissa (b : BitVec Format.binary64.numBits) :
    (unpackMantissa b).toNat = b.toNat % 0x10000000000000 := by
  rw [unpackMantissa_def, BitVec.extractLsb'_toNat, Nat.shiftRight_zero]
  rfl

theorem toNat_unpackExponent (b : BitVec Format.binary64.numBits) :
    (unpackExponent b).toNat = b.toNat / 0x10000000000000 % 0x800 := by
  rw [unpackExponent_def, BitVec.extractLsb'_toNat, Nat.shiftRight_eq_div_pow]
  rfl

theorem toBits_ofBits {w : UInt64} (h : w.toNat % 0x8000000000000000 ≤ infinity) :
    (Float.ofBits w).toBits = w := by
  have hv : Format.binary64.Valid w.toBitVec := by
    -- Only words with all ones in the exponent and a mantissa other than zero are changed.
    refine ⟨fun hones hzero => absurd ?_ hzero⟩
    apply BitVec.eq_of_toNat_eq
    have he := congrArg BitVec.toNat hones
    rw [toNat_unpackExponent] at he
    rw [toNat_unpackMantissa]
    change w.toNat / 0x10000000000000 % 0x800 = 0x7ff at he
    change w.toNat % 0x10000000000000 = 0
    rw [infinity] at h
    omega
  exact UInt64.toBitVec_inj.mp (pack_unpack_of_valid hv)

variable {negative : Bool} {bits : Nat}

theorem toNat_toBits_ofParts :
    (ofParts negative bits).toBits.toNat =
      min bits infinity + if negative then 0x8000000000000000 else 0 := by
  have hi : min bits infinity ≤ 0x7ff0000000000000 := Nat.min_le_right ..
  have hw : (UInt64.ofNat (min bits infinity + if negative then 0x8000000000000000 else 0)).toNat =
      min bits infinity + if negative then 0x8000000000000000 else 0 := by
    rw [UInt64.toNat_ofNat']
    apply Nat.mod_eq_of_lt
    split <;> omega
  rw [ofParts, toBits_ofBits, hw]
  rw [hw]
  change _ ≤ 0x7ff0000000000000
  split <;> omega

theorem magnitude_ofParts : magnitude (ofParts negative bits) = min bits infinity := by
  have hi : min bits infinity ≤ 0x7ff0000000000000 := Nat.min_le_right ..
  rw [magnitude, toNat_toBits_ofParts]
  split <;> omega

theorem ofParts_magnitude {x : Float} (h : isNaN x = false) :
    ofParts (isNegative x) (magnitude x) = x := by
  have hm : magnitude x ≤ infinity := Nat.not_lt.mp (of_decide_eq_false h)
  have hw : x.toBits.toNat < 2 ^ 64 := x.toBits.toNat_lt
  have hb : (magnitude x + if isNegative x then 0x8000000000000000 else 0) = x.toBits.toNat := by
    simp only [magnitude, isNegative, decide_eq_true_eq]
    split <;> omega
  rw [ofParts, Nat.min_eq_left hm, hb, UInt64.ofNat_toNat, Float.ofBits_toBits]

theorem isNaN_ofParts : isNaN (ofParts negative bits) = false := by
  rw [isNaN, magnitude_ofParts]
  exact decide_eq_false (Nat.not_lt.mpr (Nat.min_le_right ..))

end Abacus.Binary64.Parts
