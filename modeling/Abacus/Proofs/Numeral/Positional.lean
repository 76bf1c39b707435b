import Abacus.Proofs.Binary64.Encoding
import Abacus.Proofs.Binary64.ReadBack
import Abacus.Proofs.Numeral.Literal
import Mathlib.Algebra.Field.Rat
import Mathlib.Data.List.DropRight
import Mathlib.Tactic.NormNum

namespace Abacus

open Numeral Numeral.Reading Text

theorem isAscii_of_mem_toDigits {n : Nat} {c : Char} (h : c ∈ Nat.toDigits 10 n) :
    Digit.isAscii c = true := Nat.isDigit_of_mem_toDigits (by decide) (by decide) h

theorem value_append (ds es : List Char) :
    value (ds ++ es) = value ds * 10 ^ es.length + value es := by
  rw [value, Nat.ofDigitChars_append, Nat.ofDigitChars_eq_ofDigitChars_zero, Nat.mul_comm]
  rfl

theorem value_replicate_zero (n : Nat) : value (List.replicate n '0') = 0 := by
  rw [value, Nat.ofDigitChars_replicate_zero, Nat.mul_zero]

theorem value_zeros_append (n : Nat) (ds : List Char) :
    value (List.replicate n '0' ++ ds) = value ds := by
  rw [value_append, value_replicate_zero, Nat.zero_mul, Nat.zero_add]

theorem value_append_zeros (ds : List Char) (n : Nat) :
    value (ds ++ List.replicate n '0') = value ds * 10 ^ n := by
  rw [value_append, value_replicate_zero, List.length_replicate, Nat.add_zero]

theorem value_toDigits (n : Nat) : value (Nat.toDigits 10 n) = n := Nat.ofDigitChars_ten_toDigits

namespace Decimal

def toRat (d : Decimal) : ℚ := d.mantissa * 10 ^ d.exponent

theorem toRat_eq_div (d : Decimal) : d.toRat = d.num / d.den := by
  have he : d.exponent = (d.exponent.toNat : Int) - ((-d.exponent).toNat : Int) := by omega
  have h10 : (10 : ℚ) ≠ 0 := by norm_num
  rw [toRat, num, den, Nat.pow_eq, Nat.pow_eq, he, zpow_sub₀ h10, zpow_natCast, zpow_natCast, ← he]
  push_cast
  rw [mul_div_assoc]

theorem nearest_eq_of_toRat_eq {d e : Decimal} (h : d.toRat = e.toRat) : d.nearest = e.nearest := by
  have hd : (d.den : ℚ) ≠ 0 := Nat.cast_ne_zero.mpr (Nat.ne_of_gt d.den_pos)
  have he : (e.den : ℚ) ≠ 0 := Nat.cast_ne_zero.mpr (Nat.ne_of_gt e.den_pos)
  rw [toRat_eq_div, toRat_eq_div, div_eq_div_iff hd he] at h
  exact nearest_congr (by exact_mod_cast h)

theorem exists_figures_append {d : Decimal} (h : d.mantissa ≠ 0) :
    ∃ n, d.figures ++ List.replicate n '0' = Nat.toDigits 10 d.mantissa := by
  refine ⟨((Nat.toDigits 10 d.mantissa).rtakeWhile fun c => c = '0').length, ?_⟩
  have hz : List.replicate ((Nat.toDigits 10 d.mantissa).rtakeWhile fun c => c = '0').length '0' =
      (Nat.toDigits 10 d.mantissa).rtakeWhile fun c => c = '0' := by
    refine (List.eq_replicate_of_mem fun c hc => ?_).symm
    have hd : decide (c = '0') = true :=
      List.mem_rtakeWhile_imp (p := fun c => decide (c = '0')) hc
    exact of_decide_eq_true hd
  rw [hz, figures, if_neg h]
  exact List.rdropWhile_append_rtakeWhile

theorem isAscii_of_mem_figures {d : Decimal} {c : Char} (hc : c ∈ d.figures) :
    Digit.isAscii c = true := by
  by_cases h : d.mantissa = 0
  · rw [figures, if_pos h] at hc
    rw [List.mem_singleton.mp hc]
    decide
  · obtain ⟨n, hn⟩ := exists_figures_append h
    apply isAscii_of_mem_toDigits (n := d.mantissa)
    rw [← hn]
    exact List.mem_append_left _ hc

theorem figures_ne_nil (d : Decimal) : d.figures ≠ [] := by
  intro hf
  by_cases h : d.mantissa = 0
  · rw [figures, if_pos h] at hf
    cases hf
  · obtain ⟨n, hn⟩ := exists_figures_append h
    have hv := congrArg value hn
    rw [hf, List.nil_append, value_replicate_zero, value_toDigits] at hv
    exact h hv.symm

theorem toRat_figures (d : Decimal) :
    (⟨value d.figures, d.point - d.figures.length⟩ : Decimal).toRat = d.toRat := by
  by_cases h : d.mantissa = 0
  · have hv : value d.figures = 0 := by
      rw [figures, if_pos h]
      rfl
    rw [toRat, toRat, hv, h]
    simp
  · obtain ⟨n, hn⟩ := exists_figures_append h
    have hv := congrArg value hn
    have hl := congrArg List.length hn
    rw [value_append_zeros, value_toDigits] at hv
    rw [List.length_append, List.length_replicate] at hl
    have hp : d.point - d.figures.length = n + d.exponent := by
      rw [point, ← hl]
      omega
    rw [toRat, toRat, hp, ← hv, zpow_add₀ (by norm_num), zpow_natCast]
    push_cast
    rw [mul_assoc]

end Decimal

namespace Numeral

variable {figures : List Char}

theorem exists_positional_eq (hne : figures ≠ []) (point : Int) :
    ∃ whole ds : List Char, Decimal.positional figures point = whole ++ '.' :: ds ∧
      whole ≠ [] ∧ ds ≠ [] ∧ (∀ c ∈ whole ++ ds, c = '0' ∨ c ∈ figures) ∧
      (value (whole ++ ds) : ℚ) * 10 ^ (-(ds.length : Int)) =
        value figures * 10 ^ (point - figures.length) := by
  unfold Decimal.positional
  by_cases hp : point ≤ 0
  · rw [if_pos hp]
    refine ⟨['0'], List.replicate (-point).toNat '0' ++ figures, rfl, List.cons_ne_nil _ _,
      List.append_ne_nil_of_right_ne_nil _ hne, ?_, ?_⟩
    · intro c hc
      simp only [List.mem_append, List.mem_singleton, List.mem_replicate] at hc
      tauto
    · have hv : value (['0'] ++ (List.replicate (-point).toNat '0' ++ figures)) = value figures :=
        (value_zeros_append 1 _).trans (value_zeros_append _ _)
      have hl : -((List.replicate (-point).toNat '0' ++ figures).length : Int) =
          point - figures.length := by
        rw [List.length_append, List.length_replicate]
        omega
      rw [hv, hl]
  rw [if_neg hp]
  by_cases hf : figures.length ≤ point.toNat
  · rw [if_pos hf]
    refine ⟨figures ++ List.replicate (point.toNat - figures.length) '0', ['0'], rfl,
      List.append_ne_nil_of_left_ne_nil hne _, List.cons_ne_nil _ _, ?_, ?_⟩
    · intro c hc
      simp only [List.mem_append, List.mem_singleton, List.mem_replicate] at hc
      tauto
    · have hv : value (figures ++ List.replicate (point.toNat - figures.length) '0' ++ ['0']) =
          value figures * 10 ^ (point.toNat - figures.length) * 10 := by
        rw [← value_append_zeros]
        exact value_append_zeros _ 1
      have hl : point - figures.length = ((point.toNat - figures.length : Nat) : Int) := by omega
      have hi : (10 : ℚ) ^ (-((['0'] : List Char).length : Int)) = 10⁻¹ := zpow_neg_one 10
      rw [hv, hl, hi, zpow_natCast]
      push_cast
      rw [mul_inv_cancel_right₀ (by norm_num)]
  · rw [if_neg hf]
    have hlt : (figures.take point.toNat).length = point.toNat := by
      rw [List.length_take]
      omega
    have hld : (figures.drop point.toNat).length = figures.length - point.toNat :=
      List.length_drop
    refine ⟨figures.take point.toNat, figures.drop point.toNat, rfl,
      List.ne_nil_of_length_pos (by omega), List.ne_nil_of_length_pos (by omega), ?_, ?_⟩
    · rw [List.take_append_drop]
      exact fun c hc => .inr hc
    · have hl : -((figures.drop point.toNat).length : Int) = point - figures.length := by omega
      rw [List.take_append_drop, hl]

theorem exists_literal_positional (hne : figures ≠ []) (ha : ∀ c ∈ figures, Digit.isAscii c = true)
    (negative : Bool) (point : Int) :
    ∃ (l : Literal) (ds : List Char), l.fraction = some ds ∧ ds ≠ [] ∧ l.negative = negative ∧
      l.figures = Decimal.positional figures point ∧
      l.decimal.toRat = value figures * 10 ^ (point - figures.length) := by
  obtain ⟨whole, ds, hp, hw, hds, hc, hv⟩ := exists_positional_eq hne point
  have hall : ∀ c ∈ whole ++ ds, Digit.isAscii c = true := by
    intro c h
    obtain rfl | h := hc c h
    · decide
    · exact ha c h
  obtain ⟨hwa, hda⟩ := List.forall_mem_append.mp hall
  exact ⟨⟨negative, whole, some ds, hw, hwa, by simpa using hda⟩, ds, rfl, hds, rfl, hp.symm, hv⟩

/-- A finite decimal is written as a literal that reads back as the same decimal. -/
theorem exists_literal_plain {x : Float} (h : Binary64.Parts.isFinite x = true) :
    ∃ (l : Literal) (ds : List Char), l.fraction = some ds ∧ ds ≠ [] ∧
      l.negative = Binary64.Parts.isNegative x ∧ l.text = Decimal.plain x ∧
      Decimal.read l.text = .ok x := by
  have hm : Binary64.Parts.magnitude x < Binary64.Rounding.infinity := of_decide_eq_true h
  have hn : Binary64.Parts.isNaN x = false := decide_eq_false (Nat.not_lt.mpr (Nat.le_of_lt hm))
  let d := Binary64.Shortest.shortest (Binary64.Parts.magnitude x)
  obtain ⟨l, ds, hds, hne, hs, hf, hv⟩ := exists_literal_positional d.figures_ne_nil
    (fun c => d.isAscii_of_mem_figures) (Binary64.Parts.isNegative x) d.point
  refine ⟨l, ds, hds, hne, hs, ?_, ?_⟩
  · rw [Literal.text, hs, hf, Decimal.plain, Decimal.render, hn, h]
    rfl
  · have hr : l.decimal.nearest = Binary64.Parts.magnitude x :=
      calc
        _ = d.nearest := Decimal.nearest_eq_of_toRat_eq (hv.trans d.toRat_figures)
        _ = _ := Binary64.Shortest.nearest_shortest hm
    rw [Decimal.read_text hds, hs, hr, Binary64.Parts.ofParts_magnitude hn]

theorem exists_literal_text (n : Int) :
    ∃ l : Literal, l.fraction = none ∧ l.whole = Nat.toDigits 10 n.natAbs ∧
      l.text = Integer.text n ∧ l.integer = n := by
  let l : Literal := ⟨decide (n < 0), Nat.toDigits 10 n.natAbs, none, Nat.toDigits_ne_nil,
    fun c => isAscii_of_mem_toDigits, by simp⟩
  refine ⟨l, rfl, rfl, ?_, ?_⟩
  · simp [l, Literal.text, Literal.figures, Integer.text]
  · simp only [l, Literal.integer, value_toDigits, decide_eq_true_eq]
    split <;> omega

end Numeral

end Abacus
