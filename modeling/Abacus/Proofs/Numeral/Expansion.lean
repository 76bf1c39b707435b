import Abacus.Proofs.Lexer.Passage
import Abacus.Proofs.Numeral.Printed

namespace Abacus

open Numeral Numeral.Reading Text

theorem toDigits_mul_pow {n : Nat} (h : 0 < n) (k : Nat) :
    Nat.toDigits 10 (n * 10 ^ k) = Nat.toDigits 10 n ++ List.replicate k '0' := by
  induction k with
  | zero => simp
  | succ k ih =>
    have hp : 0 < n * 10 ^ k := Nat.mul_pos h (Nat.pow_pos (by decide))
    have hd := Nat.toDigits_append_toDigits (b := 10) (d := 0) (by decide) hp (by decide)
    calc
      _ = Nat.toDigits 10 (10 * (n * 10 ^ k) + 0) := by
        rw [Nat.pow_succ, ← Nat.mul_assoc, Nat.mul_comm, Nat.add_zero]
      _ = Nat.toDigits 10 (n * 10 ^ k) ++ ['0'] := hd.symm
      _ = _ := by rw [ih, List.append_assoc, List.replicate_succ']

def pointed (s : List Char) : List Char := if '.' ∈ s then s else s ++ ['.', '0']

/-- Digits written out up to their place before the point. The point is left out if no digits are
left to stand after it. -/
def fixedPoint (digits : List Char) (place : Int) : List Char :=
  if place ≤ 0 then '0' :: '.' :: (List.replicate (-place).toNat '0' ++ digits)
  else if digits.length ≤ place.toNat then
    digits ++ List.replicate (place.toNat - digits.length) '0'
  else digits.take place.toNat ++ '.' :: digits.drop place.toNat

theorem point_notMem {ds : List Char} (h : ∀ c ∈ ds, Digit.isAscii c = true) : '.' ∉ ds := by
  intro hp
  exact absurd (h '.' hp) (by decide)

theorem pointed_fixedPoint {digits : List Char} (h : ∀ c ∈ digits, Digit.isAscii c = true)
    (place : Int) : pointed (fixedPoint digits place) = Decimal.positional digits place := by
  unfold fixedPoint Decimal.positional
  split
  · exact if_pos (by simp)
  · split
    · have hz : '.' ∉ digits ++ List.replicate (place.toNat - digits.length) '0' := by
        simp [point_notMem h]
      rw [pointed, if_neg hz, List.append_assoc]
    · exact if_pos (by simp)

theorem pointed_cons {c : Char} (hc : c ≠ '.') (s : List Char) :
    pointed (c :: s) = c :: pointed s := by
  simp only [pointed, List.mem_cons, Ne.symm hc, false_or]
  split <;> rfl

theorem positional_append_zeros {digits : List Char} {place : Int} (hp : 0 < place)
    (hl : digits.length ≤ place.toNat) :
    Decimal.positional (digits ++ List.replicate (place.toNat - digits.length + 1) '0') place =
      Decimal.positional digits place := by
  have hn : ¬ place ≤ 0 := by omega
  have ha : (digits ++ List.replicate (place.toNat - digits.length) '0').length = place.toNat := by
    rw [List.length_append, List.length_replicate]
    omega
  have hg : ¬ (digits ++ List.replicate (place.toNat - digits.length + 1) '0').length ≤
      place.toNat := by
    rw [List.length_append, List.length_replicate]
    omega
  unfold Decimal.positional
  rw [if_neg hn, if_neg hn, if_neg hg, if_pos hl, List.replicate_succ', ← List.append_assoc,
    List.take_left' ha, List.drop_left' ha]

namespace Decimal

theorem toDigits_value_figures (d : Decimal) : Nat.toDigits 10 (value d.figures) = d.figures := by
  by_cases h : d.mantissa = 0
  · rw [figures, if_pos h]
    rfl
  · obtain ⟨n, hn⟩ := exists_figures_append h
    have hv := congrArg value hn
    rw [value_append_zeros, value_toDigits] at hv
    have hp : 0 < value d.figures := by
      refine Nat.pos_of_ne_zero fun h0 => h ?_
      rw [← hv, h0, Nat.zero_mul]
    rw [← hv, toDigits_mul_pow hp] at hn
    exact (List.append_cancel_right hn).symm

/-- How many digits of the mantissa stand before the point. A zero takes no zeros in front of it. -/
def place (d : Decimal) : Int :=
  (Nat.toDigits 10 d.mantissa).length + if d.mantissa = 0 then min d.exponent 0 else d.exponent

end Decimal

namespace Numeral

namespace Printed

/-- The printed number without an exponent. It is read as digits and a power of ten, these are
written out, and a point is put after them if there is none. -/
def expand (p : Printed) : List Char :=
  let body := fixedPoint (Nat.toDigits 10 p.decimal.mantissa) p.decimal.place
  pointed (if p.negative then '-' :: body else body)

theorem expand_eq (p : Printed) : p.expand =
    (if p.negative then ['-'] else []) ++
      Decimal.positional (Nat.toDigits 10 p.decimal.mantissa) p.decimal.place := by
  have ha : ∀ c ∈ Nat.toDigits 10 p.decimal.mantissa, Digit.isAscii c = true := fun c =>
    isAscii_of_mem_toDigits
  unfold expand
  cases p.negative with
  | false => exact pointed_fixedPoint ha _
  | true =>
    dsimp only
    rw [if_pos rfl, if_pos rfl, pointed_cons (by decide), pointed_fixedPoint ha]
    rfl

/-- What is expanded is a literal with digits before and after its point. It has the sign of the
printed number and stands for the same one. -/
theorem exists_literal_expand (p : Printed) :
    ∃ (l : Literal) (ds : List Char), l.text = p.expand ∧ l.fraction = some ds ∧ ds ≠ [] ∧
      l.negative = p.negative ∧ l.toRat = p.toRat := by
  obtain ⟨l, ds, hds, hne, hn, hf, hv⟩ := exists_literal_positional
    (Nat.toDigits_ne_nil (b := 10) (n := p.decimal.mantissa))
    (fun c => isAscii_of_mem_toDigits) p.negative p.decimal.place
  have hd : l.decimal.toRat = p.decimal.toRat := by
    rw [hv, value_toDigits, Decimal.place, Decimal.toRat]
    by_cases hm : p.decimal.mantissa = 0
    · rw [hm, Nat.cast_zero, zero_mul, zero_mul]
    · rw [if_neg hm, add_sub_cancel_left]
  refine ⟨l, ds, ?_, hds, hne, hn, ?_⟩
  · rw [p.expand_eq, Literal.text, hn, hf]
    cases p.negative <;> rfl
  · rw [p.toRat_eq, Literal.toRat, hn, hd]

end Printed

section

variable {figures : List Char} {point : Int} {d : Decimal}
  (hd : Nat.toDigits 10 (value figures) = figures) (hz : value figures = 0 → point = 1)

include hd hz

theorem length_of_value_eq_zero (h : value figures = 0) : figures.length = 1 ∧ point = 1 := by
  refine ⟨?_, hz h⟩
  rw [← hd, h]
  rfl

theorem positional_place (hm : d.mantissa = value figures)
    (he : d.exponent = point - figures.length) :
    Decimal.positional (Nat.toDigits 10 d.mantissa) d.place = Decimal.positional figures point := by
  have hp : d.place = point := by
    rw [Decimal.place, hm, hd, he]
    split
    · next h =>
      obtain ⟨hl, rfl⟩ := length_of_value_eq_zero hd hz h
      omega
    · omega
  rw [hp, hm, hd]

theorem positional_place_padded (hp : 0 < point) (hl : figures.length ≤ point.toNat)
    (hm : d.mantissa = value figures * 10 ^ (point.toNat - figures.length + 1))
    (he : d.exponent = -1) :
    Decimal.positional (Nat.toDigits 10 d.mantissa) d.place = Decimal.positional figures point := by
  by_cases h : value figures = 0
  · obtain ⟨-, rfl⟩ := length_of_value_eq_zero hd hz h
    rw [h, Nat.zero_mul] at hm
    rw [← hd, h, Decimal.place, hm, he]
    rfl
  · have ht : Nat.toDigits 10 d.mantissa =
        figures ++ List.replicate (point.toNat - figures.length + 1) '0' := by
      rw [hm, toDigits_mul_pow (Nat.pos_of_ne_zero h), hd]
    have hn : d.mantissa ≠ 0 := by
      rw [hm]
      exact Nat.mul_ne_zero h (Nat.ne_of_gt (Nat.pow_pos (by decide)))
    have hpl : d.place = point := by
      rw [Decimal.place, if_neg hn, ht, he, List.length_append, List.length_replicate]
      omega
    rw [hpl, ht, positional_append_zeros hp hl]

end

theorem exists_printed_of_digits {whole ds : List Char} (hw : whole ≠ [])
    (h : ∀ c ∈ whole ++ ds, Digit.isAscii c = true) (negative : Bool) : ∃ p : Printed,
      p.negative = negative ∧ p.text = (if negative then ['-'] else []) ++ (whole ++ '.' :: ds) ∧
      p.decimal = ⟨value (whole ++ ds), -ds.length⟩ := by
  obtain ⟨hwhole, hds⟩ := List.forall_mem_append.mp h
  let l : Literal := ⟨negative, whole, some ds, hw, hwhole, by simpa using hds⟩
  have hf : l.figures = whole ++ '.' :: ds := rfl
  refine ⟨⟨l, none⟩, rfl, ?_, ?_⟩
  · rw [Printed.text, Literal.text_eq, hf]
    exact List.append_nil _
  · simp [Printed.decimal, Printed.exponent, Literal.decimal, l]

section

variable {figures : List Char} {point : Int} (hne : figures ≠ [])
  (ha : ∀ c ∈ figures, Digit.isAscii c = true)
  (hd : Nat.toDigits 10 (value figures) = figures) (hz : value figures = 0 → point = 1)

include hne ha hd hz

theorem exists_printed_positional (negative : Bool) : ∃ p : Printed, p.negative = negative ∧
    p.text = (if negative then ['-'] else []) ++ Decimal.positional figures point ∧
    p.expand = (if negative then ['-'] else []) ++ Decimal.positional figures point := by
  have hzeros (n : Nat) : ∀ c ∈ List.replicate n '0', Digit.isAscii c = true := by
    intro c hc
    rw [List.eq_of_mem_replicate hc]
    decide
  suffices h : ∃ whole ds : List Char, whole ≠ [] ∧ (∀ c ∈ whole ++ ds, Digit.isAscii c = true) ∧
      Decimal.positional figures point = whole ++ '.' :: ds ∧
      ∀ d : Decimal, d = ⟨value (whole ++ ds), -ds.length⟩ →
        Decimal.positional (Nat.toDigits 10 d.mantissa) d.place =
          Decimal.positional figures point by
    obtain ⟨whole, ds, hw, hall, hp, hx⟩ := h
    obtain ⟨p, hn, ht, hdec⟩ := exists_printed_of_digits hw hall negative
    refine ⟨p, hn, ?_, ?_⟩
    · rw [ht, hp]
    · rw [p.expand_eq, hn, hx p.decimal hdec]
  by_cases hp : point ≤ 0
  · refine ⟨['0'], List.replicate (-point).toNat '0' ++ figures, List.cons_ne_nil _ _,
      List.forall_mem_append.mpr ⟨hzeros 1, List.forall_mem_append.mpr ⟨hzeros _, ha⟩⟩,
      if_pos hp, ?_⟩
    rintro d rfl
    refine positional_place hd hz ((value_zeros_append 1 _).trans (value_zeros_append _ _)) ?_
    dsimp only
    rw [List.length_append, List.length_replicate]
    omega
  · by_cases hl : figures.length ≤ point.toNat
    · refine ⟨figures ++ List.replicate (point.toNat - figures.length) '0', ['0'],
        List.append_ne_nil_of_left_ne_nil hne _,
        List.forall_mem_append.mpr ⟨List.forall_mem_append.mpr ⟨ha, hzeros _⟩, hzeros 1⟩, ?_, ?_⟩
      · rw [Decimal.positional, if_neg hp, if_pos hl]
      · rintro d rfl
        refine positional_place_padded hd hz (Int.not_le.mp hp) hl ?_ rfl
        rw [← value_append_zeros, List.replicate_succ', List.append_assoc]
    · refine ⟨figures.take point.toNat, figures.drop point.toNat, ?_, ?_, ?_, ?_⟩
      · exact List.ne_nil_of_length_pos (by rw [List.length_take]; omega)
      · rwa [List.take_append_drop]
      · rw [Decimal.positional, if_neg hp, if_neg hl]
      · rintro d rfl
        refine positional_place hd hz (by rw [List.take_append_drop]) ?_
        dsimp only
        rw [List.length_drop]
        omega

theorem exists_printed_scientific (negative : Bool) (width : Nat) : ∃ p : Printed,
    p.negative = negative ∧
      p.text = (if negative then ['-'] else []) ++ Decimal.scientific width figures point ∧
      p.expand = (if negative then ['-'] else []) ++ Decimal.positional figures point := by
  have hl := List.length_pos_iff.mpr hne
  have hw : figures.take 1 ≠ [] := List.ne_nil_of_length_pos (by rw [List.length_take]; omega)
  let p : Printed :=
    { negative := negative
      whole := figures.take 1
      fraction := if figures.drop 1 = [] then none else some (figures.drop 1)
      whole_ne_nil := hw
      isAscii_whole := fun c hc => ha c (List.mem_of_mem_take hc)
      isAscii_fraction := by
        intro ds hds c hc
        split at hds
        · cases hds
        · obtain rfl := Option.mem_some_iff.mp hds
          exact ha c (List.mem_of_mem_drop hc)
      scale := some (.ofInt (point - 1) width) }
  have hf : p.fraction.getD [] = figures.drop 1 ∧
      p.figures = figures.take 1 ++ if figures.drop 1 = [] then [] else '.' :: figures.drop 1 := by
    by_cases h : figures.drop 1 = []
    · have hn : p.fraction = none := if_pos h
      rw [hn, Literal.figures_of_none hn, if_pos h, h, List.append_nil]
      exact ⟨rfl, rfl⟩
    · have hs : p.fraction = some (figures.drop 1) := if_neg h
      rw [hs, Literal.figures_of_some hs, if_neg h]
      exact ⟨rfl, rfl⟩
  have hm : p.decimal.mantissa = value figures := by
    change value (figures.take 1 ++ p.fraction.getD []) = _
    rw [hf.1, List.take_append_drop]
  have he : p.decimal.exponent = point - figures.length := by
    change -((p.fraction.getD []).length : Int) + (Scale.ofInt (point - 1) width).exponent = _
    rw [hf.1, Scale.exponent_ofInt, List.length_drop]
    omega
  refine ⟨p, rfl, ?_, ?_⟩
  · have hs : (point - 1 < 0) = (point < 1) := propext (by omega)
    rw [Printed.text, Literal.text_eq, hf.2, Decimal.scientific]
    simp [p, Scale.ofInt, Scale.text, hs]
  · rw [p.expand_eq, positional_place hd hz hm he]

end

theorem point_shortest {bits : Nat} (hb : bits < Binary64.Rounding.infinity)
    (h : value (Binary64.Shortest.shortest bits).figures = 0) :
    (Binary64.Shortest.shortest bits).point = 1 := by
  have hm : (Binary64.Shortest.shortest bits).mantissa = 0 := by
    by_contra hm
    obtain ⟨n, hn⟩ := Decimal.exists_figures_append hm
    have hv := congrArg value hn
    rw [value_append_zeros, value_toDigits, h, Nat.zero_mul] at hv
    exact hm hv.symm
  have hz : bits = 0 := by
    rw [← Binary64.Shortest.nearest_shortest hb, Decimal.nearest, Decimal.num, hm, Nat.zero_mul,
      Binary64.Rounding.nearest_zero]
  rw [hz]
  rfl

theorem exists_printed_text {x : Float} (h : Binary64.Parts.isFinite x = true) :
    ∃ p : Printed, p.text = Decimal.text x ∧ p.expand = Decimal.plain x := by
  have hm : Binary64.Parts.magnitude x < Binary64.Rounding.infinity := of_decide_eq_true h
  have hn : Binary64.Parts.isNaN x = false := decide_eq_false (Nat.not_lt.mpr (Nat.le_of_lt hm))
  have hr (layout : List Char → Int → List Char) : Decimal.render layout x =
      (if Binary64.Parts.isNegative x then ['-'] else []) ++
        layout (Binary64.Shortest.shortest (Binary64.Parts.magnitude x)).figures
          (Binary64.Shortest.shortest (Binary64.Parts.magnitude x)).point := by
    rw [Decimal.render, hn, h]
    cases Binary64.Parts.isNegative x <;> rfl
  have hz := point_shortest hm
  rw [Decimal.text, Decimal.plain, hr, hr]
  generalize Binary64.Shortest.shortest (Binary64.Parts.magnitude x) = d at hz ⊢
  by_cases hs : Decimal.general.least ≤ d.point ∧ d.point ≤ Decimal.general.greatest
  · rw [Decimal.Style.layout, if_pos hs]
    obtain ⟨p, -, ht, hx⟩ := exists_printed_positional d.figures_ne_nil
      (fun c => d.isAscii_of_mem_figures) d.toDigits_value_figures hz
      (Binary64.Parts.isNegative x)
    exact ⟨p, ht, hx⟩
  · rw [Decimal.Style.layout, if_neg hs]
    obtain ⟨p, -, ht, hx⟩ := exists_printed_scientific d.figures_ne_nil
      (fun c => d.isAscii_of_mem_figures) d.toDigits_value_figures hz
      (Binary64.Parts.isNegative x) Decimal.general.exponentWidth
    exact ⟨p, ht, hx⟩

/-- The text has digits before and after a point and no exponent. It has the sign of the printed
number and stands for the same one. -/
def Printed.Restates (p : Printed) (s : List Char) : Prop :=
  ∃ (l : Literal) (ds : List Char), l.text = s ∧ l.fraction = some ds ∧ ds ≠ [] ∧
    l.negative = p.negative ∧ l.toRat = p.toRat

end Numeral

open Lexer

/-- Whatever the exponent, the expansion of a printed number restates it and is read as one decimal.
The lexeme of a finite decimal is the expansion of the number that is printed for it, and is read as
that same decimal. -/
theorem lexeme_of_printed :
    (∀ p : Printed, p.Restates p.expand ∧
      ∃ y, (scan p.expand).result = .ok [.number (.decimal y)]) ∧
    ∀ x : Float, Binary64.Parts.isFinite x = true → ∃ p : Printed,
      (∀ q : Printed, q.text = (Number.decimal x).text ↔ q = p) ∧
      (Token.number (.decimal x)).lexeme = p.expand ∧ p.Restates p.expand ∧
      (scan p.expand).result = .ok [.number (.decimal x)] := by
  have hall (p : Printed) : p.Restates p.expand := p.exists_literal_expand
  have hscan {l : Literal} {ds : List Char} (hf : l.fraction = some ds) : (scan l.text).result =
      .ok [.number (.decimal (Binary64.Parts.ofParts l.negative l.decimal.nearest))] := by
    have hn : l.fraction ≠ none := by
      rw [hf]
      exact Option.some_ne_none ds
    have hp := passes_text l
    rw [literalState, if_neg hn] at hp
    exact scan_of_passes hp (settled_decimal hf)
  refine ⟨fun p => ⟨hall p, ?_⟩, fun x hx => ?_⟩
  · obtain ⟨l, ds, hl, hf, -⟩ := hall p
    rw [← hl]
    exact ⟨_, hscan hf⟩
  · obtain ⟨p, ht, hp⟩ := exists_printed_text hx
    refine ⟨p, fun q => ?_, hp.symm, hall p, ?_⟩
    · rw [← Printed.text_injective.eq_iff, ht]
      rfl
    · obtain ⟨l, ds, hf, -, -, hl, hr⟩ := exists_literal_plain hx
      rw [Decimal.read_text hf] at hr
      rw [hp, ← hl, hscan hf, Except.ok.inj hr]

theorem lexeme_of_printed_subnormal :
    let x : Float := Binary64.Parts.ofParts true 1
    Binary64.Parts.isFinite x = true ∧ ∃ p : Printed, p.text = "-5e-324".toList ∧
      (Token.number (.decimal x)).lexeme = p.expand ∧
      p.expand = '-' :: '0' :: '.' :: (List.replicate 323 '0' ++ ['5']) ∧
      p.Restates p.expand ∧ (scan p.expand).result = .ok [.number (.decimal x)] := by
  intro x
  have hx : Binary64.Parts.isFinite x = true := by decide +kernel
  have ht : (Number.decimal x).text = "-5e-324".toList := by decide +kernel
  have hl : (Token.number (.decimal x)).lexeme =
      '-' :: '0' :: '.' :: (List.replicate 323 '0' ++ ['5']) := by decide +kernel
  obtain ⟨p, hp, he, hr, hs⟩ := lexeme_of_printed.2 x hx
  exact ⟨hx, p, ht ▸ (hp p).mpr rfl, he, he.symm.trans hl, hr, hs⟩

end Abacus
