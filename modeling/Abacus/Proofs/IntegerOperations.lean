import Abacus.Proofs.Overrun
import Mathlib.Algebra.Order.Field.Power
import Mathlib.Algebra.Order.Floor.Ring
import Mathlib.Data.Rat.Floor
import Mathlib.Tactic.Linarith

namespace Abacus

def towardZero (q : ℚ) : ℤ := if 0 ≤ q then ⌊q⌋ else ⌈q⌉

theorem towardZero_neg (q : ℚ) : towardZero (-q) = -towardZero q := by
  unfold towardZero
  rcases lt_trichotomy q 0 with h | rfl | h
  · rw [if_pos (neg_nonneg.mpr h.le), if_neg (not_le.mpr h), Int.floor_neg]
  · simp
  · rw [if_neg (not_le.mpr (neg_neg_of_pos h)), if_pos h.le, Int.ceil_neg]

theorem towardZero_intCast (n : ℤ) : towardZero n = n := by
  unfold towardZero
  split
  · exact Int.floor_intCast n
  · exact Int.ceil_intCast n

theorem towardZero_of_abs_lt_one {q : ℚ} (h : |q| < 1) : towardZero q = 0 := by
  obtain ⟨hl, hu⟩ := abs_lt.mp h
  unfold towardZero
  split
  · next hq => exact Int.floor_eq_zero_iff.mpr ⟨hq, hu⟩
  · next hq => exact Int.ceil_eq_zero_iff.mpr ⟨hl, (not_le.mp hq).le⟩

theorem towardZero_natCast_div (m n : ℕ) : towardZero (m / n) = (m / n : ℕ) := by
  have h : (0 : ℚ) ≤ m / n := by positivity
  rw [towardZero, if_pos h]
  exact Rat.floor_natCast_div_natCast m n

theorem towardZero_div (a b : ℤ) : towardZero (a / b) = a.tdiv b := by
  obtain ⟨m, rfl | rfl⟩ := a.eq_nat_or_neg <;> obtain ⟨n, rfl | rfl⟩ := b.eq_nat_or_neg <;>
    simp [neg_div, div_neg, towardZero_neg, towardZero_natCast_div]

theorem towardZero_zpow_of_neg {b e : ℤ} (hb : 1 < b.natAbs) (he : e < 0) :
    towardZero ((b : ℚ) ^ e) = 0 := by
  have h : (1 : ℚ) < |(b : ℚ)| := by
    rw [← Int.cast_abs, Int.abs_eq_natAbs]
    exact_mod_cast hb
  apply towardZero_of_abs_lt_one
  rw [abs_zpow]
  exact zpow_lt_one_of_neg₀ h he

theorem towardZero_zpow_of_nonneg (b : ℤ) {e : ℤ} (he : 0 ≤ e) :
    towardZero ((b : ℚ) ^ e) = b ^ e.toNat := by
  obtain ⟨n, rfl⟩ := Int.eq_ofNat_of_zero_le he
  rw [zpow_natCast, ← Int.cast_pow, towardZero_intCast, Int.toNat_natCast]

theorem towardZero_zpow_of_unit {b : ℤ} (hb : b.natAbs = 1) (e : ℤ) :
    towardZero ((b : ℚ) ^ e) = if e % 2 = 0 then 1 else b := by
  have h1 : towardZero 1 = 1 := by exact_mod_cast towardZero_intCast 1
  obtain rfl | rfl := Int.natAbs_eq_iff.mp hb
  · simp [h1]
  · rcases Int.even_or_odd e with h | h
    · simp [h.neg_one_zpow, Int.even_iff.mp h, h1]
    · simp [h.neg_one_zpow, Int.odd_iff.mp h, h1, towardZero_neg]

namespace Arithmetic

open Grammar Outcome Binary64

/-- What an operation makes of two integers. There is no quotient by zero and no negative power of
zero. -/
inductive Yields (a b : Int) : Symbol → Int → Prop
  | sum : Yields a b .add (a + b)
  | difference : Yields a b .subtract (a - b)
  | product : Yields a b .multiply (a * b)
  | quotient (h : b ≠ 0) : Yields a b .divide (towardZero (a / b))
  | power (h : a = 0 → 0 ≤ b) : Yields a b .power (towardZero ((a : ℚ) ^ b))

/-- Why an operation is not carried out on two integers. A power that grows is refused because its
exponent reaches the limit or because its estimated size is beyond it. -/
inductive Refuses (limit : Nat) (a b : Int) : Symbol → Error → Prop
  | divisionByZero (h : b = 0) : Refuses limit a b .divide .divisionByZero
  | zeroToNegative (ha : a = 0) (hb : b < 0) :
    Refuses limit a b .power (.zeroToNegative .integer)
  | exponent (ha : 1 < a.natAbs) (hb : 0 ≤ b) (hl : limit ≤ b) :
    Refuses limit a b .power (.overBudget a b limit)
  | size (ha : 1 < a.natAbs) (hb : 0 ≤ b) {size : Int} (hs : sizeEstimate a b = .ok size)
    (hl : limit < size) : Refuses limit a b .power (.overBudget a b limit)

/-- Why an operation on two integers has no result: it is refused, or it is a power whose size is
past what can be estimated. -/
inductive Stops (limit : Nat) (a b : Int) : Symbol → Error → Prop
  | refused {s : Symbol} {err : Error} (h : Refuses limit a b s err) : Stops limit a b s err
  | overrun {c : Conversion} (h : Overruns limit a b c) : Stops limit a b .power (.conversion c)

variable {limit : Nat} {a b v : Int} {c : Conversion} {s : Symbol} {err err' : Error} {r : Result}

theorem yields_unique {v w : Int} (hv : Yields a b s v) (hw : Yields a b s w) : v = w := by
  cases hv <;> cases hw <;> rfl

theorem not_refuses_conversion : ¬ Refuses limit a b s (.conversion c) :=
  nofun

theorem overruns_of_stops (h : Stops limit a b s (.conversion c)) : Overruns limit a b c := by
  cases h with
  | refused h => exact absurd h not_refuses_conversion
  | overrun h => exact h

theorem integerPower_of_grows (ha : 1 < a.natAbs) (hb : 0 ≤ b) :
    integerPower (fixed limit) a b = (budget limit a b).map fun _ => a ^ b.toNat := by
  have hz : a ≠ 0 := by omega
  rw [integerPower, if_neg (by omega), if_neg hz, if_neg (by omega)]
  have hx : (ofExcept (budget limit a b) : Except Error Unit) = budget limit a b := ofExcept_eq _
  change (ofExcept (budget limit a b) : Except Error Unit) >>= _ = _
  rw [hx]
  cases budget limit a b <;> rfl

theorem integerPower_of_exponent (ha : 1 < a.natAbs) (hb : 0 ≤ b) (hl : limit ≤ b) :
    integerPower (fixed limit) a b = .error (.overBudget a b limit) := by
  rw [integerPower_of_grows ha hb, budget, if_pos hl]
  rfl

theorem integerPower_of_sizeEstimate (ha : 1 < a.natAbs) (hb : 0 ≤ b) (hl : b < limit) {size : Int}
    (hs : sizeEstimate a b = .ok size) :
    integerPower (fixed limit) a b =
      if size ≤ limit then .ok (a ^ b.toNat) else .error (.overBudget a b limit) := by
  rw [integerPower_of_grows ha hb, budget, if_neg (Int.not_le.mpr hl), hs]
  change Except.map _ (if _ then _ else _) = _
  by_cases h : size ≤ limit
  · rw [if_neg (Int.not_lt.mpr h), if_pos h]
    rfl
  · rw [if_pos (Int.not_le.mp h), if_neg h]
    rfl

theorem integerPower_of_not_sizeEstimate (ha : 1 < a.natAbs) (hb : 0 ≤ b) (hl : b < limit)
    (hs : sizeEstimate a b = .error err) : integerPower (fixed limit) a b = .error err := by
  rw [integerPower_of_grows ha hb, budget, if_neg (Int.not_le.mpr hl), hs]
  rfl

theorem integerPower_cases_of_grows (limit : Nat) (ha : 1 < a.natAbs) (hb : 0 ≤ b) :
    integerPower (fixed limit) a b = .ok (a ^ b.toNat) ∨
    ∃ err, integerPower (fixed limit) a b = .error err ∧ Stops limit a b .power err := by
  by_cases hl : (limit : Int) ≤ b
  · exact .inr ⟨_, integerPower_of_exponent ha hb hl, .refused (.exponent ha hb hl)⟩
  have hl : b < limit := Int.not_le.mp hl
  cases hs : sizeEstimate a b with
  | error err =>
    obtain ⟨c, rfl, hc⟩ := exists_overruns_of_sizeEstimate ha hb hl hs
    exact .inr ⟨_, integerPower_of_not_sizeEstimate ha hb hl hs, .overrun hc⟩
  | ok size =>
    rw [integerPower_of_sizeEstimate ha hb hl hs]
    by_cases h : size ≤ limit
    · rw [if_pos h]
      exact .inl rfl
    · rw [if_neg h]
      exact .inr ⟨_, rfl, .refused (.size ha hb hs (Int.not_le.mp h))⟩

theorem integerPower_zero (limit : Nat) {e : Int} (he : 0 ≤ e) :
    integerPower (fixed limit) 0 e = .ok (0 ^ e.toNat) := by
  rw [integerPower, if_neg (by decide), if_pos rfl, if_neg (Int.not_lt.mpr he)]
  by_cases h0 : e = 0
  · rw [if_pos h0, h0]
    rfl
  · rw [if_neg h0, zero_pow (by omega)]
    rfl

theorem integerPower_cases (limit : Nat) (a b : Int) :
    integerPower (fixed limit) a b = .ok (towardZero ((a : ℚ) ^ b)) ∧ (a = 0 → 0 ≤ b) ∨
    ∃ err, integerPower (fixed limit) a b = .error err ∧ Stops limit a b .power err := by
  by_cases hu : a.natAbs = 1
  · refine .inl ⟨?_, by omega⟩
    rw [integerPower, if_pos hu, towardZero_zpow_of_unit hu]
    rfl
  by_cases hb : b < 0
  · by_cases hz : a = 0
    · refine .inr ⟨.zeroToNegative .integer, ?_, .refused (.zeroToNegative hz hb)⟩
      rw [integerPower, if_neg hu, if_pos hz, if_pos hb]
      rfl
    · refine .inl ⟨?_, fun h => absurd h hz⟩
      have ha : 1 < a.natAbs := by omega
      rw [integerPower, if_neg hu, if_neg hz, if_pos hb, towardZero_zpow_of_neg ha hb]
      rfl
  have hb : 0 ≤ b := Int.not_lt.mp hb
  rw [towardZero_zpow_of_nonneg a hb]
  by_cases hz : a = 0
  · subst hz
    exact .inl ⟨integerPower_zero limit hb, fun _ => hb⟩
  · have ha : 1 < a.natAbs := by omega
    obtain h | h := integerPower_cases_of_grows limit ha hb
    · exact .inl ⟨h, fun _ => hb⟩
    · exact .inr h

theorem operate_power :
    operate (fixed limit) .power (.ofInt a) (.ofInt b) =
      (integerPower (fixed limit) a b).map Result.ofInt := rfl

theorem operate_divide : operate (fixed limit) .divide (.ofInt a) (.ofInt b) =
    if b = 0 then .error .divisionByZero else .ok (.ofInt (a.tdiv b)) := by
  change (ofExcept (binary _ _ _) : Except Error Result) = _
  rw [ofExcept_eq]
  by_cases hb : b = 0
  · subst hb
    rfl
  · have hz : ¬ (Kind.symbol .divide = .symbol .divide ∧
        (Operand.ofResult (.ofInt b)).value.isZero = true) := by
      rintro ⟨-, h⟩
      exact hb (of_decide_eq_true h)
    rw [if_neg hb, binary, if_neg hz]
    change integerBinary (.symbol .divide) a b = _
    rw [integerBinary, if_neg hb]

theorem operate_cases (limit : Nat) (a b : Int) (hl : s ≠ .leftParen) (hr : s ≠ .rightParen) :
    (∃ v, operate (fixed limit) s (.ofInt a) (.ofInt b) = .ok (.ofInt v) ∧ Yields a b s v) ∨
    ∃ err, operate (fixed limit) s (.ofInt a) (.ofInt b) = .error err ∧ Stops limit a b s err := by
  cases s with
  | add => exact .inl ⟨a + b, rfl, .sum⟩
  | subtract => exact .inl ⟨a - b, rfl, .difference⟩
  | multiply => exact .inl ⟨a * b, rfl, .product⟩
  | divide =>
    rw [operate_divide]
    by_cases hb : b = 0
    · rw [if_pos hb]
      exact .inr ⟨_, rfl, .refused (.divisionByZero hb)⟩
    · rw [if_neg hb, ← towardZero_div]
      exact .inl ⟨_, rfl, .quotient hb⟩
  | power =>
    rw [operate_power]
    obtain ⟨h, hv⟩ | ⟨err, h, he⟩ := integerPower_cases limit a b
    · rw [h]
      exact .inl ⟨_, rfl, .power hv⟩
    · rw [h]
      exact .inr ⟨err, rfl, he⟩
  | leftParen => exact absurd rfl hl
  | rightParen => exact absurd rfl hr

theorem operate_of_refuses (h : Refuses limit a b s err) :
    operate (fixed limit) s (.ofInt a) (.ofInt b) = .error err := by
  cases h with
  | divisionByZero h => rw [operate_divide, if_pos h]
  | zeroToNegative ha hb =>
    rw [operate_power, integerPower, if_neg (by omega), if_pos ha, if_pos hb]
    rfl
  | exponent ha hb hl =>
    rw [operate_power, integerPower_of_exponent ha hb hl]
    rfl
  | size ha hb hs hl =>
    rw [operate_power]
    by_cases hle : (limit : Int) ≤ b
    · rw [integerPower_of_exponent ha hb hle]
      rfl
    · rw [integerPower_of_sizeEstimate ha hb (Int.not_le.mp hle) hs, if_neg (Int.not_le.mpr hl)]
      rfl

theorem operate_of_stops (h : Stops limit a b s err) :
    operate (fixed limit) s (.ofInt a) (.ofInt b) = .error err := by
  cases h with
  | refused h => exact operate_of_refuses h
  | overrun h =>
    obtain ⟨ha, hb, hl, -⟩ := immeasurable_of_overruns h
    rw [operate_power, integerPower_of_not_sizeEstimate ha hb hl (sizeEstimate_of_overruns h)]
    rfl

theorem stops_unique (h : Stops limit a b s err) (h' : Stops limit a b s err') : err = err' :=
  Except.error.inj ((operate_of_stops h).symm.trans (operate_of_stops h'))

end Arithmetic

end Abacus
