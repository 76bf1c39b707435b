import Abacus.Proofs.Binary64.Magnitude
import Abacus.Proofs.Escape

namespace Abacus.Arithmetic

open Grammar Outcome Binary64

/-- The conversions that have no answer because a number is too large. -/
def Conversion.IsOverflow (c : Conversion) : Prop := c = .integerTooLarge ∨ c = .infinite

/-- What is too large where the size of a power can't be measured: a factor of the estimate, or the
estimate itself. -/
inductive Overruns (limit : Nat) (b e : Int) : Conversion → Prop
  | factor (h : Immeasurable limit b e)
    (hx : ∀ x, Parts.ofInt? e = some x → Parts.isFinite (Logarithm.log2 b.natAbs) = false) :
    Overruns limit b e .integerTooLarge
  | product (h : Immeasurable limit b e) {x : Float} (hx : Parts.ofInt? e = some x)
    (hl : Parts.isFinite (Logarithm.log2 b.natAbs) = true) : Overruns limit b e .infinite

variable {limit : Nat} {b e : Int} {c : Conversion} {err : Error} {x l : Float}

theorem immeasurable_of_overruns (h : Overruns limit b e c) : Immeasurable limit b e := by
  cases h with
  | factor h _ => exact h
  | product h _ _ => exact h

theorem isOverflow_of_overruns (h : Overruns limit b e c) : c.IsOverflow := by
  cases h with
  | factor _ _ => exact .inl rfl
  | product _ _ _ => exact .inr rfl

theorem estimate_of_isFinite (hx : Parts.isFinite x = true) (hl : Parts.isFinite l = true) :
    estimate x l = if Parts.isFinite (x * l) then .ok (Parts.truncate (x * l) + 1)
      else .error (.conversion .infinite) := by
  have hn : Parts.isNaN (x * l) = false := isNaN_mul hx hl
  simp only [estimate, hl, if_true, truncate, hn, Bool.false_eq_true, if_false]
  split <;> rfl

/-- A base of at most 2 ^ 51 bits is not too large. Only the exponent and the product can be. -/
theorem sizeEstimate_of_log2_lt (hb : b.natAbs.log2 < 2 ^ 51) (hx : Parts.ofInt? e = some x) :
    sizeEstimate b e = (truncate (x * Logarithm.log2 b.natAbs)).map (· + 1) := by
  rw [sizeEstimate_of_some hx, estimate, if_pos (Logarithm.isFinite_log2 hb)]

theorem sizeEstimate_of_overruns (h : Overruns limit b e c) :
    sizeEstimate b e = .error (.conversion c) := by
  cases h with
  | factor h hx =>
    cases he : Parts.ofInt? e with
    | none => exact sizeEstimate_of_none he
    | some x =>
      rw [sizeEstimate_of_some he, estimate, hx x he]
      rfl
  | product h hx hl =>
    rw [sizeEstimate_of_some hx, estimate_of_isFinite (isFinite_of_ofInt? hx) hl,
      h.infinite _ hx]
    rfl

theorem exists_overruns (h : Immeasurable limit b e) : ∃ c, Overruns limit b e c := by
  by_cases hx : ∃ x, Parts.ofInt? e = some x ∧ Parts.isFinite (Logarithm.log2 b.natAbs) = true
  · obtain ⟨x, hx, hl⟩ := hx
    exact ⟨_, .product h hx hl⟩
  · exact ⟨_, .factor h fun x he => Bool.eq_false_of_not_eq_true fun hl => hx ⟨x, he, hl⟩⟩

theorem exists_overruns_of_sizeEstimate (hb : 1 < b.natAbs) (he : 0 ≤ e) (hl : e < limit)
    (h : sizeEstimate b e = .error err) : ∃ c, err = .conversion c ∧ Overruns limit b e c := by
  have hi : Immeasurable limit b e := by
    refine ⟨hb, he, hl, fun x hx => ?_⟩
    by_contra hf
    rw [Bool.not_eq_false] at hf
    rw [sizeEstimate_of_some hx, estimate_of_isFinite (isFinite_of_ofInt? hx)
      (Operations.isFinite_of_isFinite_mul hf), if_pos hf] at h
    cases h
  obtain ⟨c, hc⟩ := exists_overruns hi
  cases (sizeEstimate_of_overruns hc).symm.trans h
  exact ⟨c, rfl, hc⟩

end Abacus.Arithmetic
