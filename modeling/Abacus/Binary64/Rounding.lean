namespace Abacus.Binary64.Rounding

/-- The magnitude bits of infinity. Smaller ones belong to finite numbers, in order of size. -/
def infinity : Nat := 0x7ff0000000000000

/-- How many times the least positive number goes into one. -/
def grain : Nat := 1 <<< 1074

/-- The number with these magnitude bits, as a multiple of the least positive one. -/
def units (bits : Nat) : Nat :=
  if bits < 0x10000000000000 then bits
  else (0x10000000000000 + bits % 0x10000000000000) <<< (bits / 0x10000000000000 - 1)

def divRound (num den : Nat) : Nat :=
  let q := num / den
  let r := num % den
  if 2 * r < den then q else if den < 2 * r then q + 1 else q + q % 2

/-- The power of two that leaves 53 bits of the quotient, none if it has no more than these. -/
def place (num den : Nat) : Nat := (num / den).log2 - 52

/-- The magnitude bits of the binary64 number nearest to `num / den`. A mantissa that rounds up to
54 bits carries into the exponent field, which is the right encoding of the next binade. -/
def nearest (num den : Nat) : Nat :=
  let scaled := num * grain
  let k := place scaled den
  min (k * 0x10000000000000 + divRound scaled (den <<< k)) infinity

theorem nearest_le (num den : Nat) : nearest num den ≤ infinity := Nat.min_le_right ..

theorem divRound_mul_right (num den c : Nat) (hc : 0 < c) :
    divRound (num * c) (den * c) = divRound num den := by
  have h₁ : 2 * (num % den * c) < den * c ↔ 2 * (num % den) < den := by
    rw [← Nat.mul_assoc, Nat.mul_lt_mul_right hc]
  have h₂ : den * c < 2 * (num % den * c) ↔ den < 2 * (num % den) := by
    rw [← Nat.mul_assoc, Nat.mul_lt_mul_right hc]
  simp only [divRound, Nat.mul_div_mul_right _ _ hc, Nat.mul_mod_mul_right, h₁, h₂]

theorem place_mul_right (num den c : Nat) (hc : 0 < c) :
    place (num * c) (den * c) = place num den := by
  rw [place, place, Nat.mul_div_mul_right _ _ hc]

theorem nearest_mul_right (num den c : Nat) (hc : 0 < c) :
    nearest (num * c) (den * c) = nearest num den := by
  have hs : num * c * grain = num * grain * c := Nat.mul_right_comm ..
  have hd (k : Nat) : (den * c) <<< k = den <<< k * c := by
    rw [Nat.shiftLeft_eq, Nat.shiftLeft_eq, Nat.mul_right_comm]
  simp only [nearest, hs, place_mul_right _ _ _ hc, hd, divRound_mul_right _ _ _ hc]

theorem nearest_congr {n d n' d' : Nat} (hd : 0 < d) (hd' : 0 < d') (h : n * d' = n' * d) :
    nearest n d = nearest n' d' := by
  rw [← nearest_mul_right n d d' hd', h, Nat.mul_comm d d', nearest_mul_right n' d' d hd]

theorem nearest_zero (den : Nat) : nearest 0 den = 0 := by
  simp [nearest, place, divRound]

end Abacus.Binary64.Rounding
