import Abacus.Proofs.Numeral.Positional

namespace Abacus.Numeral

open Text Reading

structure Scale where
  negative : Bool
  digits : List Char
  digits_ne_nil : digits ≠ []
  isAscii_digits : ∀ c ∈ digits, Digit.isAscii c = true

namespace Scale

def text (s : Scale) : List Char := 'e' :: (if s.negative then '-' else '+') :: s.digits

def exponent (s : Scale) : Int := if s.negative then -value s.digits else value s.digits

theorem text_injective : Function.Injective text := by
  intro s t h
  obtain ⟨hs, hd⟩ := List.cons.inj (List.cons.inj h).2
  have hn : s.negative = t.negative := by
    cases hs' : s.negative <;> cases ht' : t.negative <;> simp [hs', ht'] at hs ⊢
  cases s
  cases t
  cases hn
  cases hd
  rfl

def ofInt (e : Int) (width : Nat) : Scale where
  negative := e < 0
  digits := List.replicate (width - (Nat.toDigits 10 e.natAbs).length) '0' ++
    Nat.toDigits 10 e.natAbs
  digits_ne_nil := List.append_ne_nil_of_right_ne_nil _ Nat.toDigits_ne_nil
  isAscii_digits := by
    intro c hc
    obtain hc | hc := List.mem_append.mp hc
    · rw [List.eq_of_mem_replicate hc]
      decide
    · exact isAscii_of_mem_toDigits hc

theorem exponent_ofInt (e : Int) (width : Nat) : (ofInt e width).exponent = e := by
  simp only [exponent, ofInt, value_zeros_append, value_toDigits, decide_eq_true_eq]
  split <;> omega

end Scale

namespace Literal

def toRat (l : Literal) : ℚ := (if l.negative then -1 else 1) * l.decimal.toRat

theorem text_eq (l : Literal) : l.text = (if l.negative then ['-'] else []) ++ l.figures := by
  unfold text
  split <;> rfl

theorem ne_letter_of_mem_text {l : Literal} {c : Char} (hc : c ∈ l.text) : c ≠ 'e' := by
  rintro rfl
  exact absurd (mem_text hc) (by decide)

end Literal

/-- A number as it may be printed: a literal, and perhaps a power of ten by which it is
multiplied. -/
structure Printed extends Literal where
  scale : Option Scale

namespace Printed

def text (p : Printed) : List Char := p.toLiteral.text ++ (p.scale.map Scale.text).getD []

def exponent (p : Printed) : Int := (p.scale.map Scale.exponent).getD 0

def toRat (p : Printed) : ℚ := p.toLiteral.toRat * 10 ^ p.exponent

def decimal (p : Printed) : Decimal :=
  ⟨p.toLiteral.decimal.mantissa, p.toLiteral.decimal.exponent + p.exponent⟩

theorem toRat_eq (p : Printed) : p.toRat = (if p.negative then -1 else 1) * p.decimal.toRat := by
  rw [toRat, Literal.toRat, mul_assoc, Decimal.toRat, Decimal.toRat, decimal,
    zpow_add₀ (by norm_num), mul_assoc]

theorem takeWhile_text (p : Printed) : p.text.takeWhile (· ≠ 'e') = p.toLiteral.text := by
  have hl : ∀ c ∈ p.toLiteral.text, decide (c ≠ 'e') = true := fun c hc =>
    decide_eq_true (Literal.ne_letter_of_mem_text hc)
  rw [text, List.takeWhile_append_of_pos hl]
  cases p.scale with
  | none => simp
  | some s => simp [Scale.text]

/-- A text is printed in one way only, so it stands for one number. -/
theorem text_injective : Function.Injective text := by
  intro p q h
  have hl : p.toLiteral.text = q.toLiteral.text := by
    rw [← p.takeWhile_text, h, q.takeWhile_text]
  have hs : (p.scale.map Scale.text).getD [] = (q.scale.map Scale.text).getD [] := by
    rw [text, text, hl] at h
    exact List.append_cancel_left h
  have hlit : p.toLiteral = q.toLiteral := Literal.text_injective hl
  have hscale : p.scale = q.scale := by
    cases hp : p.scale <;> cases hq : q.scale <;> rw [hp, hq] at hs
    · cases hs
    · cases hs
    · rw [Scale.text_injective hs]
  cases p
  cases q
  cases hlit
  cases hscale
  rfl

end Printed

end Abacus.Numeral
