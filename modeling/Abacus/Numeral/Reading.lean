import Abacus.Text.Blank
import Abacus.Text.Digit
import Abacus.Text.Quoted

namespace Abacus.Numeral

open Text

inductive Fault
  | notInteger (text : List Char)
  | notDecimal (text : List Char)
  | tooManyDigits (count : Nat)
  | unwritable
  deriving DecidableEq, Repr

/-- The most digits an integer may have, both when it is read and when it is written. -/
def longest : Nat := 4300

namespace Fault

def message : Fault → String
  | notInteger s => "invalid literal for int() with base 10: " ++ .ofList ((Quoted.quote s).take 200)
  | notDecimal s => "could not convert string to float: " ++ .ofList (Quoted.quote s)
  | tooManyDigits n =>
    s!"Exceeds the limit ({longest} digits) for integer string conversion: value has {n} digits; " ++
      "use sys.set_int_max_str_digits() to increase the limit"
  | unwritable =>
    s!"Exceeds the limit ({longest} digits) for integer string conversion; " ++
      "use sys.set_int_max_str_digits() to increase the limit"

end Fault

namespace Reading

def latin (c : Char) : Char := ((Digit.value? c).map Nat.digitChar).getD c

def unify (s : List Char) : List Char := (Blank.trim Blank.isPadding s).map latin

/-- Strike out the underscores, each of which has to stand between two digits. The first argument is
the character before the text. -/
def strike : Char → List Char → Option (List Char)
  | before, [] => if before = '_' then none else some []
  | before, c :: cs =>
    if c = '_' then if Digit.isAscii before then strike c cs else none
    else if before = '_' && !Digit.isAscii c then none
    else (strike c cs).map (c :: ·)

def sign : List Char → Bool × List Char
  | '-' :: s => (true, s)
  | '+' :: s => (false, s)
  | s => (false, s)

def value (digits : List Char) : Nat := Nat.ofDigitChars 10 digits 0

theorem strike_eq_self {before : Char} {s : List Char} (hb : before ≠ '_') (h : '_' ∉ s) :
    strike before s = some s := by
  induction s generalizing before with
  | nil => simp [strike, hb]
  | cons c s ih =>
    have hc : c ≠ '_' := fun e => h (e ▸ List.mem_cons_self)
    simp [strike, hc, hb, ih hc fun m => h (List.mem_cons_of_mem _ m)]

theorem latin_of_isAscii {c : Char} (h : Digit.isAscii c = true) : latin c = c := by
  have h' := h
  simp only [Digit.isAscii, Bool.and_eq_true, decide_eq_true_eq] at h'
  have h₁ : 48 ≤ c.toNat := h'.1
  have h₂ : c.toNat ≤ 57 := h'.2
  rw [latin, Digit.value?_of_isAscii h, Option.map_some, Option.getD_some]
  apply Char.toNat_inj.mp
  rw [Nat.toNat_digitChar_of_lt_ten (by omega)]
  omega

end Reading

end Abacus.Numeral
