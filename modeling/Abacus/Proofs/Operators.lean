import Abacus.Proofs.IntegerOperations

namespace Abacus

open Arithmetic Grammar

namespace Arithmetic

section

variable {α β : Type} {x : Except Error α} {limit : Nat} {s : Symbol}

/-- The computation comes upon no operator that it does not know. -/
def Knows (x : Except Error α) : Prop := ∀ k, x ≠ .error (.unknownOperator k)

@[simp]
theorem knows_ok (a : α) : Knows (.ok a : Except Error α) := nofun

@[simp]
theorem knows_error {e : Error} :
    Knows (.error e : Except Error α) ↔ ∀ k, e ≠ .unknownOperator k := by
  simp [Knows]

theorem Knows.bind {f : α → Except Error β} (hx : Knows x) (hf : ∀ a, Knows (f a)) :
    Knows (x >>= f) := by
  cases x with
  | error e =>
    intro k hk
    cases hk
    exact hx k rfl
  | ok a => exact hf a

theorem knows_widen (d : Datum) : Knows (widen d) := by
  simp only [widen_eq]
  cases d.number? with
  | none => simp
  | some n =>
    simp only [Option.elim_some]
    split
    · simp
    · cases Binary64.Parts.ofInt? _ <;> simp

theorem knows_truncate (x : Float) : Knows (truncate x) := by
  unfold truncate
  split
  · simp
  · split <;> simp

theorem knows_whole (d : Datum) : Knows (whole d) := by
  unfold whole
  split
  · simp
  · simp
  · exact knows_truncate _

theorem knows_finite (y : Float) (s : Symbol) (z w : Float) : Knows (finite y s z w) := by
  unfold finite
  split <;> simp

theorem knows_decimalBinary (hs : s ∈ [.add, .subtract, .multiply, .divide]) (x y : Float) :
    Knows (decimalBinary (.symbol s) x y) := by
  cases s with
  | add | subtract | multiply | divide => exact knows_finite _ _ _ _
  | power | leftParen | rightParen => simp at hs

theorem knows_integerBinary (hs : s ∈ [.add, .subtract, .multiply, .divide]) (i j : Int) :
    Knows (integerBinary (.symbol s) i j) := by
  cases s with
  | add | subtract | multiply => exact knows_ok _
  | divide =>
    rw [integerBinary]
    split <;> simp
  | power | leftParen | rightParen => simp at hs

theorem knows_binary (hs : s ∈ [.add, .subtract, .multiply, .divide]) (l r : Operand) :
    Knows (binary (.symbol s) l r) := by
  unfold binary
  split
  · simp
  · split
    · exact (knows_widen _).bind fun x => (knows_widen _).bind fun y => knows_decimalBinary hs x y
    · exact (knows_whole _).bind fun i => (knows_whole _).bind fun j => knows_integerBinary hs i j

theorem knows_decimalPower (x y : Float) : Knows (decimalPower x y) := by
  unfold decimalPower
  split
  · exact knows_finite _ _ _ _
  all_goals simp

theorem knows_integerPower (b e : Int) : Knows (integerPower (fixed limit) b e) := by
  obtain ⟨h, -⟩ | ⟨err, h, hs⟩ := integerPower_cases limit b e
  · rw [h]
    exact knows_ok _
  · rw [h]
    cases hs with
    | refused hr => cases hr <;> simp
    | overrun _ => simp

theorem knows_power (l r : Operand) : Knows (power (fixed limit) l r) := by
  unfold power
  split
  · rw [ofExcept_eq]
    exact (knows_widen _).bind fun x => (knows_widen _).bind fun y => knows_decimalPower x y
  · rw [ofExcept_eq]
    refine Knows.bind ?_ fun p => ?_
    · exact (knows_whole _).bind fun i => (knows_whole _).bind fun j => knows_ok _
    · exact (knows_integerPower p.1 p.2).bind fun n => knows_ok _

theorem knows_operate (hl : s ≠ .leftParen) (hr : s ≠ .rightParen) (a b : Result) :
    Knows (operate (fixed limit) s a b) := by
  cases s with
  | power => exact knows_power _ _
  | add | subtract | multiply | divide =>
    rw [operate, ofExcept_eq]
    · exact knows_binary (by decide) _ _
    · exact nofun
  | leftParen => exact absurd rfl hl
  | rightParen => exact absurd rfl hr

end

end Arithmetic

namespace Grammar

variable {limit : Nat}

theorem knows_operation {s : Symbol} {l r : Formula} (hp : s ≠ .leftParen) (hq : s ≠ .rightParen)
    (hl : Knows (l.evaluate limit)) (hr : Knows (r.evaluate limit)) :
    Knows ((Formula.operation s l r).evaluate limit) := by
  rw [evaluate_operation]
  apply hl.bind
  intro a
  apply hr.bind
  intro b
  exact knows_operate hp hq a b

theorem knows_formula {v : Level} (d : Derivation v) : Knows (d.formula.evaluate limit) := by
  induction d with
  | sum l op r ihl ihr => apply knows_operation _ _ ihl ihr <;> cases op <;> decide
  | product l op r ihl ihr => apply knows_operation _ _ ihl ihr <;> cases op <;> decide
  | power b e ihb ihe => exact knows_operation (by decide) (by decide) ihb ihe
  | term t ih => exact ih
  | factor f ih => exact ih
  | base b ih => exact ih
  | literal n => exact knows_ok _
  | group e ih => exact ih

end Grammar

end Abacus
