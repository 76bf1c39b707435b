import Abacus.Proofs.Calculation
import Abacus.Proofs.Escape
import Abacus.Proofs.Grammar.Rejection
import Abacus.Proofs.Tree.Typing

namespace Abacus

open Arithmetic Grammar Lexer

/-- The failures that are told in words of their own. A rejected token that cannot be written out has
no message. -/
def Failure.IsReported : Failure → Prop
  | lexical .. => True
  | parse (.rejected _) => True
  | parse (.unwritable _) => False
  | arithmetic e => e.IsReported

namespace Grammar

variable {limit : Nat} {s u : Symbol} {a b v : Result} {l r x : Formula}

/-- In the course of its evaluation, the formula applies an operation to these two results. -/
inductive Formula.Applies (limit : Nat) (s : Symbol) (a b : Result) : Formula → Prop
  | left {u : Symbol} {l r : Formula} : l.Applies limit s a b → (operation u l r).Applies limit s a b
  | right {u : Symbol} {l r : Formula} {v : Result} : l.evaluate limit = .ok v →
      r.Applies limit s a b → (operation u l r).Applies limit s a b
  | here {l r : Formula} : l.evaluate limit = .ok a → r.evaluate limit = .ok b →
      (operation s l r).Applies limit s a b

theorem hasType_of_applies (h : x.Applies limit s a b) : ∃ t u, a.HasType t ∧ b.HasType u := by
  induction h with
  | left _ ih => exact ih
  | right _ _ ih => exact ih
  | here ha hb => exact ⟨_, _, hasType_of_evaluate ha, hasType_of_evaluate hb⟩

theorem escapes_evaluate_iff_applies : Escapes (x.evaluate limit) ↔
    ∃ s a b, x.Applies limit s a b ∧ Escapes (operate (fixed limit) s a b) := by
  induction x with
  | literal n =>
    refine iff_of_false (not_escapes_ok _) ?_
    rintro ⟨s, a, b, h, -⟩
    cases h
  | operation u l r ihl ihr =>
    simp only [evaluate_operation, escapes_bind, ihl, ihr]
    constructor
    · rintro (⟨s, a, b, h, he⟩ | ⟨v, hv, ⟨s, a, b, h, he⟩ | ⟨w, hw, he⟩⟩)
      · exact ⟨s, a, b, .left h, he⟩
      · exact ⟨s, a, b, .right hv h, he⟩
      · exact ⟨u, v, w, .here hv hw, he⟩
    · rintro ⟨s, a, b, h, he⟩
      cases h with
      | left h => exact .inl ⟨s, a, b, h, he⟩
      | right hv h => exact .inr ⟨_, hv, .inl ⟨s, a, b, h, he⟩⟩
      | here ha hb => exact .inr ⟨a, ha, .inr ⟨b, hb, he⟩⟩

theorem escapes_evaluate : Escapes (x.evaluate limit) ↔
    ∃ m n, x.Applies limit .power (.ofInt m) (.ofInt n) ∧ Immeasurable limit m n := by
  rw [escapes_evaluate_iff_applies]
  constructor
  · rintro ⟨s, a, b, h, he⟩
    obtain ⟨t, u, ha, hb⟩ := hasType_of_applies h
    obtain ⟨rfl, m, n, rfl, rfl, hi⟩ := (escapes_operate ha hb).mp he
    exact ⟨m, n, h, hi⟩
  · rintro ⟨m, n, h, hi⟩
    obtain ⟨t, u, hm, hn⟩ := hasType_of_applies h
    exact ⟨.power, .ofInt m, .ofInt n, h, (escapes_operate hm hn).mpr ⟨rfl, m, n, rfl, rfl, hi⟩⟩

end Grammar

variable {s : Settings} {source : List Char} {ts : List Token} {f : Failure}

theorem isReported_of_tree (h : Calculation.tree s source = .error f) : f.IsReported := by
  obtain h | ⟨ts, ht, hp⟩ := Outcome.bind_eq_error_iff.mp h
  · obtain ⟨e, -, rfl⟩ := Outcome.mapError_eq_error_iff.mp h
    trivial
  · have hts := Outcome.mapError_eq_ok_iff.mp ht
    obtain ⟨e, he, rfl⟩ := Outcome.mapError_eq_error_iff.mp hp
    obtain ⟨j, hj, rfl⟩ := Outcome.mapError_eq_error_iff.mp he
    obtain ⟨front, back, rfl, hfound, -⟩ := Parser.document_eq_error hj
    unfold Parser.Rejection.toError
    split
    · trivial
    · trivial
    · next t hf _ =>
      have hmem : t ∈ back := List.mem_of_head? (hfound.symm.trans hf)
      rw [if_pos (isWritable_of_scan hts (List.mem_append_right front hmem))]
      trivial

/-- Under every setting of the variables, a calculation gives a result or a reported failure, unless it
comes to a power of integers that has no size to be estimated. -/
theorem calculate_not_reported_iff (env : Settings.Environment) (source : List Char) :
    (∃ f, Calculation.calculate env.settings source = .error f ∧ ¬ f.IsReported) ↔
      ∃ e m n, Calculation.tree env.settings source = .ok e ∧
        e.derivation.formula.Applies env.settings.maxIntegerBits .power (.ofInt m) (.ofInt n) ∧
        Immeasurable env.settings.maxIntegerBits m n := by
  cases ht : Calculation.tree env.settings source with
  | error f =>
    refine iff_of_false ?_ ?_
    · rintro ⟨f', h, hf⟩
      rw [Calculation.calculate, ht] at h
      cases h
      exact hf (isReported_of_tree ht)
    · rintro ⟨e, m, n, he, -⟩
      cases he
  | ok e =>
    rw [calculate_of_tree ht]
    have he : (∃ f, (e.derivation.formula.evaluate env.settings.maxIntegerBits).mapError
          Failure.arithmetic = .error f ∧ ¬ f.IsReported) ↔
        Escapes (e.derivation.formula.evaluate env.settings.maxIntegerBits) := by
      simp [Outcome.mapError_eq_error_iff, Escapes, Failure.IsReported]
    rw [he, escapes_evaluate]
    constructor
    · rintro ⟨m, n, h⟩
      exact ⟨e, m, n, rfl, h⟩
    · rintro ⟨e', m, n, he', h⟩
      cases he'
      exact ⟨m, n, h⟩

/-- A limit past the range of binary64 lets an exponent through to the estimate that is past it too. -/
theorem calculate_not_reported_of_limit :
    let env : Settings.Environment := ⟨none, some ('1' :: '5' :: List.replicate 308 '0')⟩
    let f : Failure := .arithmetic (.conversion .integerTooLarge)
    Calculation.calculate env.settings ('4' :: '^' :: '1' :: List.replicate 309 '0') = .error f ∧
      ¬ f.IsReported :=
  ⟨by decide +kernel, id⟩

end Abacus
