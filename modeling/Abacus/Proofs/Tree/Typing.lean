import Abacus.Node
import Abacus.Proofs.Arithmetic

namespace Abacus

open Arithmetic Grammar

theorem join_assoc (a b c : NumberType) : (a.join b).join c = a.join (b.join c) := by
  cases a <;> cases b <;> cases c <;> rfl

theorem join_integer (a : NumberType) : a.join .integer = a := by
  cases a <;> rfl

def HasDecimal (ts : List Token) : Prop := ∃ t ∈ ts, t.kind = .number .decimal

variable {ts us : List Token} {x : Formula} {r : Result} {limit : Nat}

theorem hasDecimal_append : HasDecimal (ts ++ us) ↔ HasDecimal ts ∨ HasDecimal us := by
  simp only [HasDecimal, List.mem_append, or_and_right, exists_or]

theorem hasDecimal_symbol (s : Symbol) : HasDecimal (.symbol s :: ts) ↔ HasDecimal ts := by
  simp [HasDecimal, Token.kind]

theorem hasDecimal_number (n : Number) : HasDecimal [.number n] ↔ n.type = .decimal := by
  simp [HasDecimal, Token.kind]

namespace Grammar

def Formula.type : Formula → NumberType
  | literal n => n.type
  | operation _ l r => l.type.join r.type

theorem type_operation_eq_decimal_iff {s : Symbol} {l r : Formula}
    (hl : l.type = .decimal ↔ HasDecimal ts) (hr : r.type = .decimal ↔ HasDecimal us) :
    (Formula.operation s l r).type = .decimal ↔ HasDecimal (ts ++ .symbol s :: us) := by
  rw [Formula.type, NumberType.join_eq_decimal_iff, hl, hr, hasDecimal_append, hasDecimal_symbol]

theorem type_formula_eq_decimal_iff {v : Level} (d : Derivation v) :
    d.formula.type = .decimal ↔ HasDecimal d.tokens := by
  induction d with
  | sum l op r ihl ihr => exact type_operation_eq_decimal_iff ihl ihr
  | product l op r ihl ihr => exact type_operation_eq_decimal_iff ihl ihr
  | power b e ihb ihe => exact type_operation_eq_decimal_iff ihb ihe
  | term t ih => exact ih
  | factor f ih => exact ih
  | base b ih => exact ih
  | literal n => exact (hasDecimal_number n).symm
  | group e ih =>
    rw [Derivation.formula, ih, Derivation.tokens, List.cons_append, hasDecimal_symbol,
      hasDecimal_append]
    simp [HasDecimal, Token.kind]

/-- Whatever a formula evaluates to has the type of the formula. -/
theorem hasType_of_evaluate (h : x.evaluate limit = .ok r) : r.HasType x.type := by
  induction x generalizing r with
  | literal n =>
    cases h
    exact hasType_ofNumber n
  | operation s a b iha ihb =>
    rw [evaluate_operation] at h
    obtain ⟨l, hl, h⟩ := Outcome.bind_eq_ok_iff.mp h
    obtain ⟨m, hm, h⟩ := Outcome.bind_eq_ok_iff.mp h
    have ho := (isComputed_of_operate h).toHasType
    rwa [(iha hl).type, (ihb hm).type] at ho

end Grammar

mutual

theorem Base.type_formula : ∀ b : Base, b.derivation.formula.type = b.type
  | .literal _ => rfl
  | .group e => e.type_formula

theorem Factor.type_formula : ∀ f : Factor, f.derivation.formula.type = f.type
  | .base b => b.type_formula
  | .power b e => by
    rw [Factor.derivation, Derivation.formula, Formula.type, Factor.type, b.type_formula,
      e.type_formula]

theorem TermTail.type_formula : ∀ (t : TermTail) (l : Derivation .term),
    (t.derivation l).formula.type = l.formula.type.join t.type
  | .nil, l => (join_integer _).symm
  | .cons op f t, l => by
    rw [TermTail.derivation, t.type_formula, Derivation.formula, Formula.type, f.type_formula,
      TermTail.type, join_assoc]

theorem Term.type_formula : ∀ t : Term, t.derivation.formula.type = t.type
  | .mk f t => by
    rw [Term.derivation, t.type_formula, Derivation.formula, f.type_formula, Term.type]

theorem ExpressionTail.type_formula : ∀ (r : ExpressionTail) (l : Derivation .expression),
    (r.derivation l).formula.type = l.formula.type.join r.type
  | .nil, l => (join_integer _).symm
  | .cons op t r, l => by
    rw [ExpressionTail.derivation, r.type_formula, Derivation.formula, Formula.type, t.type_formula,
      ExpressionTail.type, join_assoc]

theorem Expression.type_formula : ∀ e : Expression, e.derivation.formula.type = e.type
  | .mk t r => by
    rw [Expression.derivation, r.type_formula, Derivation.formula, t.type_formula, Expression.type]

end

theorem exists_derivation {n : Node} (ht : n.form ≠ .termTail) (he : n.form ≠ .expressionTail) :
    ∃ (v : Level) (d : Derivation v), n.type = .ok d.formula.type ∧ n.flatten = d.tokens ∧
      ∀ limit, n.evaluate limit = (d.formula.evaluate limit).mapError .arithmetic := by
  cases n with
  | base b =>
    refine ⟨.base, b.derivation, ?_, b.tokens_derivation.symm, fun limit => ?_⟩
    · rw [b.type_formula]
      rfl
    · rw [Node.evaluate, ← b.eval_formula]
      rfl
  | factor f =>
    refine ⟨.factor, f.derivation, ?_, f.tokens_derivation.symm, fun limit => ?_⟩
    · rw [f.type_formula]
      rfl
    · rw [Node.evaluate, ← f.eval_formula]
      rfl
  | term t =>
    refine ⟨.term, t.derivation, ?_, t.tokens_derivation.symm, fun limit => ?_⟩
    · rw [t.type_formula]
      rfl
    · rw [Node.evaluate, ← t.eval_formula]
      rfl
  | expression e =>
    refine ⟨.expression, e.derivation, ?_, e.tokens_derivation.symm, fun limit => ?_⟩
    · rw [e.type_formula]
      rfl
    · rw [Node.evaluate, ← e.eval_formula]
      rfl
  | termTail t => exact absurd rfl ht
  | expressionTail t => exact absurd rfl he

/-- A node that is no tail has a type: decimal just when one of its literals is a decimal. Whatever
it evaluates to, under any limit, has that type and a value of it. -/
theorem type_of_node {n : Node} (ht : n.form ≠ .termTail) (he : n.form ≠ .expressionTail) :
    ∃ t, n.type = .ok t ∧ (t = .decimal ↔ ∃ k ∈ n.flatten, k.kind = .number .decimal) ∧
      ∀ limit r, n.evaluate limit = .ok r → r.type = t ∧ r.value.type = t := by
  obtain ⟨v, d, hd, hf, hv⟩ := exists_derivation ht he
  refine ⟨d.formula.type, hd, ?_, fun limit r h => ?_⟩
  · rw [hf]
    exact type_formula_eq_decimal_iff d
  · rw [hv, Outcome.mapError_eq_ok_iff] at h
    have hr := hasType_of_evaluate h
    exact ⟨hr.type, hr.value⟩

theorem type_of_node_quotient :
    ∃ t : Term, t.flatten = [.number (.integer 7), .symbol .divide, .number (.integer 2)] ∧
      (Node.term t).type = .ok .integer ∧ (Node.term t).evaluate 64 = .ok (.ofInt 3) ∧
      (Result.ofInt 3).type = .integer ∧ (Result.ofInt 3).value.type = .integer := by
  let literal (n : Int) : Factor := .base (.literal (.integer n))
  let t : Term := .mk (literal 7) (.cons .divide (literal 2) .nil)
  have hn : (Node.term t).form ≠ .termTail := by decide
  have hi : (Node.term t).type = .ok .integer := rfl
  have hv : (Node.term t).evaluate 64 = .ok (.ofInt 3) := rfl
  obtain ⟨u, hu, -, hr⟩ := type_of_node hn (by decide)
  cases hu.symm.trans hi
  exact ⟨t, rfl, hi, hv, hr 64 (.ofInt 3) hv⟩

end Abacus
