import Abacus.Proofs.Grammar.Derivation
import Abacus.Tree.Evaluation

namespace Abacus.Grammar

open Arithmetic

/-- Operations between literals, without parentheses: each has its operands below it. -/
inductive Formula
  | literal (n : Number)
  | operation (s : Symbol) (l r : Formula)
  deriving DecidableEq

def Derivation.formula {v : Level} : Derivation v → Formula
  | sum l op r => .operation op.symbol l.formula r.formula
  | term t => t.formula
  | product l op r => .operation op.symbol l.formula r.formula
  | factor f => f.formula
  | power b e => .operation .power b.formula e.formula
  | base b => b.formula
  | literal n => .literal n
  | group e => e.formula

section

variable {m : Type → Type} [Monad m] [MonadExcept Arithmetic.Error m] (limit : m Nat)

def operate (s : Symbol) (a b : Result) : m Result :=
  match s with
  | .power => power limit (.ofResult a) (.ofResult b)
  | s => ofExcept (binary (.symbol s) (.ofResult a) (.ofResult b))

def Formula.eval : Formula → m Result
  | literal n => pure (.ofNumber n)
  | operation s l r => do
    let a ← l.eval
    let b ← r.eval
    operate limit s a b

end

def Formula.evaluate (limit : Nat) (x : Formula) : Except Arithmetic.Error Result :=
  x.eval (fixed limit)

/-- A formula and all that is inside it, operands before operations and left before right. -/
def Formula.postorder : Formula → List Formula
  | literal n => [literal n]
  | operation s l r => l.postorder ++ r.postorder ++ [operation s l r]

end Abacus.Grammar

namespace Abacus

open Arithmetic Grammar

section

variable {m : Type → Type} [Monad m] [MonadExcept Arithmetic.Error m] (limit : m Nat)

theorem operate_mul (op : MulOp) (a b : Result) : operate limit op.symbol a b =
    ofExcept (binary (.symbol op.symbol) (.ofResult a) (.ofResult b)) := by
  cases op <;> rfl

theorem operate_add (op : AddOp) (a b : Result) : operate limit op.symbol a b =
    ofExcept (binary (.symbol op.symbol) (.ofResult a) (.ofResult b)) := by
  cases op <;> rfl

mutual

theorem Base.eval_formula [LawfulMonad m] :
    ∀ b : Base, b.derivation.formula.eval limit = b.eval limit
  | .literal _ => rfl
  | .group e => e.eval_formula

theorem Factor.eval_formula [LawfulMonad m] :
    ∀ f : Factor, f.derivation.formula.eval limit = f.eval limit
  | .base b => b.eval_formula
  | .power b e => by
    rw [Factor.derivation, Derivation.formula, Formula.eval, Factor.eval, b.eval_formula,
      e.eval_formula]
    rfl

theorem TermTail.eval_formula [LawfulMonad m] : ∀ (t : TermTail) (l : Derivation .term),
    (t.derivation l).formula.eval limit = l.formula.eval limit >>= t.apply limit
  | .nil, l => (bind_pure _).symm
  | .cons op f t, l => by
    rw [TermTail.derivation, t.eval_formula, Derivation.formula, Formula.eval, f.eval_formula]
    simp only [bind_assoc, operate_mul]
    rfl

theorem Term.eval_formula [LawfulMonad m] :
    ∀ t : Term, t.derivation.formula.eval limit = t.eval limit
  | .mk f t => by
    rw [Term.derivation, t.eval_formula, Derivation.formula, f.eval_formula, Term.eval]

theorem ExpressionTail.eval_formula [LawfulMonad m] :
    ∀ (r : ExpressionTail) (l : Derivation .expression),
      (r.derivation l).formula.eval limit = l.formula.eval limit >>= r.apply limit
  | .nil, l => (bind_pure _).symm
  | .cons op t r, l => by
    rw [ExpressionTail.derivation, r.eval_formula, Derivation.formula, Formula.eval, t.eval_formula]
    simp only [bind_assoc, operate_add]
    rfl

theorem Expression.eval_formula [LawfulMonad m] :
    ∀ e : Expression, e.derivation.formula.eval limit = e.eval limit
  | .mk t r => by
    rw [Expression.derivation, r.eval_formula, Derivation.formula, t.eval_formula, Expression.eval]

end

end

namespace Grammar

variable {limit : Nat}

theorem evaluate_operation (s : Symbol) (l r : Formula) :
    (Formula.operation s l r).evaluate limit =
      l.evaluate limit >>= fun a => r.evaluate limit >>= fun b => operate (fixed limit) s a b := rfl

theorem ok_of_mem_postorder {x y : Formula} {v : Result} (h : x.evaluate limit = .ok v)
    (hy : y ∈ x.postorder) : ∃ w, y.evaluate limit = .ok w := by
  induction x generalizing v with
  | literal n =>
    obtain rfl := List.mem_singleton.mp hy
    exact ⟨v, h⟩
  | operation s l r ihl ihr =>
    have h' := h
    rw [evaluate_operation] at h'
    obtain ⟨a, ha, h'⟩ := Outcome.bind_eq_ok_iff.mp h'
    obtain ⟨b, hb, h'⟩ := Outcome.bind_eq_ok_iff.mp h'
    simp only [Formula.postorder, List.mem_append, List.mem_singleton] at hy
    obtain (hy | hy) | rfl := hy
    · exact ihl ha hy
    · exact ihr hb hy
    · exact ⟨v, h⟩

/-- The error of a formula comes from the first operation in it that fails on the values of its
operands. -/
theorem first_failed_of_evaluate {x : Formula} {err : Arithmetic.Error}
    (h : x.evaluate limit = .error err) :
    ∃ before s l r after a b, x.postorder = before ++ .operation s l r :: after ∧
      (∀ z ∈ before, ∃ v, z.evaluate limit = .ok v) ∧ l.evaluate limit = .ok a ∧
      r.evaluate limit = .ok b ∧ operate (fixed limit) s a b = .error err := by
  -- The operands are looked at in the order in which they are evaluated. Only if both have values
  -- is the error that of the operation itself.
  induction x with
  | literal n => cases h
  | operation s l r ihl ihr =>
    rw [evaluate_operation] at h
    obtain hl | ⟨a, ha, h⟩ := Outcome.bind_eq_error_iff.mp h
    · obtain ⟨before, s', l', r', after, a, b, hp, hb, hy⟩ := ihl hl
      refine ⟨before, s', l', r', after ++ r.postorder ++ [.operation s l r], a, b, ?_, hb, hy⟩
      rw [Formula.postorder, hp]
      simp only [List.append_assoc, List.cons_append]
    have hlo : ∀ z ∈ l.postorder, ∃ v, z.evaluate limit = .ok v :=
      fun z hz => ok_of_mem_postorder ha hz
    obtain hr | ⟨b, hb, h⟩ := Outcome.bind_eq_error_iff.mp h
    · obtain ⟨before, s', l', r', after, a', b', hp, hb, hy⟩ := ihr hr
      refine ⟨l.postorder ++ before, s', l', r', after ++ [.operation s l r], a', b', ?_, ?_, hy⟩
      · rw [Formula.postorder, hp]
        simp only [List.append_assoc, List.cons_append]
      · exact List.forall_mem_append.mpr ⟨hlo, hb⟩
    · refine ⟨l.postorder ++ r.postorder, s, l, r, [], a, b, rfl, ?_, ha, hb, h⟩
      exact List.forall_mem_append.mpr ⟨hlo, fun z hz => ok_of_mem_postorder hb hz⟩

theorem first_error_of_evaluate {x : Formula} {err : Arithmetic.Error}
    (h : x.evaluate limit = .error err) :
    ∃ before y after, x.postorder = before ++ y :: after ∧
      (∀ z ∈ before, ∃ v, z.evaluate limit = .ok v) ∧ y.evaluate limit = .error err := by
  obtain ⟨before, s, l, r, after, a, b, hp, hv, hl, hr, ho⟩ := first_failed_of_evaluate h
  refine ⟨before, .operation s l r, after, hp, hv, ?_⟩
  rw [evaluate_operation, hl, hr]
  exact ho

/-- The tokens of an expression have one derivation, and the expression evaluates as the formula of
that derivation does: to the same result, or to the error of the first part of the formula that
fails. -/
theorem evaluate_eq_formula_of_parse {depth : Nat} {ts : List Token} {e : Expression}
    (h : Parser.parse depth ts = .ok e) (limit : Nat) :
    ∃ d : Derivation .expression, (∀ d' : Derivation .expression, d'.tokens = ts ↔ d' = d) ∧
      e.evaluate limit = d.formula.evaluate limit ∧
      ∀ err, e.evaluate limit = .error err →
        ∃ before x after, d.formula.postorder = before ++ x :: after ∧
          (∀ y ∈ before, ∃ v, y.evaluate limit = .ok v) ∧ x.evaluate limit = .error err := by
  obtain ⟨rfl, -⟩ := Parser.parse_eq_ok_iff.mp h
  have he : e.evaluate limit = e.derivation.formula.evaluate limit :=
    (e.eval_formula (fixed limit)).symm
  refine ⟨e.derivation, fun d' => tokens_eq_flatten_iff, he, fun err herr => ?_⟩
  rw [he] at herr
  exact first_error_of_evaluate herr

theorem evaluate_eq_formula_of_difference :
    ∃ d : Derivation .expression,
      (∀ d' : Derivation .expression, d'.tokens = [.number (.integer 8), .symbol .subtract,
        .number (.integer 3), .symbol .subtract, .number (.integer 1)] ↔ d' = d) ∧
      d.formula.evaluate 64 = .ok (.ofInt 4) := by
  let literal (n : Int) : Term := .mk (.base (.literal (.integer n))) .nil
  have h : Parser.parse 1 [.number (.integer 8), .symbol .subtract, .number (.integer 3),
      .symbol .subtract, .number (.integer 1)] = .ok (.mk (literal 8)
        (.cons .subtract (literal 3) (.cons .subtract (literal 1) .nil))) :=
    Parser.parse_eq_ok_iff.mpr ⟨rfl, by decide⟩
  obtain ⟨d, hd, he, -⟩ := evaluate_eq_formula_of_parse h 64
  exact ⟨d, hd, he.symm⟩

end Grammar

end Abacus
