import Abacus.Node.Place
import Abacus.Proofs.Tree.Typing

namespace Abacus

open Arithmetic Grammar Binary64

/-- The node is this number and nothing else, apart from parentheses around it. -/
inductive Node.IsBare (n : Number) : Node → Prop
  | literal : IsBare n (.base (.literal n))
  | group {e : Expression} (h : IsBare n (.expression e)) : IsBare n (.base (.group e))
  | base {b : Base} (h : IsBare n (.base b)) : IsBare n (.factor (.base b))
  | factor {f : Factor} (h : IsBare n (.factor f)) : IsBare n (.term (.mk f .nil))
  | term {t : Term} (h : IsBare n (.term t)) : IsBare n (.expression (.mk t .nil))

variable {n m : Node} {k : Number} {limit : Nat} {r : Result}

mutual

theorem Base.formula_eq_literal_iff : ∀ b : Base,
    b.derivation.formula = .literal k ↔ (Node.base b).IsBare k
  | .literal m => by
    constructor
    · intro h
      cases h
      exact .literal
    · intro h
      cases h
      rfl
  | .group e => by
    rw [Base.derivation, Derivation.formula, e.formula_eq_literal_iff]
    exact ⟨.group, fun | .group h => h⟩

theorem Factor.formula_eq_literal_iff : ∀ f : Factor,
    f.derivation.formula = .literal k ↔ (Node.factor f).IsBare k
  | .base b => by
    rw [Factor.derivation, Derivation.formula, b.formula_eq_literal_iff]
    exact ⟨.base, fun | .base h => h⟩
  | .power b e => by
    constructor <;>
    · intro h
      cases h

theorem TermTail.formula_eq_literal_iff : ∀ (t : TermTail) (l : Derivation .term),
    (t.derivation l).formula = .literal k ↔ t = .nil ∧ l.formula = .literal k
  | .nil, l => by simp [TermTail.derivation]
  | .cons op f t, l => by
    rw [TermTail.derivation, t.formula_eq_literal_iff]
    simp [Derivation.formula]

theorem Term.formula_eq_literal_iff : ∀ t : Term,
    t.derivation.formula = .literal k ↔ (Node.term t).IsBare k
  | .mk f t => by
    rw [Term.derivation, t.formula_eq_literal_iff, Derivation.formula, f.formula_eq_literal_iff]
    constructor
    · rintro ⟨rfl, h⟩
      exact .factor h
    · intro h
      cases h with
      | factor h => exact ⟨rfl, h⟩

theorem ExpressionTail.formula_eq_literal_iff :
    ∀ (t : ExpressionTail) (l : Derivation .expression),
      (t.derivation l).formula = .literal k ↔ t = .nil ∧ l.formula = .literal k
  | .nil, l => by simp [ExpressionTail.derivation]
  | .cons op u t, l => by
    rw [ExpressionTail.derivation, t.formula_eq_literal_iff]
    simp [Derivation.formula]

theorem Expression.formula_eq_literal_iff : ∀ e : Expression,
    e.derivation.formula = .literal k ↔ (Node.expression e).IsBare k
  | .mk u t => by
    rw [Expression.derivation, t.formula_eq_literal_iff, Derivation.formula,
      u.formula_eq_literal_iff]
    constructor
    · rintro ⟨rfl, h⟩
      exact .term h
    · intro h
      cases h with
      | term h => exact ⟨rfl, h⟩

end

theorem evaluate_of_eval {x : Formula} {v : Except Arithmetic.Error Result}
    (hx : x.eval (fixed limit) = v) (h : v.mapError Node.Error.arithmetic = .ok r) :
    x.evaluate limit = .ok r := by
  rw [Formula.evaluate, hx]
  exact Outcome.mapError_eq_ok_iff.mp h

theorem exists_formula (h : n.evaluate limit = .ok r) :
    ∃ x : Formula, x.evaluate limit = .ok r ∧ ∀ k, x = .literal k ↔ n.IsBare k := by
  cases n with
  | base b => exact ⟨_, evaluate_of_eval (b.eval_formula _) h, fun k => b.formula_eq_literal_iff⟩
  | factor f => exact ⟨_, evaluate_of_eval (f.eval_formula _) h, fun k => f.formula_eq_literal_iff⟩
  | term t => exact ⟨_, evaluate_of_eval (t.eval_formula _) h, fun k => t.formula_eq_literal_iff⟩
  | expression e =>
    exact ⟨_, evaluate_of_eval (e.eval_formula _) h, fun k => e.formula_eq_literal_iff⟩
  | termTail t => cases h
  | expressionTail t => cases h

/-- A bare number is its own value. Whatever else has a value has a finite one, since the last thing
done is an operation. -/
theorem value_cases (h : n.evaluate limit = .ok r) :
    (∃ k, (∀ j, n.IsBare j ↔ j = k) ∧ r = .ofNumber k) ∨
      r.value.isFinite = true ∧ ∀ k, ¬ n.IsBare k := by
  obtain ⟨x, hx, hb⟩ := exists_formula h
  cases x with
  | literal k =>
    cases hx
    refine .inl ⟨k, fun j => ?_, rfl⟩
    rw [← hb j, Formula.literal.injEq]
    exact eq_comm
  | operation s a b =>
    rw [evaluate_operation] at hx
    obtain ⟨v, -, hx⟩ := Outcome.bind_eq_ok_iff.mp hx
    obtain ⟨w, -, hx⟩ := Outcome.bind_eq_ok_iff.mp hx
    refine .inr ⟨(isComputed_of_operate hx).isFinite, fun k hk => ?_⟩
    cases (hb k).mpr hk

theorem mem_flatten_of_isBare (h : n.IsBare k) : .number k ∈ n.flatten := by
  induction h with
  | literal => exact List.mem_singleton_self _
  | group h ih => exact List.mem_cons_of_mem _ (List.mem_append_left _ ih)
  | base h ih => exact ih
  | factor h ih => exact List.mem_append_left _ ih
  | term h ih => exact List.mem_append_left _ ih

theorem eq_paren_of_isBare (h : n.IsBare k) {s : Symbol} (hs : .symbol s ∈ n.flatten) :
    s = .leftParen ∨ s = .rightParen := by
  induction h with
  | literal => simp [Node.flatten, Base.flatten] at hs
  | group h ih =>
    simp only [Node.flatten, Base.flatten, List.cons_append, List.mem_cons, List.mem_append,
      Token.symbol.injEq, List.not_mem_nil, or_false] at hs
    obtain hs | hs | hs := hs
    · exact .inl hs
    · exact ih hs
    · exact .inr hs
  | base h ih => exact ih hs
  | factor h ih => exact ih (by simpa [Node.flatten, Term.flatten, TermTail.flatten] using hs)
  | term h ih =>
    exact ih (by simpa [Node.flatten, Expression.flatten, ExpressionTail.flatten] using hs)

namespace Node

theorem flatten_subset_of_get? {f : Field} (h : n.get? f = some (some m)) :
    m.flatten ⊆ n.flatten := by
  unfold get? at h
  split at h <;> cases h
  all_goals simp [flatten, Base.flatten, Factor.flatten, TermTail.flatten, Term.flatten,
    ExpressionTail.flatten, Expression.flatten]

theorem flatten_subset_of_field {name : String}
    (h : Place.field (some n) name = .ok (some m)) : m.flatten ⊆ n.flatten := by
  unfold Place.field at h
  split at h
  · next q hq =>
    cases h
    obtain ⟨n', hn, hq⟩ := Option.bind_eq_some_iff.mp hq
    cases hn
    obtain ⟨f, -, hf⟩ := Option.bind_eq_some_iff.mp hq
    exact flatten_subset_of_get? hf
  · cases h

theorem flatten_subset_of_follow {names : List String}
    (h : Place.follow (some n) names = .ok (some m)) : m.flatten ⊆ n.flatten := by
  induction names generalizing n with
  | nil =>
    cases h
    exact List.Subset.refl _
  | cons name names ih =>
    obtain ⟨p, hp, h⟩ := Outcome.bind_eq_ok_iff.mp h
    cases p with
    | none => cases names <;> cases h
    | some n' => exact List.Subset.trans (ih h) (flatten_subset_of_field hp)

end Node

/-- A node has a value that is not finite just when it is a literal of that value, in parentheses or
not. So a value is finite wherever an operator was applied, and in all parts of a tree whose literals
are finite. -/
theorem value_of_node (limit : Nat) (n : Node) :
    (∀ r x, n.evaluate limit = .ok r → Parts.isFinite x = false →
      (r.value = .decimal x ↔ n.IsBare (.decimal x))) ∧
    (∀ r s, n.evaluate limit = .ok r → .symbol s ∈ n.flatten → s ≠ .leftParen →
      s ≠ .rightParen → r.value.isFinite = true) ∧
    ((∀ k, .number k ∈ n.flatten → k.isFinite = true) →
      ∀ names m r, Node.Place.follow (some n) names = .ok (some m) → m.evaluate limit = .ok r →
        r.value.isFinite = true) := by
  refine ⟨fun r x h hx => ?_, fun r s h hs hl hr => ?_, fun hn names m r hm h => ?_⟩
  · obtain ⟨k, hk, rfl⟩ | ⟨hf, hn⟩ := value_cases h
    · rw [hk]
      exact eq_comm
    · refine iff_of_false ?_ (hn _)
      intro hv
      rw [hv] at hf
      exact Bool.false_ne_true (hx.symm.trans hf)
  · obtain ⟨k, hk, rfl⟩ | ⟨hf, -⟩ := value_cases h
    · obtain hp | hp := eq_paren_of_isBare ((hk k).mpr rfl) hs
      · exact absurd hp hl
      · exact absurd hp hr
    · exact hf
  · obtain ⟨k, hk, rfl⟩ | ⟨hf, -⟩ := value_cases h
    · exact hn k (Node.flatten_subset_of_follow hm (mem_flatten_of_isBare ((hk k).mpr rfl)))
    · exact hf

theorem value_of_node_infinity :
    let infinity : Float := Parts.ofParts false Rounding.infinity
    let literal : Base := .literal (.decimal infinity)
    let bare : Node := .base (.group (.mk (.mk (.base literal) .nil) .nil))
    let power : Node := .factor (.power literal (.base (.literal (.integer 0))))
    bare.evaluate 64 = .ok (.ofFloat infinity) ∧ bare.IsBare (.decimal infinity) ∧
      power.evaluate 64 = .ok (.ofFloat Parts.one) ∧
      (Result.ofFloat Parts.one).value.isFinite = true := by
  intro infinity literal bare power
  have hi : Parts.isFinite infinity = false := by decide +kernel
  have hb : bare.evaluate 64 = .ok (.ofFloat infinity) := rfl
  have hp : power.evaluate 64 = .ok (.ofFloat Parts.one) := rfl
  have hs : .symbol .power ∈ power.flatten := by simp [power, Node.flatten, Factor.flatten]
  exact ⟨hb, ((value_of_node 64 bare).1 _ infinity hb hi).mp rfl, hp,
    (value_of_node 64 power).2.1 _ .power hp hs (by decide) (by decide)⟩

end Abacus
