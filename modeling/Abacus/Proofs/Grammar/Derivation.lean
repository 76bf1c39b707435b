import Abacus.Proofs.Grammar.Rules

namespace Abacus

namespace Grammar

inductive Level
  | expression
  | term
  | factor
  | base
  deriving DecidableEq, Repr

/-- How tokens are derived in the grammar where the left operand of a sum is again a sum, and the
left operand of a product again a product. -/
inductive Derivation : Level → Type
  | sum (l : Derivation .expression) (op : AddOp) (r : Derivation .term) : Derivation .expression
  | term (t : Derivation .term) : Derivation .expression
  | product (l : Derivation .term) (op : MulOp) (r : Derivation .factor) : Derivation .term
  | factor (f : Derivation .factor) : Derivation .term
  | power (b : Derivation .base) (e : Derivation .factor) : Derivation .factor
  | base (b : Derivation .base) : Derivation .factor
  | literal (n : Number) : Derivation .base
  | group (e : Derivation .expression) : Derivation .base

def Derivation.tokens {v : Level} : Derivation v → List Token
  | sum l op r => l.tokens ++ .symbol op.symbol :: r.tokens
  | term t => t.tokens
  | product l op r => l.tokens ++ .symbol op.symbol :: r.tokens
  | factor f => f.tokens
  | power b e => b.tokens ++ .symbol .power :: e.tokens
  | base b => b.tokens
  | literal n => [.number n]
  | group e => .symbol .leftParen :: e.tokens ++ [.symbol .rightParen]

end Grammar

open Grammar

mutual

/-- The derivation that a tree stands for. A tail adds its operands to the derivation of what stands
before it, one after another. -/
def Base.derivation : Base → Derivation .base
  | .literal n => .literal n
  | .group e => .group e.derivation

def Factor.derivation : Factor → Derivation .factor
  | .base b => .base b.derivation
  | .power b e => .power b.derivation e.derivation

def TermTail.derivation : TermTail → Derivation .term → Derivation .term
  | .nil, l => l
  | .cons op f t, l => t.derivation (.product l op f.derivation)

def Term.derivation : Term → Derivation .term
  | .mk f t => t.derivation (.factor f.derivation)

def ExpressionTail.derivation : ExpressionTail → Derivation .expression → Derivation .expression
  | .nil, l => l
  | .cons op t r, l => r.derivation (.sum l op t.derivation)

def Expression.derivation : Expression → Derivation .expression
  | .mk t r => r.derivation (.term t.derivation)

end

mutual

theorem Base.tokens_derivation : ∀ b : Base, b.derivation.tokens = b.flatten
  | .literal n => rfl
  | .group e => by
    rw [Base.derivation, Derivation.tokens, Base.flatten, e.tokens_derivation]

theorem Factor.tokens_derivation : ∀ f : Factor, f.derivation.tokens = f.flatten
  | .base b => b.tokens_derivation
  | .power b e => by
    rw [Factor.derivation, Derivation.tokens, Factor.flatten, b.tokens_derivation,
      e.tokens_derivation]

theorem TermTail.tokens_derivation : ∀ (t : TermTail) (l : Derivation .term),
    (t.derivation l).tokens = l.tokens ++ t.flatten
  | .nil, l => (List.append_nil l.tokens).symm
  | .cons op f t, l => by
    rw [TermTail.derivation, t.tokens_derivation, Derivation.tokens, f.tokens_derivation,
      TermTail.flatten]
    simp only [List.append_assoc, List.cons_append]

theorem Term.tokens_derivation : ∀ t : Term, t.derivation.tokens = t.flatten
  | .mk f t => by
    rw [Term.derivation, t.tokens_derivation, Derivation.tokens, f.tokens_derivation, Term.flatten]

theorem ExpressionTail.tokens_derivation : ∀ (t : ExpressionTail) (l : Derivation .expression),
    (t.derivation l).tokens = l.tokens ++ t.flatten
  | .nil, l => (List.append_nil l.tokens).symm
  | .cons op t r, l => by
    rw [ExpressionTail.derivation, r.tokens_derivation, Derivation.tokens, t.tokens_derivation,
      ExpressionTail.flatten]
    simp only [List.append_assoc, List.cons_append]

theorem Expression.tokens_derivation : ∀ e : Expression, e.derivation.tokens = e.flatten
  | .mk t r => by
    rw [Expression.derivation, r.tokens_derivation, Derivation.tokens, t.tokens_derivation,
      Expression.flatten]

end

def TermTail.snoc : TermTail → MulOp → Factor → TermTail
  | .nil, op, f => .cons op f .nil
  | .cons op₀ f₀ t, op, f => .cons op₀ f₀ (t.snoc op f)

def ExpressionTail.snoc : ExpressionTail → AddOp → Term → ExpressionTail
  | .nil, op, t => .cons op t .nil
  | .cons op₀ t₀ r, op, t => .cons op₀ t₀ (r.snoc op t)

theorem TermTail.derivation_snoc : ∀ (t : TermTail) (op : MulOp) (f : Factor)
    (l : Derivation .term),
    (t.snoc op f).derivation l = .product (t.derivation l) op f.derivation
  | .nil, _, _, _ => rfl
  | .cons _ _ t, op, f, _ => t.derivation_snoc op f _

theorem ExpressionTail.derivation_snoc : ∀ (r : ExpressionTail) (op : AddOp) (t : Term)
    (l : Derivation .expression),
    (r.snoc op t).derivation l = .sum (r.derivation l) op t.derivation
  | .nil, _, _, _ => rfl
  | .cons _ _ r, op, t, _ => r.derivation_snoc op t _

namespace Grammar

def Level.Tree : Level → Type
  | expression => Expression
  | term => Term
  | factor => Factor
  | base => Base

def Level.derive : (v : Level) → v.Tree → Derivation v
  | expression => Expression.derivation
  | term => Term.derivation
  | factor => Factor.derivation
  | base => Base.derivation

theorem derive_surjective {v : Level} (d : Derivation v) : ∃ t : v.Tree, v.derive t = d := by
  induction d with
  | sum l op r ihl ihr =>
    obtain ⟨⟨t, tail⟩, rfl⟩ := ihl
    obtain ⟨x, rfl⟩ := ihr
    exact ⟨Expression.mk t (tail.snoc op x), tail.derivation_snoc op x _⟩
  | term t ih =>
    obtain ⟨x, rfl⟩ := ih
    exact ⟨Expression.mk x .nil, rfl⟩
  | product l op r ihl ihr =>
    obtain ⟨⟨f, tail⟩, rfl⟩ := ihl
    obtain ⟨x, rfl⟩ := ihr
    exact ⟨Term.mk f (tail.snoc op x), tail.derivation_snoc op x _⟩
  | factor f ih =>
    obtain ⟨x, rfl⟩ := ih
    exact ⟨Term.mk x .nil, rfl⟩
  | power b e ihb ihe =>
    obtain ⟨x, rfl⟩ := ihb
    obtain ⟨y, rfl⟩ := ihe
    exact ⟨Factor.power x y, rfl⟩
  | base b ih =>
    obtain ⟨x, rfl⟩ := ih
    exact ⟨Factor.base x, rfl⟩
  | literal n => exact ⟨Base.literal n, rfl⟩
  | group e ih =>
    obtain ⟨x, rfl⟩ := ih
    exact ⟨Base.group x, rfl⟩

/-- The tokens of a tree have no derivation but the one the tree stands for. -/
theorem tokens_eq_flatten_iff {d : Derivation .expression} {e : Expression} :
    d.tokens = e.flatten ↔ d = e.derivation := by
  constructor
  · intro h
    obtain ⟨e', rfl⟩ := derive_surjective d
    have he : e'.flatten = e.flatten := by rw [← h, ← e'.tokens_derivation]; rfl
    rw [Parser.flatten_injective he]
    rfl
  · rintro rfl
    exact e.tokens_derivation

end Grammar

end Abacus
