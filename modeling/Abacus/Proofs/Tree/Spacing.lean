import Abacus.Proofs.Grammar.Derivation
import Abacus.Tree.Text

namespace Abacus

def Token.spaced : Token → List Char
  | .number n => n.lexeme
  | .symbol .leftParen => [Symbol.leftParen.char]
  | .symbol .rightParen => [Symbol.rightParen.char]
  | .symbol x => [' ', x.char, ' ']

theorem spaced_mul (op : MulOp) :
    Token.spaced (.symbol op.symbol) = [' ', op.symbol.char, ' '] := by
  cases op <;> rfl

theorem spaced_add (op : AddOp) :
    Token.spaced (.symbol op.symbol) = [' ', op.symbol.char, ' '] := by
  cases op <;> rfl

mutual

theorem Base.text_eq : ∀ b : Base, b.text = b.flatten.flatMap Token.spaced
  | .literal n => (List.append_nil _).symm
  | .group e => by
    rw [Base.text, e.text_eq, Base.flatten, List.flatMap_append, List.flatMap_cons]
    rfl

theorem Factor.text_eq : ∀ f : Factor, f.text = f.flatten.flatMap Token.spaced
  | .base b => b.text_eq
  | .power b e => by
    rw [Factor.text, b.text_eq, e.text_eq, Factor.flatten, List.flatMap_append, List.flatMap_cons]
    rfl

theorem TermTail.text_eq : ∀ t : TermTail, t.text = t.flatten.flatMap Token.spaced
  | .nil => rfl
  | .cons op f t => by
    rw [TermTail.text, f.text_eq, t.text_eq, TermTail.flatten, List.flatMap_append,
      List.flatMap_cons, spaced_mul]
    rfl

theorem Term.text_eq : ∀ t : Term, t.text = t.flatten.flatMap Token.spaced
  | .mk f t => by
    rw [Term.text, f.text_eq, t.text_eq, Term.flatten, List.flatMap_append]

theorem ExpressionTail.text_eq :
    ∀ r : ExpressionTail, r.text = r.flatten.flatMap Token.spaced
  | .nil => rfl
  | .cons op t r => by
    rw [ExpressionTail.text, t.text_eq, r.text_eq, ExpressionTail.flatten, List.flatMap_append,
      List.flatMap_cons, spaced_add]
    rfl

theorem Expression.text_eq : ∀ e : Expression, e.text = e.flatten.flatMap Token.spaced
  | .mk t r => by
    rw [Expression.text, t.text_eq, r.text_eq, Expression.flatten, List.flatMap_append]

end

/-- No two numbers stand side by side. The flags tell whether a number stands right before the
tokens and whether one stands at their end. -/
inductive Apart : Bool → List Token → Bool → Prop
  | nil (b : Bool) : Apart b [] b
  | number {b : Bool} {n : Number} {ts : List Token} (h : Apart true ts b) :
    Apart false (.number n :: ts) b
  | symbol {a b : Bool} {x : Symbol} {ts : List Token} (h : Apart false ts b) :
    Apart a (.symbol x :: ts) b

variable {a b c : Bool} {ts us : List Token}

theorem apart_append (ht : Apart a ts b) (hu : Apart b us c) : Apart a (ts ++ us) c := by
  induction ht with
  | nil b => exact hu
  | number h ih => exact .number (ih hu)
  | symbol h ih => exact .symbol (ih hu)

theorem exists_apart_of_append (h : Apart a (ts ++ us) c) :
    ∃ b, Apart a ts b ∧ Apart b us c := by
  induction ts generalizing a with
  | nil => exact ⟨a, .nil a, h⟩
  | cons t ts ih =>
    rw [List.cons_append] at h
    cases h with
    | number h =>
      obtain ⟨b, ht, hu⟩ := ih h
      exact ⟨b, .number ht, hu⟩
    | symbol h =>
      obtain ⟨b, ht, hu⟩ := ih h
      exact ⟨b, .symbol ht, hu⟩

/-- The grammar puts an operator or a parenthesis between any two numbers. -/
theorem exists_apart_tokens {v : Grammar.Level} (d : Grammar.Derivation v) :
    ∃ b, Apart false d.tokens b := by
  induction d with
  | sum l op r ihl ihr =>
    obtain ⟨a, hl⟩ := ihl
    obtain ⟨b, hr⟩ := ihr
    exact ⟨b, apart_append hl (.symbol hr)⟩
  | product l op r ihl ihr =>
    obtain ⟨a, hl⟩ := ihl
    obtain ⟨b, hr⟩ := ihr
    exact ⟨b, apart_append hl (.symbol hr)⟩
  | power l r ihl ihr =>
    obtain ⟨a, hl⟩ := ihl
    obtain ⟨b, hr⟩ := ihr
    exact ⟨b, apart_append hl (.symbol hr)⟩
  | term d ih => exact ih
  | factor d ih => exact ih
  | base d ih => exact ih
  | literal n => exact ⟨true, .number (.nil true)⟩
  | group d ih =>
    obtain ⟨a, h⟩ := ih
    exact ⟨false, .symbol (apart_append h (.symbol (.nil false)))⟩

theorem Expression.exists_apart_flatten (e : Expression) : ∃ b, Apart false e.flatten b := by
  rw [← e.tokens_derivation]
  exact exists_apart_tokens e.derivation

end Abacus
