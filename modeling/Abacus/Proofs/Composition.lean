import Abacus.Proofs.Calculation
import Abacus.Proofs.Lexer.Passage

namespace Abacus

def enclosed (source : List Char) : List Char :=
  Symbol.leftParen.char :: source ++ [Symbol.rightParen.char]

namespace Lexer

variable {s : State} {source : List Char} {due ts : List Token}

theorem passes_enclosed (hv : s.settled = .ok due) (h : (scan source).result = .ok ts) :
    Passes s (enclosed source) .start
      (due ++ .symbol .leftParen :: ts ++ [.symbol .rightParen]) := by
  obtain ⟨s', us, last, hp, hl, rfl⟩ := passes_of_result h
  have ho : Passes s [Symbol.leftParen.char] .start (due ++ [.symbol .leftParen]) :=
    passes_of_ofChar? hv rfl rfl
  have hc : Passes s' [Symbol.rightParen.char] .start (last ++ [.symbol .rightParen]) :=
    passes_of_ofChar? hl rfl rfl
  have ha := passes_append ho (passes_append hp hc)
  simpa only [enclosed, List.append_assoc, List.cons_append, List.nil_append] using ha

end Lexer

open Lexer Calculation Grammar

variable {depth limit : Nat} {s t : List Char} {a b : Expression} {op : Symbol}

theorem tree_enclosed (h : tree ⟨depth, limit⟩ s = .ok a) :
    tree ⟨depth + 1, limit⟩ (enclosed s) = .ok (.mk (.mk (.base (.group a)) .nil) .nil) := by
  obtain ⟨hs, hd⟩ := tree_eq_ok_iff.mp h
  refine tree_eq_ok_iff.mpr ⟨?_, ?_⟩
  · rw [scan_of_passes (passes_enclosed rfl hs) rfl]
    simp only [Expression.flatten, Term.flatten, Factor.flatten, Base.flatten, TermTail.flatten,
      ExpressionTail.flatten, List.append_nil, List.nil_append]
  · simpa only [Expression.nest, Term.nest, Factor.nest, Base.nest, TermTail.nest,
      ExpressionTail.nest, Nat.max_zero, Nat.add_le_add_iff_right] using hd

theorem exists_operator (hl : op ≠ .leftParen) (hr : op ≠ .rightParen) :
    (∃ o : AddOp, o.symbol = op) ∨ (∃ o : MulOp, o.symbol = op) ∨ op = .power := by
  cases op with
  | add => exact .inl ⟨.add, rfl⟩
  | subtract => exact .inl ⟨.subtract, rfl⟩
  | multiply => exact .inr (.inl ⟨.multiply, rfl⟩)
  | divide => exact .inr (.inl ⟨.divide, rfl⟩)
  | power => exact .inr (.inr rfl)
  | leftParen => exact absurd rfl hl
  | rightParen => exact absurd rfl hr

/-- Whatever two expressions contain, an operator between them in parentheses applies to the two as
wholes. -/
theorem exists_connected (hl : op ≠ .leftParen) (hr : op ≠ .rightParen) (a b : Expression) :
    ∃ e : Expression,
      e.flatten = .symbol .leftParen :: a.flatten ++ .symbol .rightParen :: .symbol op ::
        .symbol .leftParen :: b.flatten ++ [.symbol .rightParen] ∧
      e.nest ≤ max a.nest b.nest + 2 ∧
      e.derivation.formula = .operation op a.derivation.formula b.derivation.formula := by
  let factor (e : Expression) : Factor := .base (.group e)
  let term (e : Expression) : Term := .mk (factor e) .nil
  obtain ⟨o, rfl⟩ | ⟨o, rfl⟩ | rfl := exists_operator hl hr
  · refine ⟨.mk (term a) (.cons o (term b) .nil), ?_, ?_, rfl⟩
    · simp [term, factor, Expression.flatten, Term.flatten, Factor.flatten, Base.flatten,
        TermTail.flatten, ExpressionTail.flatten]
    · simp [term, factor, Expression.nest, Term.nest, Factor.nest, Base.nest, TermTail.nest,
        ExpressionTail.nest]
  · refine ⟨.mk (.mk (factor a) (.cons o (factor b) .nil)) .nil, ?_, ?_, rfl⟩
    · simp [factor, Expression.flatten, Term.flatten, Factor.flatten, Base.flatten,
        TermTail.flatten, ExpressionTail.flatten]
    · simp [factor, Expression.nest, Term.nest, Factor.nest, Base.nest, TermTail.nest,
        ExpressionTail.nest]
  · refine ⟨.mk (.mk (.power (.group a) (factor b)) .nil) .nil, ?_, ?_, rfl⟩
    · simp [factor, Expression.flatten, Term.flatten, Factor.flatten, Base.flatten,
        TermTail.flatten, ExpressionTail.flatten]
    · simp only [factor, Expression.nest, Term.nest, Factor.nest, Base.nest, TermTail.nest,
        ExpressionTail.nest]
      omega

theorem scan_connected (op : Symbol) {ts us : List Token}
    (hs : (scan s).result = .ok ts) (ht : (scan t).result = .ok us) :
    (scan (enclosed s ++ op.char :: enclosed t)).result =
      .ok (.symbol .leftParen :: ts ++ .symbol .rightParen :: .symbol op ::
        .symbol .leftParen :: us ++ [.symbol .rightParen]) := by
  obtain ⟨s', vs, due, hp, hv, ho⟩ := exists_passes_char op
  have hf : State.start.settled = .ok [] := rfl
  have ha := passes_append (passes_enclosed hf hs) (passes_append hp (passes_enclosed hv ht))
  refine (scan_of_passes ha hf).trans (congrArg Except.ok ?_)
  have hd : vs ++ (due ++ .symbol .leftParen :: (us ++ [.symbol .rightParen])) =
      .symbol op :: .symbol .leftParen :: (us ++ [.symbol .rightParen]) := by
    rw [← List.append_assoc, ho]
    rfl
  simp only [List.nil_append, List.cons_append, List.append_assoc, hd]

theorem tree_connected (hl : op ≠ .leftParen) (hr : op ≠ .rightParen)
    (hs : tree ⟨depth, limit⟩ s = .ok a) (ht : tree ⟨depth, limit⟩ t = .ok b) :
    ∃ e, tree ⟨depth + 2, limit⟩ (enclosed s ++ op.char :: enclosed t) = .ok e ∧
      e.derivation.formula = .operation op a.derivation.formula b.derivation.formula := by
  obtain ⟨hs, ha⟩ := tree_eq_ok_iff.mp hs
  obtain ⟨ht, hb⟩ := tree_eq_ok_iff.mp ht
  obtain ⟨e, hf, hn, hd⟩ := exists_connected hl hr a b
  refine ⟨e, tree_eq_ok_iff.mpr ⟨?_, ?_⟩, hd⟩
  · rw [hf]
    exact scan_connected op hs ht
  · change a.nest ≤ depth at ha
    change b.nest ≤ depth at hb
    change e.nest ≤ depth + 2
    omega

/-- Sources put in parentheses and connected by an operator, two levels up, are calculated from left
to right: the first one, the second one, and then the operation on their results. Parentheses alone,
one level up, change nothing. -/
theorem calculate_connected (hl : op ≠ .leftParen) (hr : op ≠ .rightParen)
    (hs : ∃ a, tree ⟨depth, limit⟩ s = .ok a) (ht : ∃ b, tree ⟨depth, limit⟩ t = .ok b) :
    calculate ⟨depth + 2, limit⟩ (enclosed s ++ op.char :: enclosed t) = (do
      let x ← calculate ⟨depth, limit⟩ s
      let y ← calculate ⟨depth, limit⟩ t
      (operate (fixed limit) op x y).mapError .arithmetic) ∧
    calculate ⟨depth + 1, limit⟩ (enclosed s) = calculate ⟨depth, limit⟩ s := by
  obtain ⟨a, hs⟩ := hs
  obtain ⟨b, ht⟩ := ht
  obtain ⟨e, he, hf⟩ := tree_connected hl hr hs ht
  constructor
  · rw [calculate_of_tree he, calculate_of_tree hs, calculate_of_tree ht, hf, evaluate_operation]
    simp only [Outcome.mapError_bind]
  · rw [calculate_of_tree (tree_enclosed hs), calculate_of_tree hs]
    rfl

theorem calculate_connected_difference :
    ∃ a b, tree ⟨1, 64⟩ ['1', '-', '2'] = .ok a ∧ tree ⟨1, 64⟩ ['-', '3'] = .ok b ∧
      calculate ⟨3, 64⟩ ['(', '1', '-', '2', ')', '-', '(', '-', '3', ')'] = .ok (.ofInt 2) ∧
      calculate ⟨2, 64⟩ ['(', '1', '-', '2', ')'] = .ok (.ofInt (-1)) := by
  let literal (n : Int) : Term := .mk (.base (.literal (.integer n))) .nil
  have hs : tree ⟨1, 64⟩ ['1', '-', '2'] =
      .ok (.mk (literal 1) (.cons .subtract (literal 2) .nil)) :=
    tree_eq_ok_iff.mpr ⟨by decide +kernel, by decide⟩
  have ht : tree ⟨1, 64⟩ ['-', '3'] = .ok (.mk (literal (-3)) .nil) :=
    tree_eq_ok_iff.mpr ⟨by decide +kernel, by decide⟩
  have hl : Symbol.subtract ≠ .leftParen := by decide
  obtain ⟨hc, he⟩ := calculate_connected hl (by decide) ⟨_, hs⟩ ⟨_, ht⟩
  have hx : calculate ⟨1, 64⟩ ['1', '-', '2'] = .ok (.ofInt (-1)) := calculate_of_tree hs
  have hy : calculate ⟨1, 64⟩ ['-', '3'] = .ok (.ofInt (-3)) := calculate_of_tree ht
  rw [hx, hy] at hc
  exact ⟨_, _, hs, ht, hc, he.trans hx⟩

end Abacus
