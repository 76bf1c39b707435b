import Abacus.Calculation
import Abacus.Proofs.Grammar.Meaning
import Abacus.Proofs.Lexer.Numbers

namespace Abacus

open Lexer

variable {s : Settings} {source : List Char} {t : Expression}

theorem tree_eq_ok_iff : Calculation.tree s source = .ok t ↔
    (scan source).result = .ok t.flatten ∧ t.nest ≤ s.maxDepth := by
  rw [Calculation.tree, Outcome.bind_eq_ok_iff]
  simp only [Calculation.tokenize, Calculation.ofTokens, Outcome.mapError_eq_ok_iff,
    Parser.parse_eq_ok_iff]
  constructor
  · rintro ⟨ts, hs, rfl, hd⟩
    exact ⟨hs, hd⟩
  · rintro ⟨hs, hd⟩
    exact ⟨t.flatten, hs, rfl, hd⟩

theorem tree_eq_lexical {e : Error} (h : (scan source).result = .error e) :
    Calculation.tree s source = .error (.lexical source e) := by
  rw [Calculation.tree, Calculation.tokenize, h]
  rfl

theorem isRead_of_tree (h : Calculation.tree s source = .ok t) {n : Number}
    (hn : .number n ∈ t.flatten) : n.IsRead :=
  isRead_of_scan (tree_eq_ok_iff.mp h).1 hn

theorem calculate_of_tree (h : Calculation.tree s source = .ok t) :
    Calculation.calculate s source =
      (t.derivation.formula.evaluate s.maxIntegerBits).mapError .arithmetic := by
  rw [Calculation.calculate, h]
  exact congrArg (Except.mapError Failure.arithmetic) (t.eval_formula _).symm

end Abacus
