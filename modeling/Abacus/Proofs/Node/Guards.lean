import Abacus.Proofs.Node.Builder
import Abacus.Proofs.Node.Record
import Abacus.Proofs.Operators

namespace Abacus

open Arithmetic Grammar Outcome

namespace Node

open Record Abacus.Parser Procedure

variable {n : Node} {l : Layer} {limit : Nat} {e : Record.Error}

theorem segments_of_tail (h : n.record.tailLayer? = some l) :
    ∃ xs, n.record.segments = (xs, none) := by
  cases n with
  | termTail t => exact ⟨_, segments_record rfl⟩
  | expressionTail t => exact ⟨_, segments_record rfl⟩
  | base | factor | term | expression => simp [tailLayer?_record, form] at h

theorem unanswered_of_tail (h : n.record.tailLayer? = some l) :
    n.record.type = .error (.node (.noType (some l.tailForm))) ∧
      ∀ limit, n.record.evaluate limit = .error (.node (.noValue (some l.tailForm))) := by
  rw [tailLayer?_record] at h
  cases n with
  | termTail t =>
    obtain rfl := Option.some.inj h
    exact ⟨type_record _, fun limit => evaluate_record limit _⟩
  | expressionTail t =>
    obtain rfl := Option.some.inj h
    exact ⟨type_record _, fun limit => evaluate_record limit _⟩
  | base | factor | term | expression => simp [form] at h

theorem derivation_of_not_tail (h : n.record.tailLayer? = none) :
    ∃ (v : Level) (d : Derivation v), n.record.type = .ok d.formula.type ∧
      ∀ limit, n.record.evaluate limit = (d.formula.evaluate limit).mapError .arithmetic := by
  rw [tailLayer?_record] at h
  have ht : n.form ≠ .termTail := fun hf => by simp [hf] at h
  have he : n.form ≠ .expressionTail := fun hf => by simp [hf] at h
  obtain ⟨v, d, hd, -, hv⟩ := exists_derivation ht he
  refine ⟨v, d, ?_, fun limit => ?_⟩
  · rw [type_record, hd]
    rfl
  · rw [evaluate_record, hv, mapError_mapError]
    rfl

theorem not_isGuard_of_evaluate (h : n.record.tailLayer? = none)
    (he : n.record.evaluate limit = .error e) : ¬ e.IsGuard := by
  obtain ⟨v, d, -, hd⟩ := derivation_of_not_tail h
  rw [hd] at he
  obtain ⟨err, herr, rfl⟩ := mapError_eq_error_iff.mp he
  intro hg
  cases err with
  | unknownOperator k => exact knows_formula d k herr
  | _ => exact hg

/-- No node is refused while tokens are read, so that the nodes come out as they would without being
checked. An object that is accepted has segments which come to their end if it is a tail. If it is
none, it has a type, and its evaluation breaks off with no error but those of arithmetic on known
operators. Tails themselves are all that has neither a type nor a value. -/
theorem guards_unreached :
    (∀ (tokens : List Token) (limit : Nat)
        (o : Except Halt (Except Assembly.Error Node × Cursor)),
      Finishes (fun n => (Builder.document tokens limit n).run) ⟨0, 0⟩ o ↔
        o = match document limit tokens with
          | .ok e => .ok (.ok (.expression e), ⟨tokens.length, 0⟩)
          | .error j => .error (.rejected j)) ∧
    ∀ (x : Record) (n : Node), x.check = .ok (some n) →
      (∀ l, x.tailLayer? = some l → (∃ xs, x.segments = (xs, none)) ∧
        x.type = .error (.node (.noType (some l.tailForm))) ∧
        ∀ limit, x.evaluate limit = .error (.node (.noValue (some l.tailForm)))) ∧
      (x.tailLayer? = none → (∃ t, x.type = .ok t) ∧
        ∀ limit e, x.evaluate limit = .error e → ¬ e.IsGuard) := by
  refine ⟨fun tokens limit o => builder_finishes_iff, fun x n hx => ?_⟩
  obtain rfl : x = n.record := check_eq_ok_iff.mp hx
  constructor
  · intro l hl
    exact ⟨segments_of_tail hl, unanswered_of_tail hl⟩
  · intro hn
    obtain ⟨v, d, hd, -⟩ := derivation_of_not_tail hn
    exact ⟨⟨_, hd⟩, fun limit e he => not_isGuard_of_evaluate hn he⟩

theorem guards_unreached_quotient :
    let literal (i : Int) : Record :=
      .factor (.base (some ⟨.number .integer, some (.integer i)⟩) .nothing) .nothing
    let tail : Record := .tail .product (some ⟨.symbol .divide, none⟩) (literal 0)
      (.tail .product none .nothing .nothing)
    let x : Record := .chain .product (literal 1) tail
    (∃ n, x.check = .ok (some n)) ∧ (∃ n, tail.check = .ok (some n)) ∧
      (∃ xs, tail.segments = (xs, none)) ∧ (∃ t, x.type = .ok t) ∧
      ∃ e, x.evaluate 64 = .error e ∧ ¬ e.IsGuard := by
  intro literal tail x
  let zero : Factor := .base (.literal (.integer 0))
  have hx : x.check =
      .ok (some (.term (.mk (.base (.literal (.integer 1))) (.cons .divide zero .nil)))) := rfl
  have ht : tail.check = .ok (some (.termTail (.cons .divide zero .nil))) := rfl
  have he : x.evaluate 64 = .error (.arithmetic .divisionByZero) := rfl
  obtain ⟨hs, -⟩ := (guards_unreached.2 tail _ ht).1 .product rfl
  obtain ⟨hu, hg⟩ := (guards_unreached.2 x _ hx).2 rfl
  exact ⟨⟨_, hx⟩, ⟨_, ht⟩, hs, hu, _, he, hg 64 _ he⟩

/-- An empty tail is accepted, and has neither a type nor a value. -/
theorem guard_reached_of_empty_tail :
    let x : Record := .tail .sum none .nothing .nothing
    let e : Record.Error := .node (.noValue (some .expressionTail))
    x.check = .ok (some (.expressionTail .nil)) ∧ x.evaluate 64 = .error e ∧ e.IsGuard ∧
      x.type = .error (.node (.noType (some .expressionTail))) :=
  ⟨rfl, rfl, trivial, rfl⟩

end Node

end Abacus
