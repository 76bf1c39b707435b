import Abacus.Proofs.Grammar.Derivation
import Abacus.Proofs.Grammar.Rejection

namespace Abacus

namespace Grammar

/-- What may come next in a list of tokens, with the number of parentheses that are open. -/
inductive Expectation
  | operand (opened : Nat)
  | operator (opened : Nat)
  deriving DecidableEq, Repr

namespace Expectation

def next : Expectation → Token → Option Expectation
  | operand k, .number _ => some (operator k)
  | operand k, .symbol .leftParen => some (operand (k + 1))
  | operand _, .symbol _ => none
  | operator _, .number _ => none
  | operator _, .symbol .leftParen => none
  | operator 0, .symbol .rightParen => none
  | operator (k + 1), .symbol .rightParen => some (operator k)
  | operator k, .symbol _ => some (operand k)

def after (x : Expectation) (ts : List Token) : Option Expectation := ts.foldlM next x

end Expectation

open Expectation

variable {k : Nat} {t : Token} {front back us : List Token} {e : Expression}

theorem after_append (x : Expectation) (ts us : List Token) :
    x.after (ts ++ us) = x.after ts >>= fun y => y.after us :=
  List.foldlM_append

theorem after_cons (x : Expectation) (t : Token) (ts : List Token) :
    x.after (t :: ts) = x.next t >>= fun y => y.after ts := rfl

theorem next_mul (op : MulOp) (k : Nat) :
    (operator k).next (.symbol op.symbol) = some (operand k) := by
  cases op <;> cases k <;> rfl

theorem next_add (op : AddOp) (k : Nat) :
    (operator k).next (.symbol op.symbol) = some (operand k) := by
  cases op <;> cases k <;> rfl

theorem after_tokens {v : Level} (d : Derivation v) (k : Nat) :
    (operand k).after d.tokens = some (operator k) := by
  induction d generalizing k with
  | sum l op r ihl ihr =>
    rw [Derivation.tokens, after_append, ihl, Option.bind_eq_bind, Option.bind_some, after_cons,
      next_add]
    exact ihr k
  | product l op r ihl ihr =>
    rw [Derivation.tokens, after_append, ihl, Option.bind_eq_bind, Option.bind_some, after_cons,
      next_mul]
    exact ihr k
  | power b e ihb ihe =>
    have hp : (operator k).next (.symbol .power) = some (operand k) := by cases k <;> rfl
    rw [Derivation.tokens, after_append, ihb, Option.bind_eq_bind, Option.bind_some, after_cons, hp]
    exact ihe k
  | term t ih => exact ih k
  | factor f ih => exact ih k
  | base b ih => exact ih k
  | literal n => rfl
  | group e ih =>
    have hl : (operand k).next (.symbol .leftParen) = some (operand (k + 1)) := rfl
    rw [Derivation.tokens, List.cons_append, after_cons, hl, Option.bind_eq_bind, Option.bind_some,
      after_append, ih]
    rfl

theorem after_flatten (e : Expression) : (operand 0).after e.flatten = some (operator 0) := by
  rw [← e.tokens_derivation]
  exact after_tokens e.derivation 0

theorem exists_next_of_flatten (h : e.flatten = front ++ t :: us) :
    ∃ x y, (operand 0).after front = some x ∧ x.next t = some y := by
  have ha := after_flatten e
  rw [h, after_append, Option.bind_eq_bind] at ha
  obtain ⟨x, hx, hr⟩ := Option.bind_eq_some_iff.mp ha
  rw [after_cons, Option.bind_eq_bind] at hr
  obtain ⟨y, hy, -⟩ := Option.bind_eq_some_iff.mp hr
  exact ⟨x, y, hx, hy⟩

theorem eq_operand_of_next {x y : Expectation} {n : Number} (h : x.next (.number n) = some y) :
    ∃ k, x = operand k := by
  cases x with
  | operand k => exact ⟨k, rfl⟩
  | operator k => cases h

theorem eq_operator_of_next {x y : Expectation} (h : x.next (.symbol .rightParen) = some y) :
    ∃ k, x = operator k := by
  cases x with
  | operand k => cases h
  | operator k => exact ⟨k, rfl⟩

theorem next_operand_eq_none (hn : t.isNumeric = false) (hp : t ≠ .symbol .leftParen) (k : Nat) :
    (operand k).next t = none := by
  cases t with
  | number n => cases hn
  | symbol s =>
    cases s with
    | leftParen => exact absurd rfl hp
    | _ => rfl

theorem next_operator_eq_none (h : Parser.AfterExpression (t :: us))
    (hp : t = .symbol .rightParen → k = 0) : (operator k).next t = none := by
  obtain ⟨⟨hpow, hmul⟩, hadd⟩ := h
  cases t with
  | number n => cases k <;> rfl
  | symbol s =>
    cases s with
    | leftParen => cases k <;> rfl
    | rightParen =>
      obtain rfl := hp rfl
      rfl
    | add => exact absurd rfl (hadd .add)
    | subtract => exact absurd rfl (hadd .subtract)
    | multiply => exact absurd rfl (hmul .multiply)
    | divide => exact absurd rfl (hmul .divide)
    | power => exact absurd rfl hpow

end Grammar

namespace Parser

open Grammar Expectation

/-- Tokens with which some list begins that is accepted within a limit on depth. -/
def Viable (limit : Nat) (ts : List Token) : Prop := ∃ us e, parse limit (ts ++ us) = .ok e

/-- What an alternative named in a rejection stands for: one level more is enough to go on with it
after the tokens that were read. -/
inductive GoesOn (limit : Nat) (ts : List Token) : String → Prop
  | number (h : ∀ n, Viable (limit + 1) (ts ++ [.number n])) : GoesOn limit ts "number"
  | opening (h : Viable (limit + 1) (ts ++ [.symbol .leftParen])) : GoesOn limit ts "("
  | closing (h : Viable (limit + 1) (ts ++ [.symbol .rightParen])) : GoesOn limit ts ")"
  | finish {e : Expression} (h : parse limit ts = .ok e) : GoesOn limit ts "end of input"

variable {limit limit' : Nat} {ts us front back : List Token} {t : Token} {e : Expression}
  {j : Rejection}

theorem viable_of_flatten (h : e.flatten = ts ++ us) (hn : e.nest ≤ limit) : Viable limit ts :=
  ⟨us, e, parse_eq_ok_iff.mpr ⟨h, hn⟩⟩

theorem viable_concat_of_flatten (h : e.flatten = ts ++ t :: us) (hn : e.nest ≤ limit) :
    Viable limit (ts ++ [t]) := by
  have hc : e.flatten = ts ++ [t] ++ us := by
    rw [h, List.append_assoc]
    rfl
  exact viable_of_flatten hc hn

theorem eq_of_toError_eq_rejected {r : Rejection} (h : r.toError = .rejected j) : r = j := by
  unfold Rejection.toError at h
  split at h
  · exact Error.rejected.inj h
  · exact Error.rejected.inj h
  · split at h
    · exact Error.rejected.inj h
    · cases h

theorem not_viable_concat {x : Expectation} (hx : (operand 0).after front = some x)
    (ht : x.next t = none) (limit : Nat) : ¬ Viable limit (front ++ [t]) := by
  rintro ⟨us, e, h⟩
  obtain ⟨he, -⟩ := parse_eq_ok_iff.mp h
  rw [List.append_assoc] at he
  obtain ⟨x', y, hx', hy⟩ := exists_next_of_flatten he
  rw [hx] at hx'
  rw [← Option.some.inj hx', ht] at hy
  cases hy

theorem viable_of_stalls {c : Cause}
    (h : Stalls Expression.flatten Expression.nest limit front back c)
    (hc : ∀ l, c ≠ .tooDeep l) : Viable limit front := by
  cases h with
  | depth l => exact absurd rfl (hc l)
  | operand hn hp hb =>
    obtain ⟨e, us, he, hd⟩ := hn (.integer 0)
    exact viable_of_flatten he hd
  | closing hp ha hb =>
    obtain ⟨e, us, he, hd⟩ := hp
    exact viable_of_flatten he hd

theorem not_viable_of_stalls {c : Cause}
    (h : Stalls Expression.flatten Expression.nest limit front (t :: us) c)
    (hc : ∀ l, c ≠ .tooDeep l) (limit' : Nat) : ¬ Viable limit' (front ++ [t]) := by
  cases h with
  | depth l => exact absurd rfl (hc l)
  | operand hn hp hb =>
    obtain ⟨e, us, he, -⟩ := hn (.integer 0)
    obtain ⟨x, y, hx, hy⟩ := exists_next_of_flatten he
    obtain ⟨k, rfl⟩ := eq_operand_of_next hy
    obtain ⟨hnum, hpar⟩ := hb t rfl
    exact not_viable_concat hx (next_operand_eq_none hnum hpar k) limit'
  | closing hp ha hb =>
    obtain ⟨e, us, he, -⟩ := hp
    obtain ⟨x, y, hx, hy⟩ := exists_next_of_flatten he
    obtain ⟨k, rfl⟩ := eq_operator_of_next hy
    exact not_viable_concat hx (next_operator_eq_none ha fun h => absurd (congrArg some h) hb) limit'

theorem goesOn_of_stalls
    (h : Stalls Expression.flatten Expression.nest limit front back j.cause) {name : String}
    (hm : name ∈ j.expected) : GoesOn limit front name := by
  unfold Rejection.expected at hm
  cases hc : j.cause with
  | tooDeep l =>
    rw [hc] at hm
    cases hm
  | expectedOperand =>
    rw [hc] at h hm
    cases h with
    | operand hn hp hb =>
      simp only [List.mem_cons, List.not_mem_nil, or_false] at hm
      obtain rfl | rfl := hm
      · refine .number fun n => ?_
        obtain ⟨e, us, he, hd⟩ := hn n
        exact viable_concat_of_flatten he (Nat.le_succ_of_le hd)
      · obtain ⟨e, us, he, hd⟩ := hp
        exact .opening (viable_concat_of_flatten he hd)
  | expectedClosing =>
    rw [hc] at h hm
    cases h with
    | closing hp ha hb =>
      obtain rfl := List.mem_singleton.mp hm
      obtain ⟨e, us, he, hd⟩ := hp
      exact .closing (viable_concat_of_flatten he (Nat.le_succ_of_le hd))
  | expectedEnd =>
    rw [hc] at h
    cases h

theorem not_viable_of_afterExpression (h : AfterExpression (t :: us)) (limit : Nat) :
    ¬ Viable limit (e.flatten ++ [t]) :=
  not_viable_concat (after_flatten e) (next_operator_eq_none h fun _ => rfl) limit

theorem document_eq_error_viable (h : document limit ts = .error j)
    (hc : ∀ l, j.cause ≠ .tooDeep l) :
    ∃ front back, front ++ back = ts ∧ j.found = back.head? ∧ Viable limit front ∧
      (∀ t ∈ back.head?, ∀ limit', ¬ Viable limit' (front ++ [t])) ∧
      ∀ name ∈ j.expected, GoesOn limit front name := by
  obtain ⟨front, back, hts, hfound, hs | ⟨hend, ha, e, rfl, hn⟩⟩ := document_eq_error h
  · refine ⟨front, back, hts, hfound, viable_of_stalls hs hc, ?_, fun _ => goesOn_of_stalls hs⟩
    intro t ht
    obtain ⟨us, rfl⟩ := List.head?_eq_some_iff.mp ht
    exact not_viable_of_stalls hs hc
  · have hp : parse limit e.flatten = .ok e := parse_eq_ok_iff.mpr ⟨rfl, hn⟩
    refine ⟨e.flatten, back, hts, hfound, ?_, ?_, ?_⟩
    · exact viable_of_flatten (List.append_nil _).symm hn
    · intro t ht
      obtain ⟨us, rfl⟩ := List.head?_eq_some_iff.mp ht
      exact not_viable_of_afterExpression ha
    · intro name hm
      unfold Rejection.expected at hm
      rw [hend] at hm
      obtain rfl := List.mem_singleton.mp hm
      exact .finish hp

/-- A rejection for anything but depth points at the first token that no expression can have there.
What stands before it begins one that is accepted, what goes up to it begins none at any depth, and
each alternative that is named could have stood in its place. -/
theorem rejection_at_first_impossible (h : parse limit ts = .error (.rejected j))
    (hc : ∀ l, j.cause ≠ .tooDeep l) :
    ∃ p ≤ ts.length, j.found = ts[p]? ∧ Viable limit (ts.take p) ∧
      (p < ts.length → ∀ limit', ¬ Viable limit' (ts.take (p + 1))) ∧
      ∀ name ∈ j.expected, GoesOn limit (ts.take p) name := by
  obtain ⟨j', hd, he⟩ := Outcome.mapError_eq_error_iff.mp h
  obtain rfl := eq_of_toError_eq_rejected he
  obtain ⟨front, back, rfl, hfound, hv, hnv, hgo⟩ := document_eq_error_viable hd hc
  refine ⟨front.length, by simp, ?_, ?_, ?_, ?_⟩
  · rw [hfound, List.getElem?_append_right (Nat.le_refl _), Nat.sub_self, List.head?_eq_getElem?]
  · rwa [List.take_left]
  · intro hp limit'
    cases back with
    | nil => simp at hp
    | cons t us =>
      have ht : (front ++ t :: us).take (front.length + 1) = front ++ [t] := by
        rw [List.take_length_add_append, List.take_succ_cons, List.take_zero]
      rw [ht]
      exact hnv t rfl limit'
  · rwa [List.take_left]

/-- In `(1(` the second parenthesis is the first impossible token. One that closes could have stood
in its place. -/
theorem rejection_of_second_parenthesis :
    ∃ ts : List Token, ts = [.symbol .leftParen, .number (.integer 1), .symbol .leftParen] ∧
      parse 2 ts = .error (.rejected ⟨.expectedClosing, some (.symbol .leftParen)⟩) ∧
      ∃ p ≤ ts.length, some (.symbol .leftParen) = ts[p]? ∧ Viable 2 (ts.take p) ∧
        (p < ts.length → ∀ limit', ¬ Viable limit' (ts.take (p + 1))) ∧
        GoesOn 2 (ts.take p) ")" := by
  have h : parse 2 [.symbol .leftParen, .number (.integer 1), .symbol .leftParen] =
      .error (.rejected ⟨.expectedClosing, some (.symbol .leftParen)⟩) := rfl
  obtain ⟨p, hp, hf, hv, hn, hg⟩ := rejection_at_first_impossible h fun l hl => by cases hl
  exact ⟨_, rfl, h, p, hp, hf, hv, hn, hg ")" List.mem_cons_self⟩

end Parser

end Abacus
