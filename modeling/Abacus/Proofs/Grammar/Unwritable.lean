import Abacus.Proofs.Grammar.Lookahead

namespace Abacus.Parser

open Numeral Outcome

variable {limit limit' : Nat} {ts us front front' back back' : List Token} {t : Token}
  {j : Rejection}

theorem viable_of_append (us : List Token) (h : Viable limit (ts ++ us)) : Viable limit ts := by
  obtain ⟨vs, e, he⟩ := h
  rw [List.append_assoc] at he
  exact ⟨us ++ vs, e, he⟩

theorem toError_eq_unwritable_iff : j.toError = .unwritable t ↔
    (∀ l, j.cause ≠ .tooDeep l) ∧ j.found = some t ∧ t.isWritable = false := by
  obtain ⟨cause, found⟩ := j
  have hc : (∃ l, cause = .tooDeep l) ∨ ∀ l, cause ≠ .tooDeep l := by
    cases cause <;> simp
  obtain ⟨l, rfl⟩ | hc := hc
  · simp [Rejection.toError]
  · cases found with
    | none => cases cause <;> simp [Rejection.toError]
    | some u =>
      have he : (Rejection.mk cause (some u)).toError =
          if u.isWritable then .rejected ⟨cause, some u⟩ else .unwritable u := by
        cases cause with
        | tooDeep l => exact absurd rfl (hc l)
        | expectedOperand | expectedClosing | expectedEnd => rfl
      rw [he]
      by_cases hu : u.isWritable = true
      · rw [if_pos hu]
        simp only [reduceCtorEq, false_iff]
        rintro ⟨-, ht, hw⟩
        cases ht
        rw [hu] at hw
        cases hw
      · rw [if_neg hu]
        simp only [Error.unwritable.injEq, Option.some.injEq]
        constructor
        · rintro rfl
          exact ⟨hc, rfl, eq_false_of_ne_true hu⟩
        · exact fun h => h.2.1

theorem not_viable_of_tooDeep (h : document limit ts = .error j) {l : Nat}
    (hc : j.cause = .tooDeep l) :
    ∃ front back limit', front ++ back = ts ∧ Viable limit' front ∧ ¬ Viable limit front := by
  have he : expression limit limit ts = .error j := by
    obtain h | ⟨⟨e, rest⟩, -, hk⟩ := bind_eq_error_iff.mp h
    · exact h
    · cases rest with
      | nil => cases hk
      | cons t rest =>
        cases hk
        cases hc
  obtain ⟨front, back, hts, -, ⟨e, us, hf⟩, hall⟩ :=
    (factor_and_expression_refuse limit limit).2 ts j he
  refine ⟨front, back, e.nest, hts, viable_of_flatten hf (Nat.le_refl _), ?_⟩
  rintro ⟨vs, e', hv⟩
  obtain ⟨⟨e'', rest⟩, hr, -⟩ := bind_eq_ok_iff.mp (mapError_eq_ok_iff.mp hv)
  rw [hall vs (.inr ⟨l, hc⟩)] at hr
  cases hr

theorem eq_append_of_viable (hts : front ++ t :: back = front' ++ back')
    (hn : ∀ limit, ¬ Viable limit (front ++ [t])) (hv : Viable limit front') :
    ∃ us, front = front' ++ us ∧ back' = us ++ t :: back := by
  obtain ⟨us, hf, hb⟩ | h := List.append_eq_append_iff.mp hts
  · cases us with
    | nil => exact ⟨[], by simpa using hf.symm, by simpa using hb.symm⟩
    | cons u us =>
      obtain ⟨rfl, -⟩ := List.cons.inj hb
      have hu : Viable limit (front ++ [t] ++ us) := by
        rw [List.append_assoc]
        exact hf ▸ hv
      exact absurd (viable_of_append us hu) (hn limit)
  · exact h

theorem document_of_impossible (hv : Viable limit front)
    (hn : ∀ limit, ¬ Viable limit (front ++ [t])) (back : List Token) :
    ∃ j, document limit (front ++ t :: back) = .error j ∧ (∀ l, j.cause ≠ .tooDeep l) ∧
      j.found = some t := by
  cases hd : document limit (front ++ t :: back) with
  | ok e =>
    have hp : parse limit (front ++ [t] ++ back) = .ok e := by
      rw [List.append_assoc]
      exact mapError_eq_ok_iff.mpr hd
    exact absurd ⟨back, e, hp⟩ (hn limit)
  | error j =>
    have hc : ∀ l, j.cause ≠ .tooDeep l := by
      intro l hc
      obtain ⟨front', back', limit', hts, hv', hn'⟩ := not_viable_of_tooDeep hd hc
      obtain ⟨us, rfl, -⟩ := eq_append_of_viable hts.symm hn hv'
      exact hn' (viable_of_append us hv)
    obtain ⟨front', back', hts, hfound, hv', hn', -⟩ := document_eq_error_viable hd hc
    obtain ⟨us, rfl, rfl⟩ := eq_append_of_viable hts.symm hn hv'
    refine ⟨j, rfl, hc, ?_⟩
    cases us with
    | nil => exact hfound
    | cons u us =>
      have hu : Viable limit (front' ++ [u] ++ us) := by rwa [List.append_assoc]
      exact absurd (viable_of_append us hu) (hn' u rfl limit)

/-- The token whose text a rejection cannot show is the first impossible one. -/
theorem parse_eq_unwritable_iff : parse limit ts = .error (.unwritable t) ↔
    t.isWritable = false ∧ ∃ front back, front ++ t :: back = ts ∧ Viable limit front ∧
      ∀ limit', ¬ Viable limit' (front ++ [t]) := by
  rw [parse, mapError_eq_error_iff]
  constructor
  · rintro ⟨j, hd, he⟩
    obtain ⟨hc, hf, hw⟩ := toError_eq_unwritable_iff.mp he
    obtain ⟨front, back, hts, hfound, hv, hn, -⟩ := document_eq_error_viable hd hc
    obtain ⟨back, rfl⟩ := List.head?_eq_some_iff.mp (hfound.symm.trans hf)
    exact ⟨hw, front, back, hts, hv, hn t rfl⟩
  · rintro ⟨hw, front, back, rfl, hv, hn⟩
    obtain ⟨j, hd, hc, hf⟩ := document_of_impossible hv hn back
    exact ⟨j, hd, toError_eq_unwritable_iff.mpr ⟨hc, hf, hw⟩⟩

theorem isWritable_integer_iff {n : Int} :
    Integer.isWritable n = true ↔ (Nat.toDigits 10 n.natAbs).length ≤ longest := by
  have hl : 0 < longest := by decide
  unfold Integer.isWritable Integer.bound
  generalize longest = k at hl ⊢
  rw [decide_eq_true_iff]
  exact (Nat.length_toDigits_le_iff (by decide) hl).symm

theorem isWritable_eq_false_iff : t.isWritable = false ↔
    ∃ n, t = .number (.integer n) ∧ longest < (Nat.toDigits 10 n.natAbs).length := by
  cases t with
  | symbol s => simp [Token.isWritable]
  | number n =>
    cases n with
    | decimal x => simp [Token.isWritable, Number.isWritable]
    | integer n =>
      have hw : Token.isWritable (.number (.integer n)) = Integer.isWritable n := rfl
      rw [hw, ← Bool.not_eq_true, isWritable_integer_iff, Nat.not_le]
      exact ⟨fun h => ⟨n, rfl, h⟩, fun ⟨m, he, h⟩ => by cases he; exact h⟩

/-- Tokens are answered with a tree or a rejection, unless the first of them that no expression can
have at its place is an integer with too many digits to be written. -/
theorem parse_answers_iff (limit : Nat) (ts : List Token) :
    ((∃ e, parse limit ts = .ok e) ∨ ∃ j, parse limit ts = .error (.rejected j)) ↔
      ¬ ∃ front n back, front ++ .number (.integer n) :: back = ts ∧ Viable limit front ∧
        (∀ limit', ¬ Viable limit' (front ++ [.number (.integer n)])) ∧
        longest < (Nat.toDigits 10 n.natAbs).length := by
  have hu : (∃ front n back, front ++ .number (.integer n) :: back = ts ∧ Viable limit front ∧
      (∀ limit', ¬ Viable limit' (front ++ [.number (.integer n)])) ∧
      longest < (Nat.toDigits 10 n.natAbs).length) ↔
        ∃ t, parse limit ts = .error (.unwritable t) := by
    simp only [parse_eq_unwritable_iff, isWritable_eq_false_iff]
    constructor
    · rintro ⟨front, n, back, hts, hv, hn, hl⟩
      exact ⟨_, ⟨n, rfl, hl⟩, front, back, hts, hv, hn⟩
    · rintro ⟨t, ⟨n, rfl, hl⟩, front, back, hts, hv, hn⟩
      exact ⟨front, n, back, hts, hv, hn, hl⟩
  rw [hu]
  cases parse limit ts with
  | ok e => simp
  | error err => cases err <;> simp

/-- An integer with one digit too many after a complete expression. -/
theorem parse_answers_not_of_long :
    let ts : List Token := [.number (.integer 1), .number (.integer (.ofNat (Nat.pow 10 4300)))]
    ¬ ((∃ e, parse 1 ts = .ok e) ∨ ∃ j, parse 1 ts = .error (.rejected j)) := by
  have hw : Integer.isWritable (.ofNat (Nat.pow 10 4300)) = false := by decide +kernel
  generalize Int.ofNat (Nat.pow 10 4300) = n at hw
  intro ts
  have hd : document 1 ts = .error ⟨.expectedEnd, some (.number (.integer n))⟩ := rfl
  have hp : parse 1 ts = .error (.unwritable (.number (.integer n))) :=
    mapError_eq_error_iff.mpr ⟨_, hd, toError_eq_unwritable_iff.mpr ⟨nofun, rfl, hw⟩⟩
  rw [hp]
  rintro (⟨e, h⟩ | ⟨j, h⟩) <;> cases h

end Abacus.Parser
