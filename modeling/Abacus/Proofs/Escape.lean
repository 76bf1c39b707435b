import Abacus.Proofs.Arithmetic
import Abacus.Proofs.Binary64.Value

namespace Abacus.Arithmetic

open Grammar Outcome Binary64

/-- The errors that are told in words of their own. The others come out of a conversion or a division
that was taken to have an answer. -/
def Error.IsReported : Error → Prop
  | fractionalDivisor => False
  | conversion _ => False
  | _ => True

/-- The computation ends in an error that is not reported. -/
def Escapes {α : Type} (x : Except Error α) : Prop := ∃ err, x = .error err ∧ ¬ err.IsReported

section

variable {α β : Type} {x : Except Error α} {err : Error}

@[simp]
theorem not_escapes_ok (a : α) : ¬ Escapes (.ok a : Except Error α) := by
  rintro ⟨err, h, -⟩
  cases h

@[simp]
theorem escapes_error : Escapes (.error err : Except Error α) ↔ ¬ err.IsReported := by
  constructor
  · rintro ⟨err', h, hr⟩
    cases h
    exact hr
  · exact fun h => ⟨err, rfl, h⟩

theorem not_escapes_error (h : err.IsReported) : ¬ Escapes (.error err : Except Error α) :=
  fun he => escapes_error.mp he h

theorem escapes_bind {f : α → Except Error β} :
    Escapes (x >>= f) ↔ Escapes x ∨ ∃ a, x = .ok a ∧ Escapes (f a) := by
  cases x with
  | error err =>
    constructor
    · rintro ⟨err', h, hr⟩
      cases h
      exact .inl ⟨err, rfl, hr⟩
    · rintro (⟨err', h, hr⟩ | ⟨a, ha, -⟩)
      · cases h
        exact ⟨err, rfl, hr⟩
      · cases ha
  | ok a =>
    constructor
    · exact fun h => .inr ⟨a, rfl, h⟩
    · rintro (h | ⟨a', ha, h⟩)
      · exact absurd h (not_escapes_ok a)
      · cases ha
        exact h

@[simp]
theorem escapes_map {f : α → β} : Escapes (x.map f) ↔ Escapes x := by
  simp only [Escapes, map_eq_error_iff]

end

/-- The size of a power that grows, with an exponent below the limit, is past the range of the numbers
it is estimated in. -/
structure Immeasurable (limit : Nat) (b e : Int) : Prop where
  base : 1 < b.natAbs
  nonneg : 0 ≤ e
  lt : e < limit
  infinite : ∀ x, Parts.ofInt? e = some x → Parts.isFinite (x * Logarithm.log2 b.natAbs) = false

variable {limit : Nat} {b e : Int} {x y z : Float} {op s : Symbol} {k : Kind} {l r : Result}
  {t u : NumberType}

theorem escapes_truncate : Escapes (truncate x) ↔ Parts.isFinite x = false := by
  unfold truncate
  split
  · next hn =>
    have hf : Parts.isFinite x = false :=
      decide_eq_false (Nat.lt_asymm (of_decide_eq_true hn))
    simp [Error.IsReported, hf]
  · split
    · next hf => simp [hf]
    · next hf => simp [Error.IsReported, hf]

theorem sizeEstimate_eq : sizeEstimate = fun b e =>
    (Parts.ofInt? e).elim (.error (.conversion .integerTooLarge)) fun x =>
      estimate x (Logarithm.log2 b.natAbs) := by
  delta sizeEstimate
  -- Applied to an integer, the conversion would be computed as far as its comparisons go.
  generalize Parts.ofInt? = f
  funext b e
  cases f e with
  | none => rfl
  | some x => rw [Option.elim_some]

theorem sizeEstimate_of_none (h : Parts.ofInt? e = none) :
    sizeEstimate b e = .error (.conversion .integerTooLarge) := by
  simp only [sizeEstimate_eq]
  rw [h, Option.elim_none]

theorem sizeEstimate_of_some (h : Parts.ofInt? e = some x) :
    sizeEstimate b e = estimate x (Logarithm.log2 b.natAbs) := by
  simp only [sizeEstimate_eq]
  rw [h, Option.elim_some]

theorem widen_eq : widen = fun d =>
    d.number?.elim (.error (.conversion (.missing .decimal))) fun
      | .decimal x => .ok x
      | .integer n => (Parts.ofInt? n).elim (.error (.tooLargeForDecimal n)) .ok := by
  delta widen
  generalize Parts.ofInt? = f
  -- A lemma of its own keeps the conversion open in what is checked.
  as_aux_lemma =>
    funext d
    obtain _ | n | x := d.number?
    · rfl
    · simp only [Option.elim_some]
      cases f n <;> rfl
    · rfl

theorem escapes_estimate : Escapes (estimate x y) ↔ Parts.isFinite (x * y) = false := by
  unfold estimate
  split
  · rw [escapes_map, escapes_truncate]
  · next hy =>
    have hxy : Parts.isFinite (x * y) = false :=
      Bool.eq_false_of_not_eq_true (mt Operations.isFinite_of_isFinite_mul hy)
    simp [Error.IsReported, hxy]

theorem escapes_sizeEstimate : Escapes (sizeEstimate b e) ↔
    ∀ x, Parts.ofInt? e = some x → Parts.isFinite (x * Logarithm.log2 b.natAbs) = false := by
  cases he : Parts.ofInt? e with
  | none =>
    rw [sizeEstimate_of_none he]
    simp [Error.IsReported]
  | some x =>
    rw [sizeEstimate_of_some he, escapes_estimate]
    simp

theorem escapes_budget :
    Escapes (budget limit b e) ↔ e < limit ∧ Escapes (sizeEstimate b e) := by
  unfold budget
  split
  · next h => simp [Error.IsReported, Int.not_lt.mpr h]
  · next h =>
    rw [escapes_bind, and_iff_right (Int.not_le.mp h), or_iff_left]
    rintro ⟨size, -, hs⟩
    split at hs
    · exact escapes_error.mp hs trivial
    · exact not_escapes_ok () hs

theorem escapes_integerPower :
    Escapes (integerPower (fixed limit) b e) ↔ Immeasurable limit b e := by
  -- Only a power that grows is estimated. The others have a value or a reported error.
  unfold integerPower
  split
  · next h =>
    refine iff_of_false (not_escapes_ok _) fun hi => ?_
    have hb := hi.base
    omega
  split
  · next h =>
    refine iff_of_false ?_ fun hi => ?_
    · split
      · exact not_escapes_error trivial
      · exact not_escapes_ok _
    · have hb := hi.base
      omega
  split
  · next h => exact iff_of_false (not_escapes_ok _) fun hi => Int.not_lt.mpr hi.nonneg h
  · have hb : 1 < b.natAbs := by omega
    have hp : Escapes (fixed limit >>= fun k =>
        ofExcept (budget k b e) >>= fun _ => pure (b.pow e.toNat)) ↔
          Escapes (budget limit b e) := by
      change Escapes (ofExcept (budget limit b e) >>= fun _ => _) ↔ _
      rw [ofExcept_eq, escapes_bind, or_iff_left]
      rintro ⟨_, -, hs⟩
      exact not_escapes_ok _ hs
    rw [hp, escapes_budget, escapes_sizeEstimate]
    constructor
    · rintro ⟨hl, hx⟩
      exact ⟨hb, by omega, hl, hx⟩
    · exact fun h => ⟨h.lt, h.infinite⟩

theorem not_escapes_widen (n : Number) : ¬ Escapes (widen (.number n)) := by
  simp only [widen_eq, Datum.number?, Option.elim_some]
  split
  · exact not_escapes_ok _
  · cases Parts.ofInt? _ with
    | none => exact not_escapes_error trivial
    | some x => exact not_escapes_ok x

theorem not_escapes_finite : ¬ Escapes (finite x op y z) := by
  unfold finite
  split
  · exact not_escapes_ok _
  · exact not_escapes_error trivial

theorem not_escapes_decimalBinary : ¬ Escapes (decimalBinary k x y) := by
  unfold decimalBinary
  split
  iterate 4 exact not_escapes_finite
  exact not_escapes_error trivial

theorem not_escapes_decimalPower : ¬ Escapes (decimalPower x y) := by
  unfold decimalPower
  split
  · exact not_escapes_finite
  all_goals exact not_escapes_error trivial

theorem not_escapes_widened {f : Float → Float → Except Error Result} (m n : Number)
    (hf : ∀ x y, ¬ Escapes (f x y)) :
    ¬ Escapes (do f (← widen (.number m)) (← widen (.number n))) := by
  intro h
  obtain h | ⟨x, -, h⟩ := escapes_bind.mp h
  · exact not_escapes_widen m h
  obtain h | ⟨y, -, h⟩ := escapes_bind.mp h
  · exact not_escapes_widen n h
  exact hf x y h

theorem not_escapes_integerBinary {m n : Int} (hn : ¬ (k = .symbol .divide ∧ n = 0)) :
    ¬ Escapes (integerBinary k m n) := by
  unfold integerBinary
  split
  iterate 3 exact not_escapes_ok _
  · rw [if_neg fun h => hn ⟨rfl, h⟩]
    exact not_escapes_ok _
  · exact not_escapes_error trivial

theorem exists_eq_ofInt_of_join (hl : l.HasType t) (hr : r.HasType u)
    (h : l.type.join r.type = .integer) : ∃ m n, l = .ofInt m ∧ r = .ofInt n := by
  rw [hl.type, hr.type] at h
  cases t <;> cases u <;> cases h
  obtain ⟨m, rfl⟩ := exists_eq_ofInt hl
  obtain ⟨n, rfl⟩ := exists_eq_ofInt hr
  exact ⟨m, n, rfl, rfl⟩

theorem not_escapes_binary (hl : l.HasType t) (hr : r.HasType u) :
    ¬ Escapes (binary k (.ofResult l) (.ofResult r)) := by
  unfold binary
  split
  · exact not_escapes_error trivial
  · next hz =>
    split
    · exact not_escapes_widened l.value r.value fun _ _ => not_escapes_decimalBinary
    · next hj =>
      obtain ⟨m, n, rfl, rfl⟩ := exists_eq_ofInt_of_join hl hr hj
      refine not_escapes_integerBinary (m := m) (n := n) fun h => hz ⟨h.1, ?_⟩
      exact decide_eq_true h.2

theorem escapes_power (hl : l.HasType t) (hr : r.HasType u) :
    Escapes (power (fixed limit) (.ofResult l) (.ofResult r)) ↔
      ∃ m n, l = .ofInt m ∧ r = .ofInt n ∧ Immeasurable limit m n := by
  unfold power
  split
  · next hj =>
    rw [ofExcept_eq]
    refine iff_of_false
      (not_escapes_widened l.value r.value fun _ _ => not_escapes_decimalPower) ?_
    rintro ⟨m, n, rfl, rfl, -⟩
    cases hj
  · next hj =>
    obtain ⟨m, n, rfl, rfl⟩ := exists_eq_ofInt_of_join hl hr hj
    change Escapes ((integerPower (fixed limit) m n).map Result.ofInt) ↔ _
    rw [escapes_map, escapes_integerPower]
    constructor
    · exact fun h => ⟨m, n, rfl, rfl, h⟩
    · rintro ⟨m', n', hm, hn, h⟩
      cases hm
      cases hn
      exact h

/-- On results, only powers of integers end in errors that are not reported. -/
theorem escapes_operate (hl : l.HasType t) (hr : r.HasType u) :
    Escapes (operate (fixed limit) s l r) ↔
      s = .power ∧ ∃ m n, l = .ofInt m ∧ r = .ofInt n ∧ Immeasurable limit m n := by
  unfold operate
  split
  · rw [escapes_power hl hr, and_iff_right rfl]
  · next hs =>
    rw [ofExcept_eq]
    exact iff_of_false (not_escapes_binary hl hr) fun h => hs h.1

end Abacus.Arithmetic
