import Abacus.Proofs.Grammar.Meaning
import Abacus.Proofs.Outcome

namespace Abacus

/-- The result counts as a type which is that of its value. -/
structure Result.HasType (r : Result) (t : NumberType) : Prop where
  type : r.type = t
  value : r.value.type = t

/-- What operations give: a result of the type, which is an integer or a finite decimal. -/
structure Result.IsComputed (r : Result) (t : NumberType) : Prop extends Result.HasType r t where
  isFinite : r.value.isFinite = true

theorem hasType_ofNumber (n : Number) : (Result.ofNumber n).HasType n.type := ⟨rfl, rfl⟩

theorem exists_eq_ofInt {r : Result} (h : r.HasType .integer) : ∃ n, r = .ofInt n := by
  obtain ⟨t, n | x⟩ := r
  · obtain ⟨rfl, -⟩ := h
    exact ⟨n, rfl⟩
  · cases h.value

namespace Arithmetic

open Grammar Outcome

variable {x y z : Float} {op s : Symbol} {k : Kind} {a b r : Result} {l m : Operand} {t u : NumberType}
  {limit : Except Error Nat}

theorem ofExcept_eq {α : Type} (x : Except Error α) : (ofExcept x : Except Error α) = x := by
  cases x <;> rfl

theorem isComputed_of_finite (h : finite x op y z = .ok r) : r.IsComputed .decimal := by
  unfold finite at h
  split at h
  · next hz =>
    cases h
    exact ⟨⟨rfl, rfl⟩, hz⟩
  · cases h

theorem isComputed_of_decimalBinary (h : decimalBinary k x y = .ok r) : r.IsComputed .decimal := by
  unfold decimalBinary at h
  split at h
  iterate 4 exact isComputed_of_finite h
  cases h

theorem isComputed_of_integerBinary {i j : Int} (h : integerBinary k i j = .ok r) :
    r.IsComputed .integer := by
  unfold integerBinary at h
  split at h
  iterate 3
    cases h
    exact ⟨⟨rfl, rfl⟩, rfl⟩
  · split at h <;> cases h
    exact ⟨⟨rfl, rfl⟩, rfl⟩
  · cases h

theorem isComputed_of_decimalPower (h : decimalPower x y = .ok r) : r.IsComputed .decimal := by
  unfold decimalPower at h
  split at h
  · exact isComputed_of_finite h
  all_goals cases h

theorem isComputed_of_binary (h : binary k l m = .ok r) : r.IsComputed (l.type.join m.type) := by
  unfold binary at h
  split at h
  · cases h
  · split at h
    · next ht =>
      obtain ⟨x, -, h⟩ := bind_eq_ok_iff.mp h
      obtain ⟨y, -, h⟩ := bind_eq_ok_iff.mp h
      exact ht ▸ isComputed_of_decimalBinary h
    · next ht =>
      obtain ⟨i, -, h⟩ := bind_eq_ok_iff.mp h
      obtain ⟨j, -, h⟩ := bind_eq_ok_iff.mp h
      exact ht ▸ isComputed_of_integerBinary h

theorem isComputed_of_power (h : power limit l m = .ok r) : r.IsComputed (l.type.join m.type) := by
  unfold power at h
  split at h
  · next ht =>
    rw [ofExcept_eq] at h
    obtain ⟨x, -, h⟩ := bind_eq_ok_iff.mp h
    obtain ⟨y, -, h⟩ := bind_eq_ok_iff.mp h
    exact ht ▸ isComputed_of_decimalPower h
  · next ht =>
    obtain ⟨p, -, h⟩ := bind_eq_ok_iff.mp h
    obtain ⟨n, -, rfl⟩ := map_eq_ok_iff.mp h
    exact ht ▸ ⟨hasType_ofNumber _, rfl⟩

theorem isComputed_of_operate (h : operate limit s a b = .ok r) :
    r.IsComputed (a.type.join b.type) := by
  unfold operate at h
  split at h
  · exact isComputed_of_power h
  · rw [ofExcept_eq] at h
    exact isComputed_of_binary h

end Arithmetic

end Abacus
