import Abacus.Proofs.Lexer.Passage
import Abacus.Proofs.Lexer.Places
import Abacus.Proofs.Numeral.Positional

namespace Abacus

open Numeral Numeral.Reading Text

def Number.IsRead : Number → Prop
  | .integer n => Integer.isWritable n = true
  | .decimal x => Binary64.Parts.isNaN x = false

theorem value_lt {ds : List Char} (h : ∀ c ∈ ds, Digit.isAscii c = true) :
    value ds < 10 ^ ds.length := by
  induction ds with
  | nil => decide
  | cons c ds ih =>
    have hc : Digit.isAscii c = true := h c List.mem_cons_self
    have hv : value [c] < 10 := by
      simp only [Digit.isAscii, Bool.and_eq_true, decide_eq_true_eq] at hc
      have h₂ : c.toNat ≤ 57 := hc.2
      change 10 * 0 + (c.toNat - 48) < 10
      omega
    have hd := ih fun d hd => h d (List.mem_cons_of_mem c hd)
    have ha : value (c :: ds) = value [c] * 10 ^ ds.length + value ds := value_append [c] ds
    calc
      value (c :: ds) < value [c] * 10 ^ ds.length + 10 ^ ds.length := by omega
      _ = (value [c] + 1) * 10 ^ ds.length := (Nat.succ_mul ..).symm
      _ ≤ 10 * 10 ^ ds.length := Nat.mul_le_mul_right _ hv
      _ = 10 ^ (c :: ds).length := (Nat.pow_succ').symm

theorem isWritable_integer {l : Literal} (h : l.whole.length ≤ longest) :
    Integer.isWritable l.integer = true := by
  have hv : value l.whole < 10 ^ l.whole.length := value_lt l.isAscii_whole
  have hn : l.integer.natAbs = value l.whole := by
    unfold Literal.integer
    split <;> omega
  have hb : 10 ^ l.whole.length ≤ Integer.bound := by
    unfold Integer.bound
    generalize longest = k at h ⊢
    exact Nat.pow_le_pow_right (by decide) h
  apply decide_eq_true
  rw [hn]
  exact Nat.lt_of_lt_of_le hv hb

theorem exists_first_not_finite {ts : List Token}
    (h : ∃ n, .number n ∈ ts ∧ n.isFinite = false) :
    ∃ front n back, ts = front ++ .number n :: back ∧
      (∀ m, .number m ∈ front → m.isFinite = true) ∧ n.isFinite = false := by
  induction ts with
  | nil =>
    obtain ⟨n, hn, -⟩ := h
    cases hn
  | cons t ts ih =>
    by_cases ht : ∃ n, t = .number n ∧ n.isFinite = false
    · obtain ⟨n, rfl, hf⟩ := ht
      exact ⟨[], n, ts, rfl, fun m hm => absurd hm List.not_mem_nil, hf⟩
    · obtain ⟨n, hn, hf⟩ := h
      have hts : .number n ∈ ts :=
        (List.mem_cons.mp hn).resolve_left fun he => ht ⟨n, he.symm, hf⟩
      obtain ⟨front, k, back, rfl, hfront, hk⟩ := ih ⟨n, hts, hf⟩
      refine ⟨t :: front, k, back, rfl, fun m hm => ?_, hk⟩
      obtain he | hm := List.mem_cons.mp hm
      · by_contra hmf
        exact ht ⟨m, he.symm, Bool.eq_false_of_not_eq_true hmf⟩
      · exact hfront m hm

namespace Lexer

variable {s s' : State} {before rest : List Char} {offset : Nat} {c : Char} {ts us : List Token}
  {n : Number}

theorem isRead_of_settled (h : Tracks before s) (hv : s.settled = .ok us) (hn : .number n ∈ us) :
    n.IsRead := by
  cases h with
  | start h =>
    cases hv
    cases hn
  | hyphen h =>
    cases hv
    cases List.mem_singleton.mp hn
  | integer h l hf =>
    rw [settled_integer hf] at hv
    by_cases hl : longest < l.whole.length
    · rw [if_pos hl] at hv
      cases hv
    · rw [if_neg hl] at hv
      cases hv
      cases List.mem_singleton.mp hn
      exact isWritable_integer (Nat.not_lt.mp hl)
  | decimal h l hf =>
    rw [settled_decimal hf] at hv
    cases hv
    cases List.mem_singleton.mp hn
    exact Binary64.Parts.isNaN_ofParts

theorem mem_settled_of_read (hr : read s offset c = .ok (s', us)) (hn : .number n ∈ us) :
    ∃ vs, s.settled = .ok vs ∧ .number n ∈ vs := by
  cases moves_of_read hr with
  | digit | point => cases hn
  | blank hv | sign hv => exact ⟨us, hv, hn⟩
  | operator hv | minus hv => exact ⟨_, hv, by simpa using hn⟩

theorem isRead_of_scanFrom (h : Tracks before s) (hr : (scanFrom s offset rest).result = .ok ts)
    (hn : .number n ∈ ts) : n.IsRead := by
  induction rest generalizing s before offset ts with
  | nil =>
    rw [result_scanFrom_nil, finish_eq_flush, flush_eq_ok_iff] at hr
    exact isRead_of_settled h hr hn
  | cons c rest ih =>
    rw [result_scanFrom_cons] at hr
    obtain ⟨⟨s', us⟩, hs, hr⟩ := Outcome.bind_eq_ok_iff.mp hr
    obtain ⟨vs, hv, rfl⟩ := Outcome.map_eq_ok_iff.mp hr
    obtain hn | hn := List.mem_append.mp hn
    · obtain ⟨ws, hw, hn⟩ := mem_settled_of_read hs hn
      exact isRead_of_settled h hw hn
    · exact ih (tracks_read h hs) hv hn

theorem isRead_of_scan {source : List Char} (h : (scan source).result = .ok ts)
    (hn : .number n ∈ ts) : n.IsRead := by
  have hs : Tracks [] .start := .start rfl
  exact isRead_of_scanFrom hs h hn

/-- What was read from a source can be written again. -/
theorem isWritable_of_scan {source : List Char} (h : (scan source).result = .ok ts) {t : Token}
    (ht : t ∈ ts) : t.isWritable = true := by
  cases t with
  | symbol k => rfl
  | number n =>
    have hr : n.IsRead := isRead_of_scan h ht
    cases n with
    | integer n => exact hr
    | decimal x => rfl

theorem exists_literal_lexeme (hr : n.IsRead) (hf : n.isFinite = true) :
    ∃ l : Literal, l.text = n.lexeme ∧ (literalState l).settled = .ok [.number n] := by
  cases n with
  | integer n =>
    obtain ⟨l, hl, hw, ht, rfl⟩ := exists_literal_text n
    have hd : ¬ longest < l.whole.length := by
      rw [hw]
      exact Nat.not_lt.mpr (Integer.length_toDigits_le_of_isWritable hr)
    refine ⟨l, ht, ?_⟩
    rw [literalState, if_pos hl, settled_integer hl, if_neg hd]
  | decimal x =>
    obtain ⟨l, ds, hl, -, -, ht, hx⟩ := exists_literal_plain hf
    have hn : l.fraction ≠ none := by
      rw [hl]
      exact Option.some_ne_none ds
    rw [Decimal.read_text hl] at hx
    refine ⟨l, ht, ?_⟩
    rw [literalState, if_neg hn, settled_decimal hl, Except.ok.inj hx]

theorem lexeme_of_not_isFinite (hr : n.IsRead) (hf : n.isFinite = false) :
    n.lexeme = ['i', 'n', 'f'] ∨ n.lexeme = ['-', 'i', 'n', 'f'] := by
  cases n with
  | integer n => cases hf
  | decimal x =>
    change Binary64.Parts.isFinite x = false at hf
    change Binary64.Parts.isNaN x = false at hr
    change Decimal.plain x = _ ∨ Decimal.plain x = _
    rw [Decimal.plain, Decimal.render, hr, hf]
    cases Binary64.Parts.isNegative x with
    | false => exact .inl rfl
    | true => exact .inr rfl

end Lexer

end Abacus
