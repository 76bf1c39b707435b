import Abacus.Proofs.Lexer.Numbers

namespace Abacus

open Numeral

theorem isRead_of_isFinite {n : Number} (hw : n.isWritable = true) (hf : n.isFinite = true) :
    n.IsRead := by
  cases n with
  | integer n => exact hw
  | decimal x =>
    have hm : Binary64.Parts.magnitude x < Binary64.Rounding.infinity := of_decide_eq_true hf
    exact decide_eq_false (Nat.lt_asymm hm)

namespace Lexer

def joined (ts : List Token) : List Char := [' '].intercalate (ts.map Token.lexeme)

def padded (ts : List Token) : List Char := ts.flatMap fun t => t.lexeme ++ [' ']

variable {t : Token} {ts us front back : List Token} {n : Number}

theorem exists_joined_append (front : List Token) (t : Token) (back : List Token) :
    ∃ rest, joined (front ++ t :: back) = padded front ++ (t.lexeme ++ rest) ∧
      (back = [] → rest = []) := by
  induction front with
  | nil =>
    cases back with
    | nil => exact ⟨[], by simp [joined, padded], fun _ => rfl⟩
    | cons u back => exact ⟨' ' :: joined (u :: back), by simp [joined, padded], by simp⟩
  | cons v front ih =>
    obtain ⟨rest, hr, hb⟩ := ih
    refine ⟨rest, ?_, hb⟩
    have hp : padded (v :: front) = v.lexeme ++ ' ' :: padded front := by simp [padded]
    rw [hp, List.append_assoc, List.cons_append, List.cons_append, ← hr]
    cases front <;> simp [joined]

theorem exists_passes_lexeme (hw : t.isWritable = true)
    (hf : ∀ n, t = .number n → n.isFinite = true) :
    ∃ s' us due, Passes .start t.lexeme s' us ∧ s'.settled = .ok due ∧ us ++ due = [t] := by
  cases t with
  | symbol x => exact exists_passes_char x
  | number n =>
    obtain ⟨l, hl, hs⟩ := exists_literal_lexeme (isRead_of_isFinite hw (hf n rfl)) (hf n rfl)
    have hp := passes_text l
    rw [hl] at hp
    exact ⟨literalState l, [], [.number n], hp, hs, rfl⟩

/-- The space after a lexeme settles what is due. -/
theorem passes_padded (hw : ∀ t ∈ ts, t.isWritable = true)
    (hf : ∀ n, .number n ∈ ts → n.isFinite = true) : Passes .start (padded ts) .start ts := by
  induction ts with
  | nil => exact .nil .start
  | cons t ts ih =>
    obtain ⟨ht, hts⟩ := List.forall_mem_cons.mp hw
    obtain ⟨s', us, due, hp, hs, he⟩ :=
      exists_passes_lexeme ht fun n hn => hf n (hn ▸ List.mem_cons_self)
    have hr := ih hts fun n hn => hf n (List.mem_cons_of_mem t hn)
    have h := passes_append (passes_append hp (passes_space hs)) hr
    rw [he] at h
    exact h

theorem scan_joined_of_isFinite (hw : ∀ t ∈ ts, t.isWritable = true)
    (hf : ∀ n, .number n ∈ ts → n.isFinite = true) : (scan (joined ts)).result = .ok ts := by
  rcases List.eq_nil_or_concat' ts with rfl | ⟨front, t, rfl⟩
  · rfl
  · obtain ⟨rest, hj, hr⟩ := exists_joined_append front t []
    obtain ⟨hwf, hwt⟩ := List.forall_mem_append.mp hw
    obtain ⟨s', us, due, hp, hs, he⟩ := exists_passes_lexeme (hwt t (List.mem_singleton.mpr rfl))
      fun n hn => hf n (List.mem_append_right _ (hn ▸ List.mem_cons_self))
    have h := passes_append (passes_padded hwf fun n hn => hf n (List.mem_append_left _ hn)) hp
    rw [hj, hr rfl, List.append_nil, scan_of_passes h hs, List.append_assoc, he]

theorem exists_stranger_lexeme (hf : n.isFinite = false) :
    ∃ s' xs c rest, n.lexeme = xs ++ c :: rest ∧ Passes .start xs s' [] ∧
      CharClass.ofChar? c = none := by
  cases n with
  | integer n => cases hf
  | decimal x =>
    by_cases hn : Binary64.Parts.isNaN x = true
    · refine ⟨.start, [], 'n', ['a', 'n'], ?_, .nil .start, by decide⟩
      simp [Number.lexeme, Decimal.plain, Decimal.render, hn]
    · have hm (offset : Nat) : read .start offset '-' = .ok (.hyphen, []) := rfl
      obtain hl | hl := lexeme_of_not_isFinite (n := .decimal x) (Bool.eq_false_of_not_eq_true hn) hf
      · exact ⟨.start, [], 'i', ['n', 'f'], hl, .nil .start, by decide⟩
      · exact ⟨.hyphen, ['-'], 'i', ['n', 'f'], hl, passes_singleton hm, by decide⟩

theorem scan_joined_of_not_isFinite (hw : ∀ t ∈ ts, t.isWritable = true)
    (hn : ∃ n, .number n ∈ ts ∧ n.isFinite = false) :
    ∃ offset c, (scan (joined ts)).result = .error ⟨.unrecognized, offset, some c⟩ := by
  obtain ⟨front, n, back, rfl, hfront, hf⟩ := exists_first_not_finite hn
  obtain ⟨s', xs, c, rest, hl, hx, hc⟩ := exists_stranger_lexeme hf
  obtain ⟨tail, hj, -⟩ := exists_joined_append front (.number n) back
  have hp := passes_append (passes_padded (List.forall_mem_append.mp hw).1 hfront) hx
  have ht : joined (front ++ .number n :: back) = (padded front ++ xs) ++ c :: (rest ++ tail) := by
    rw [hj, Token.lexeme, hl]
    simp only [List.append_assoc, List.cons_append]
  rw [ht]
  exact ⟨_, c, scan_stranger hp hc (rest ++ tail)⟩

/-- Tokens are read again from their lexemes with spaces between them, whatever stands next to what,
if the numbers among them are finite. The letters of one that is not are no characters of an
expression. -/
theorem scan_joined :
    (∀ ts : List Token, (∀ t ∈ ts, t.isWritable = true) →
      ((∀ n, .number n ∈ ts → n.isFinite = true) → (scan (joined ts)).result = .ok ts) ∧
      ((∃ n, .number n ∈ ts ∧ n.isFinite = false) →
        ∃ offset c, (scan (joined ts)).result = .error ⟨.unrecognized, offset, some c⟩)) ∧
    ∀ (source : List Char) (ts : List Token), (scan source).result = .ok ts →
      (∀ n, .number n ∈ ts → n.isFinite = true) → (scan (joined ts)).result = .ok ts := by
  refine ⟨fun ts hw => ⟨scan_joined_of_isFinite hw, scan_joined_of_not_isFinite hw⟩, ?_⟩
  intro source ts h hf
  exact scan_joined_of_isFinite (fun t ht => isWritable_of_scan h ht) hf

theorem scan_joined_hyphens :
    (scan "- - -5 -0.0 )".toList).result = .ok [.symbol .subtract, .symbol .subtract,
      .number (.integer (-5)), .number (.decimal (Binary64.Parts.ofParts true 0)),
      .symbol .rightParen] ∧
    (∃ offset c, (scan "2 -inf".toList).result = .error ⟨.unrecognized, offset, some c⟩) ∧
    (scan "3--5".toList).result = .ok [.number (.integer 3), .symbol .subtract,
      .number (.integer (-5))] ∧
    (scan "3 - -5".toList).result = .ok [.number (.integer 3), .symbol .subtract,
      .number (.integer (-5))] := by
  let zero : Number := .decimal (Binary64.Parts.ofParts true 0)
  let infinity : Number := .decimal (Binary64.Parts.ofParts true Binary64.Rounding.infinity)
  let hyphens : List Token := [.symbol .subtract, .symbol .subtract, .number (.integer (-5)),
    .number zero, .symbol .rightParen]
  let endless : List Token := [.number (.integer 2), .number infinity]
  have hh : joined hyphens = "- - -5 -0.0 )".toList := by decide +kernel
  have he : joined endless = "2 -inf".toList := by decide +kernel
  have hs : (scan "3--5".toList).result = .ok [.number (.integer 3), .symbol .subtract,
      .number (.integer (-5))] := by decide +kernel
  have hi (n : Int) : (Number.integer n).isFinite = true := rfl
  have hz : zero.isFinite = true := by decide +kernel
  refine ⟨?_, ?_, hs, ?_⟩
  · rw [← hh]
    exact (scan_joined.1 hyphens (by decide +kernel)).1 (by simp [hyphens, hi, hz])
  · rw [← he]
    exact (scan_joined.1 endless (by decide +kernel)).2
      ⟨infinity, by simp [endless], by decide +kernel⟩
  · exact scan_joined.2 _ _ hs (by simp [hi])

end Lexer

end Abacus
