import Abacus.Proofs.Lexer.Passage

namespace Abacus.Lexer

open Numeral Text

variable {s s' : State} {offset : Nat} {xs text : List Char} {ts us : List Token} {e : Error}

theorem exists_scanFrom_append (h : Passes s xs s' ts) (offset : Nat) :
    ∃ emitted : List (Token × Nat), emitted.map Prod.fst = ts ∧ ∀ rest,
      scanFrom s offset (xs ++ rest) =
        ⟨emitted ++ (scanFrom s' (offset + xs.length) rest).emitted,
          (scanFrom s' (offset + xs.length) rest).error⟩ := by
  induction h generalizing offset with
  | nil s => exact ⟨[], rfl, fun rest => rfl⟩
  | @cons s s₁ s₂ c cs ts us hr h ih =>
    obtain ⟨emitted, he, hs⟩ := ih (offset + 1)
    refine ⟨ts.map (fun t => (t, offset)) ++ emitted, ?_, fun rest => ?_⟩
    · simp [he, Function.comp_def]
    · have hl : offset + 1 + cs.length = offset + (c :: cs).length := by
        rw [List.length_cons]
        omega
      rw [List.cons_append, scanFrom, hr offset]
      simp only [hs, Scan.prepend, List.append_assoc, hl]

theorem exists_stop (h : (scanFrom s offset text).error = some e) :
    ∃ before after s' ts, text = before ++ after ∧ Passes s before s' ts ∧
      e.offset = offset + before.length ∧ e.char = after.head? ∧
      ∀ rest : List Char, rest.head? = after.head? → scanFrom s' e.offset rest = .fail e := by
  induction text generalizing s offset with
  | nil =>
    rw [scanFrom] at h
    cases hf : finish s offset with
    | ok ts =>
      rw [hf] at h
      cases h
    | error e' =>
      rw [hf] at h
      cases h
      obtain ⟨ho, hc⟩ := place_of_finish hf
      refine ⟨[], [], s, [], rfl, .nil s, ho, hc, fun rest hr => ?_⟩
      obtain rfl := List.head?_eq_none_iff.mp hr
      rw [ho, scanFrom, hf]
  | cons c text ih =>
    rw [scanFrom] at h
    cases hr : read s offset c with
    | ok p =>
      rw [hr] at h
      obtain ⟨before, after, s', ts, rfl, hp, ho, hc, hs⟩ := ih h
      refine ⟨c :: before, after, s', p.2 ++ ts, rfl, ?_, ?_, hc, hs⟩
      · exact .cons (read_eq_ok_of_read hr) hp
      · rw [List.length_cons, ho]
        omega
    | error e' =>
      rw [hr] at h
      cases h
      obtain ⟨ho, hc⟩ := place_of_read hr
      refine ⟨[], c :: text, s, [], rfl, .nil s, ho, hc, fun rest hd => ?_⟩
      obtain ⟨rest, rfl⟩ := List.head?_eq_some_iff.mp hd
      rw [ho, scanFrom, hr]

theorem passes_of_error (h : (scan text).error = some e) :
    ∃ s, Passes .start (text.take e.offset) s (scan text).tokens := by
  obtain ⟨before, after, s, ts, rfl, hp, ho, -, hs⟩ := exists_stop h
  obtain ⟨emitted, rfl, ha⟩ := exists_scanFrom_append hp 0
  rw [Nat.zero_add] at ho
  refine ⟨s, ?_⟩
  have ht : (scan (before ++ after)).tokens = emitted.map Prod.fst := by
    rw [scan, ha, Nat.zero_add, ← ho, hs after rfl]
    simp [Scan.tokens, Scan.fail]
  rwa [ht, ho, List.take_left]

/-- Where a scan stops, it has emitted the tokens of the text before the error except for the one that
is pending there, if any is. -/
theorem tokens_of_stop (h : (scan text).error = some e)
    (hu : (scan (text.take e.offset)).result = .ok us) :
    ∃ s, Passes .start (text.take e.offset) s (scan text).tokens ∧
      (scan text).tokens = (if s = .start then us else us.dropLast) ∧
      ((scan text).tokens = us ↔ s = .start) := by
  obtain ⟨s, hp⟩ := passes_of_error h
  have hr := result_scanFrom_append hp 0 []
  rw [List.append_nil, result_scanFrom_nil, finish_eq_flush] at hr
  obtain ⟨due, hv, rfl⟩ := Outcome.map_eq_ok_iff.mp (hr.symm.trans hu)
  refine ⟨s, hp, ?_⟩
  by_cases hs : s = .start
  · subst hs
    cases hv
    simp
  · obtain ⟨t, rfl⟩ := exists_settled_eq (flush_eq_ok_iff.mp hv) hs
    simp [hs]

theorem tokens_of_stop_operator :
    (scan ['1', '+', ' ', '@']).error = some ⟨.unrecognized, 3, some '@'⟩ ∧
    (scan ['1', '+', ' ']).result = .ok [.number (.integer 1), .symbol .add] ∧
    (scan ['1', '+', ' ', '@']).tokens = [.number (.integer 1), .symbol .add] := by
  have h : (scan ['1', '+', ' ', '@']).error = some ⟨.unrecognized, 3, some '@'⟩ := by
    decide +kernel
  have hu : (scan ['1', '+', ' ']).result = .ok [.number (.integer 1), .symbol .add] := by
    decide +kernel
  obtain ⟨s, hp, -, hs⟩ := tokens_of_stop h hu
  have hi : Passes .start ['1'] (.integer ['1']) [] := passes_singleton fun _ => rfl
  have ho : Passes (.integer ['1']) ['+'] .start [.number (.integer 1), .symbol .add] :=
    passes_singleton fun _ => rfl
  have hr : Passes .start ['1', '+', ' '] .start [.number (.integer 1), .symbol .add] :=
    passes_append hi (passes_append ho (passes_space rfl))
  exact ⟨h, hu, hs.mpr (passes_unique hp hr).1⟩

/-- A literal is still pending at the character after it, so that its token is never emitted if that
character is refused. -/
theorem tokens_of_stop_literal :
    (scan ['1', '2', '@']).error = some ⟨.unrecognized, 2, some '@'⟩ ∧
    (scan ['1', '2']).result = .ok [.number (.integer 12)] ∧
    (scan ['1', '2', '@']).tokens ≠ [.number (.integer 12)] := by
  decide +kernel

end Abacus.Lexer
