import Abacus.Proofs.Lexer.Stop

namespace Abacus.Lexer

open Text

variable {text other : List Char} {e : Error}

theorem newline_notMem_message (e : Error) : '\n' ∉ e.message.toList := by
  have hd (n : Nat) : '\n' ∉ Nat.toDigits 10 n := by
    intro h
    exact absurd (Nat.isDigit_of_mem_toDigits (by decide) (by decide) h) (by decide)
  obtain ⟨cause, offset, char⟩ := e
  cases cause <;> simp [Error.message, toString, Quoted.newline_notMem_quote, hd]

/-- What comes after the character that an error speaks of has no part in the scan. -/
theorem scan_eq_of_take_eq (h : (scan text).error = some e) (hl : e.offset < text.length)
    (ht : other.take (e.offset + 1) = text.take (e.offset + 1)) : scan other = scan text := by
  obtain ⟨before, after, s, ts, rfl, hp, ho, -, hs⟩ := exists_stop h
  obtain ⟨emitted, -, ha⟩ := exists_scanFrom_append hp 0
  rw [Nat.zero_add] at ho
  obtain ⟨c, after, rfl⟩ : ∃ c rest, after = c :: rest := by
    apply List.exists_cons_of_ne_nil
    rintro rfl
    simp [ho] at hl
  rw [ho, List.take_length_add_append] at ht
  obtain ⟨rest, rfl⟩ : ∃ rest, other = before ++ c :: rest := by
    refine ⟨other.drop (before.length + 1), ?_⟩
    calc
      other = other.take (before.length + 1) ++ other.drop (before.length + 1) :=
        (List.take_append_drop _ _).symm
      _ = before ++ c :: other.drop (before.length + 1) := by
        rw [ht]
        simp
  rw [scan, scan, ha, ha, Nat.zero_add, ← ho, hs (c :: rest) rfl, hs (c :: after) rfl]

/-- An error speaks of the place at which the scan stops and of the character there, or of the end. No
character after that one has a part in it or in the tokens before it. It is told in three lines: the
text without its own line breaks and tabs, a mark below the place, and the message. -/
theorem error_of_scan (h : (scan text).error = some e) :
    e.offset ≤ text.length ∧ e.char = text[e.offset]? ∧
    (e.char = none ↔ e.offset = text.length) ∧
    (e.offset < text.length → ∀ other : List Char,
      other.take (e.offset + 1) = text.take (e.offset + 1) → scan other = scan text) ∧
    (e.report text).toList.splitOn '\n' =
      [text.map fun c => if c = '\n' ∨ c = '\t' then ' ' else c,
        List.replicate e.offset ' ' ++ ['^'], e.message.toList] := by
  obtain ⟨before, after, s, ts, ht, -, ho, hc, -⟩ := exists_stop h
  have hle : e.offset ≤ text.length := by
    rw [ht, ho, List.length_append]
    omega
  have hchar : e.char = text[e.offset]? := by
    rw [hc, ht, ho, Nat.zero_add, List.getElem?_append_right (Nat.le_refl _), Nat.sub_self,
      List.head?_eq_getElem?]
  refine ⟨hle, hchar, ?_, fun hl other => scan_eq_of_take_eq h hl, ?_⟩
  · rw [hchar, List.getElem?_eq_none_iff]
    omega
  · exact Snippet.splitOn_report _ (newline_notMem_message e)

theorem error_of_scan_second_line :
    (scan ['1', '\n', '@', '2']).error = some ⟨.unrecognized, 2, some '@'⟩ ∧
    scan ['1', '\n', '@', '.', '.'] = scan ['1', '\n', '@', '2'] ∧
    ((Error.mk .unrecognized 2 (some '@')).report ['1', '\n', '@', '2']).toList.splitOn '\n' =
      [['1', ' ', '@', '2'], [' ', ' ', '^'],
        "Unrecognized character '@' at offset 2".toList] := by
  have h : (scan ['1', '\n', '@', '2']).error = some ⟨.unrecognized, 2, some '@'⟩ := by
    decide +kernel
  obtain ⟨-, -, -, ho, hl⟩ := error_of_scan h
  have hm : (Error.mk .unrecognized 2 (some '@')).message =
      "Unrecognized character '@' at offset 2" := by decide +kernel
  rw [hm] at hl
  exact ⟨h, ho (by decide) _ rfl, hl⟩

end Abacus.Lexer
