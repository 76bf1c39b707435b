import Abacus.Proofs.Lexer.Blanks
import Abacus.Proofs.Lexer.Stop

namespace Abacus.Lexer

def Error.shift (n : Nat) (e : Error) : Error := { e with offset := e.offset + n }

def Scan.shift (n : Nat) (r : Scan) : Scan :=
  ⟨r.emitted.map fun p => (p.1, p.2 + n), r.error.map (Error.shift n)⟩

variable {s : State} {offset : Nat} {c : Char} {text blanks : List Char} {due ts : List Token}

theorem read_shift (n : Nat) :
    read s (offset + n) c = (read s offset c).mapError (Error.shift n) := by
  unfold read
  cases CharClass.ofChar? c with
  | none => rfl
  | some k =>
    dsimp only
    split <;> rfl

theorem finish_shift (n : Nat) :
    finish s (offset + n) = (finish s offset).mapError (Error.shift n) := by
  rw [finish_eq_flush, finish_eq_flush, State.flush, State.flush]
  cases s.settled <;> rfl

theorem prepend_shift (ts : List Token) (offset n : Nat) (r : Scan) :
    (Scan.prepend ts offset r).shift n = .prepend ts (offset + n) (r.shift n) := by
  simp [Scan.prepend, Scan.shift]

/-- The place of a text has no part in its tokens or in what is wrong with it. -/
theorem scanFrom_shift (n : Nat) :
    scanFrom s (offset + n) text = (scanFrom s offset text).shift n := by
  induction text generalizing s offset with
  | nil =>
    rw [scanFrom, scanFrom, finish_shift]
    cases finish s offset with
    | error e => rfl
    | ok ts => exact (prepend_shift ts offset n ⟨[], none⟩).symm
  | cons c text ih =>
    rw [scanFrom, scanFrom, read_shift]
    cases read s offset c with
    | error e => rfl
    | ok p =>
      have hn : offset + n + 1 = offset + 1 + n := by omega
      change Scan.prepend p.2 (offset + n) (scanFrom p.1 (offset + n + 1) text) = _
      rw [hn, ih]
      exact (prepend_shift p.2 offset n _).symm

theorem scanFrom_blanks_start (hb : ∀ c ∈ blanks, CharClass.isBlank c = true) (text : List Char) :
    scanFrom .start offset (blanks ++ text) = scanFrom .start (offset + blanks.length) text := by
  obtain ⟨emitted, he, ha⟩ := exists_scanFrom_append (passes_blanks_start hb) offset
  obtain rfl := List.map_eq_nil_iff.mp he
  exact ha text

theorem scanFrom_blanks (hv : s.settled = .ok due) (hne : blanks ≠ [])
    (hb : ∀ c ∈ blanks, CharClass.isBlank c = true) (text : List Char) :
    scanFrom s offset (blanks ++ text) =
      .prepend due offset (scanFrom .start (offset + blanks.length) text) := by
  obtain ⟨c, blanks, rfl⟩ := List.exists_cons_of_ne_nil hne
  have hr : read s offset c = .ok (.start, due) := by
    rw [read_blank (ofChar?_of_isBlank (hb c List.mem_cons_self)), flush_eq_ok_iff.mpr hv]
    rfl
  have hl : offset + 1 + blanks.length = offset + (c :: blanks).length := by
    rw [List.length_cons]
    omega
  rw [List.cons_append, scanFrom, hr]
  dsimp only
  rw [scanFrom_blanks_start fun d hd => hb d (List.mem_cons_of_mem c hd), hl]

theorem scanFrom_nil_of_settled (hv : s.settled = .ok due) :
    scanFrom s offset [] = .prepend due offset ⟨[], none⟩ := by
  rw [scanFrom, finish_eq_flush, flush_eq_ok_iff.mpr hv]

/-- Blanks after a text that can be read keep it apart from what comes after them. The tokens of
both texts are emitted, each at its own place, and an error in the second one is reported as if it
stood alone, only further on. -/
theorem scan_blanks_between {before : List Char} (h : (scan before).result = .ok ts)
    (hne : blanks ≠ []) (hb : ∀ c ∈ blanks, CharClass.isBlank c = true) (after : List Char) :
    let whole := scan (before ++ blanks ++ after)
    let n := before.length + blanks.length
    whole.tokens = ts ++ (scan after).tokens ∧
      whole.emitted = (scan before).emitted ++ ((scan after).shift n).emitted ∧
      whole.error = (scan after).error.map fun e => ⟨e.cause, e.offset + n, e.char⟩ := by
  obtain ⟨s, us, due, hp, hv, rfl⟩ := passes_of_result h
  obtain ⟨emitted, rfl, ha⟩ := exists_scanFrom_append hp 0
  have hfirst : scan before = ⟨emitted ++ due.map fun t => (t, before.length), none⟩ := by
    have h₁ := ha []
    rw [List.append_nil, scanFrom_nil_of_settled hv] at h₁
    rw [scan, h₁]
    simp [Scan.prepend]
  have hwhole : scan (before ++ blanks ++ after) =
      ⟨(scan before).emitted ++ ((scan after).shift (before.length + blanks.length)).emitted,
        ((scan after).shift (before.length + blanks.length)).error⟩ := by
    have h₂ : scanFrom .start (before.length + blanks.length) after =
        (scan after).shift (before.length + blanks.length) := by
      rw [scan, ← scanFrom_shift, Nat.zero_add]
    rw [hfirst, scan, List.append_assoc, ha, scanFrom_blanks hv hne hb, Nat.zero_add, h₂]
    simp [Scan.prepend]
  refine ⟨?_, ?_, ?_⟩
  · rw [hwhole, hfirst]
    simp [Scan.tokens, Scan.shift, Function.comp_def]
  · rw [hwhole]
  · rw [hwhole]
    rfl

theorem scan_blanks_between_hyphen :
    (scan ['2', '*', '-']).result =
      .ok [.number (.integer 2), .symbol .multiply, .symbol .subtract] ∧
    (scan ['2', '*', '-', '\n', ' ', '5', '/', '.']).tokens =
      [.number (.integer 2), .symbol .multiply, .symbol .subtract, .number (.integer 5),
        .symbol .divide] ∧
    (scan ['2', '*', '-', '\n', ' ', '5', '/', '.']).error = some ⟨.unexpected, 7, some '.'⟩ := by
  have h : (scan ['2', '*', '-']).result =
      .ok [.number (.integer 2), .symbol .multiply, .symbol .subtract] := by decide +kernel
  have hb : ∀ c ∈ ['\n', ' '], CharClass.isBlank c = true := by simp [CharClass.isBlank]
  have ha : scan ['5', '/', '.'] =
      ⟨[(.number (.integer 5), 1), (.symbol .divide, 1)], some ⟨.unexpected, 2, some '.'⟩⟩ := by
    decide +kernel
  obtain ⟨ht, -, he⟩ := scan_blanks_between h (by simp) hb ['5', '/', '.']
  rw [ha] at ht he
  exact ⟨h, ht, he⟩

end Abacus.Lexer
