import Abacus.Proofs.Lexer.Stop
import Abacus.Proofs.Lexer.Places

namespace Abacus.Lexer

open Numeral Text

def endsInSign (text : List Char) : Bool :=
  text.getLast? = some '-' && (trailing text.dropLast).isEmpty

/-- The literal that a text ends with, which is all its last digits and points and the sign before
them if there is one. -/
def lastLiteral (text : List Char) : List Char :=
  if trailing text = [] then []
  else if endsInSign (text.rdropWhile isFigure) then '-' :: trailing text
  else trailing text

/-- Literals are kept in a state as far as they were read, with a point just in the state for
decimals. -/
inductive WellFormed : State → Prop
  | start : WellFormed .start
  | hyphen : WellFormed .hyphen
  | integer (l : Literal) (hf : l.fraction = none) : WellFormed (.integer l.text)
  | decimal (l : Literal) {ds : List Char} (hf : l.fraction = some ds) :
    WellFormed (.decimal l.text)

inductive Event : CharClass → List Char → Prop
  | char {c : Char} {k : CharClass} (hc : CharClass.ofChar? c = some k) : Event k [c]
  | finish : Event .endOfInput []

/-- A state is the one that the text before it leads to. -/
structure Remembers (before : List Char) (s : State) : Prop where
  tracks : Tracks before s
  digits_eq : s.digits = lastLiteral before
  eq_hyphen_iff : s = .hyphen ↔ endsInSign before = true

variable {s s' : State} {before text : List Char} {offset : Nat} {c : Char} {k : CharClass}
  {ts : List Token} {f : Fault} {e : Error}

theorem endsInSign_concat (text : List Char) (c : Char) :
    endsInSign (text ++ [c]) = true ↔ c = '-' ∧ trailing text = [] := by
  simp [endsInSign]

theorem lastLiteral_of_trailing (h : trailing text = []) : lastLiteral text = [] := if_pos h

theorem lastLiteral_concat (hc : isFigure c = true) (text : List Char) :
    lastLiteral (text ++ [c]) =
      if trailing text = [] then if endsInSign text then ['-', c] else [c]
      else lastLiteral text ++ [c] := by
  have ht : trailing (text ++ [c]) = trailing text ++ [c] := List.rtakeWhile_concat_pos _ _ _ hc
  have hd : (text ++ [c]).rdropWhile isFigure = text.rdropWhile isFigure :=
    List.rdropWhile_concat_pos _ _ _ hc
  have hne : trailing text ++ [c] ≠ [] :=
    List.append_ne_nil_of_right_ne_nil _ (List.cons_ne_nil c [])
  rw [lastLiteral, ht, hd, if_neg hne]
  by_cases hn : trailing text = []
  · have hs : text.rdropWhile isFigure = text :=
      List.rdropWhile_eq_self_iff.mpr (List.rtakeWhile_eq_nil_iff.mp hn)
    rw [if_pos hn, hs, hn]
    rfl
  · rw [if_neg hn, lastLiteral, if_neg hn]
    split <;> rfl

theorem trailing_ne_nil_of_isLiteral (h : Tracks before s) (hs : s.isLiteral = true) :
    trailing before ≠ [] := by
  cases h with
  | start | hyphen => cases hs
  | integer h l | decimal h l =>
    rw [trailing_append_text h]
    exact l.figures_ne_nil

theorem remembers_start : Remembers [] .start := ⟨.start rfl, rfl, by decide⟩

theorem digits_push (h : Remembers before s) (hd : Digit.isAscii c = true) :
    (s.push c).digits = lastLiteral (before ++ [c]) := by
  have hsign := h.eq_hyphen_iff
  have hdigits := h.digits_eq
  rw [lastLiteral_concat (isFigure_of_isAscii hd)]
  cases s with
  | start =>
    rw [if_pos (trailing_of_not_isLiteral h.tracks rfl), if_neg (mt hsign.mpr (by simp))]
    rfl
  | hyphen =>
    rw [if_pos (trailing_of_not_isLiteral h.tracks rfl), if_pos (hsign.mp rfl)]
    rfl
  | integer ds | decimal ds =>
    rw [if_neg (trailing_ne_nil_of_isLiteral h.tracks rfl), ← hdigits]
    rfl

theorem remembers_of_digits_eq_nil (ht : Tracks (before ++ [c]) s) (hs : s.digits = [])
    (hc : isFigure c = false) (hh : s = .hyphen ↔ c = '-' ∧ trailing before = []) :
    Remembers (before ++ [c]) s := by
  refine ⟨ht, ?_, hh.trans (endsInSign_concat before c).symm⟩
  rw [hs, lastLiteral_of_trailing (trailing_concat hc before)]

/-- One character on, the state is still the one that the text before it leads to. -/
theorem remembers_read (h : Remembers before s) (hr : read s offset c = .ok (s', ts)) :
    Remembers (before ++ [c]) s' := by
  have ht : Tracks (before ++ [c]) s' := tracks_read h.tracks hr
  have hno {d : Char} {u : State} (hd : d ≠ '-') (hu : u ≠ .hyphen) :
      u = .hyphen ↔ d = '-' ∧ trailing before = [] := iff_of_false hu fun hd' => hd hd'.1
  cases moves_of_read hr with
  | digit hd =>
    refine ⟨ht, digits_push h hd, iff_of_false ?_ ?_⟩
    · cases s <;> simp [State.push]
    · rw [endsInSign_concat]
      exact fun he => ne_of_isAscii hd (by decide) he.1
  | @point ds hs hp =>
    subst hs hp
    refine ⟨ht, ?_, iff_of_false (by simp) (by simp [endsInSign_concat])⟩
    rw [lastLiteral_concat rfl, if_neg (trailing_ne_nil_of_isLiteral h.tracks rfl), ← h.digits_eq]
    rfl
  | blank hv hb =>
    refine remembers_of_digits_eq_nil ht rfl (isFigure_eq_false_of_isBlank hb) (hno ?_ (by simp))
    rintro rfl
    exact absurd hb (by decide)
  | operator hv hx hm =>
    refine remembers_of_digits_eq_nil ht rfl (isFigure_eq_false_of_ofChar? hx) (hno ?_ (by simp))
    rintro rfl
    exact hm (Option.some.inj hx).symm
  | minus hv hs hm =>
    have hne := trailing_ne_nil_of_isLiteral h.tracks hs
    refine remembers_of_digits_eq_nil ht rfl (hm ▸ by decide) (iff_of_false (by simp) ?_)
    exact fun he => hne he.2
  | sign hv hs hm =>
    have hnil := trailing_of_not_isLiteral h.tracks hs
    exact remembers_of_digits_eq_nil ht rfl (hm ▸ by decide) (iff_of_true rfl ⟨hm, hnil⟩)

theorem remembers_of_passes {front : List Char} (h : Remembers front s)
    (hp : Passes s text s' ts) : Remembers (front ++ text) s' := by
  induction hp generalizing front with
  | nil s => rwa [List.append_nil]
  | @cons s s₁ s₂ c cs ts us hr hp ih =>
    have hc := ih (remembers_read h (hr 0))
    rwa [List.append_assoc] at hc

theorem wellFormed_of_tracks (h : Tracks before s) : WellFormed s := by
  cases h with
  | start h => exact .start
  | hyphen h => exact .hyphen
  | integer h l hf => exact .integer l hf
  | decimal h l hf => exact .decimal l hf

theorem step_eq_error_iff (he : Event k text) :
    step s k text = .error f ↔ k ≠ .digit ∧ k ≠ .fullStop ∧ s.settled = .error f := by
  have hbind {g : List Token → Except Fault Step} (hg : ∀ ts f', g ts ≠ .error f') :
      s.settled.bind g = .error f ↔ s.settled = .error f := by
    cases s.settled with
    | error f' => simp [Except.bind]
    | ok ts => exact iff_of_false (hg ts f) (by simp)
  cases he with
  | finish =>
    rw [step_eq_settle (.inr (.inr rfl)), hbind fun ts f' => by simp [settle]]
    simp
  | @char c k hc =>
    have hk := classified_ofChar? c
    rw [hc] at hk
    cases hk with
    | blank hb =>
      rw [step_eq_settle (.inl rfl), hbind fun ts f' => by simp [settle]]
      simp
    | operator x hx hm =>
      have ht : symbolOf [c] = .ok (.symbol x) := by
        rw [symbolOf, Token.ofLexeme, Symbol.ofText?, hx]
        rfl
      rw [step_eq_settle (.inr (.inl rfl)), hbind fun ts f' => by simp [settle, ht, Except.map]]
      simp
    | digit hd => cases s <;> simp [step]
    | fullStop hp => cases s <;> simp [step]
    | hyphen hm =>
      cases s with
      | start | hyphen => simp [step, State.settled]
      | integer ds =>
        simp only [step, State.settled]
        cases integerOf ds <;> simp [Except.bind, Except.map, settle]
      | decimal ds =>
        simp only [step, State.settled]
        cases decimalOf ds <;> simp [Except.bind, Except.map, settle]

theorem settled_eq_error_iff (h : Tracks before s) :
    s.settled = .error f ↔ (∃ ds, s = .integer ds) ∧ longest < (trailing before).length ∧
      f = .numeral (.tooManyDigits (trailing before).length) := by
  cases h with
  | start h | hyphen h => simp [State.settled]
  | integer h l hf =>
    rw [trailing_append_text h, Literal.figures_of_none hf, settled_integer hf]
    by_cases hl : longest < l.whole.length
    · rw [if_pos hl]
      simp [hl, eq_comm]
    · rw [if_neg hl]
      simp [hl]
  | decimal h l hf =>
    rw [settled_decimal hf]
    simp

theorem next_eq_accept {r : Step} (h : step s .endOfInput [] = .ok r) : r.next = .accept := by
  rw [step_eq_settle (.inr (.inr rfl))] at h
  cases hs : s.settled with
  | error f =>
    rw [hs] at h
    cases h
  | ok due =>
    rw [hs] at h
    cases h
    rfl

theorem longest_lt_length_digits (h : Tracks before s) (hs : s.settled = .error f) :
    longest < s.digits.length := by
  obtain ⟨⟨ds, hi⟩, hl, -⟩ := (settled_eq_error_iff h).mp hs
  cases h with
  | start | hyphen | decimal => cases hi
  | integer h l hf =>
    rw [trailing_append_text h] at hl
    have ht : l.figures.length ≤ l.text.length := by
      unfold Literal.text
      split
      · exact Nat.le_succ _
      · exact Nat.le_refl _
    exact Nat.lt_of_lt_of_le hl ht

theorem cause_of_read (h : Tracks before s) (hr : read s offset c = .error e) :
    e.cause = .unrecognized ∨ e.cause = .unexpected ∨
      ∃ n, e.cause = .badLiteral n ∧ longest < n := by
  unfold read at hr
  split at hr
  · cases hr
    exact .inl rfl
  · next k hc =>
    split at hr
    · next f hs =>
      cases hr
      obtain ⟨-, -, hf⟩ := (step_eq_error_iff (.char hc)).mp hs
      exact .inr (.inr ⟨_, rfl, longest_lt_length_digits h hf⟩)
    · cases hr
    · cases hr
      exact .inr (.inl rfl)

theorem cause_of_scanFrom (h : Tracks before s) (he : (scanFrom s offset text).error = some e) :
    e.cause = .unrecognized ∨ e.cause = .unexpected ∨
      ∃ n, e.cause = .badLiteral n ∧ longest < n := by
  induction text generalizing before s offset with
  | nil =>
    rw [scanFrom, finish_eq_flush] at he
    cases hf : s.flush offset none with
    | ok ts =>
      rw [hf] at he
      cases he
    | error e' =>
      rw [hf] at he
      obtain ⟨⟨f, hv⟩, rfl⟩ := flush_eq_error_iff.mp hf
      cases he
      exact .inr (.inr ⟨_, rfl, longest_lt_length_digits h hv⟩)
  | cons c text ih =>
    rw [scanFrom] at he
    cases hr : read s offset c with
    | ok p =>
      rw [hr] at he
      exact ih (tracks_read h hr) he
    | error e' =>
      rw [hr] at he
      cases he
      exact cause_of_read h hr

theorem digits_suffix (h : Tracks before s) : s.digits <:+ before := by
  cases h with
  | start | hyphen => exact List.nil_suffix
  | integer | decimal => exact List.suffix_append _ _

/-- After any text that can be read, the automaton keeps the literal that the text ends with and
nothing else. What it keeps can be read as a decimal wherever it has a point, so that a step is
refused with a fault only at the end of an integer with too many digits, the end of the text is
always accepted, and every error of the scan is one of three. -/
theorem state_of_passes (h : Passes .start before s ts) :
    WellFormed s ∧ s.digits = lastLiteral before ∧ s.digits <:+ before ∧
      (∀ ds, s = .decimal ds → ∃ x, Decimal.read ds = .ok x) ∧
      (∀ k text f, Event k text → (step s k text = .error f ↔
        k ≠ .digit ∧ k ≠ .fullStop ∧ (∃ ds, s = .integer ds) ∧
          longest < (trailing before).length ∧
            f = .numeral (.tooManyDigits (trailing before).length))) ∧
      (∀ r, step s .endOfInput [] = .ok r → r.next = .accept) ∧
      ∀ rest e, (scan (before ++ rest)).error = some e →
        e.cause = .unrecognized ∨ e.cause = .unexpected ∨
          ∃ n, e.cause = .badLiteral n ∧ longest < n := by
  have hm : Remembers before s := remembers_of_passes remembers_start h
  refine ⟨wellFormed_of_tracks hm.tracks, hm.digits_eq, digits_suffix hm.tracks, ?_, ?_, ?_, ?_⟩
  · rintro ds rfl
    cases wellFormed_of_tracks hm.tracks with
    | decimal l hf => exact ⟨_, Decimal.read_text hf⟩
  · intro k text f he
    rw [step_eq_error_iff he, settled_eq_error_iff hm.tracks]
  · exact fun r => next_eq_accept
  · intro rest e he
    have hs : Tracks [] .start := .start rfl
    exact cause_of_scanFrom hs he

/-- The first hyphen subtracts, the second one belongs to the literal. -/
theorem state_of_passes_second_hyphen :
    Passes .start ['4', '-', '-', '7', '.'] (.decimal ['-', '7', '.'])
      [.number (.integer 4), .symbol .subtract] ∧
    lastLiteral ['4', '-', '-', '7', '.'] = ['-', '7', '.'] ∧
    (∃ x, Decimal.read ['-', '7', '.'] = .ok x) ∧
    ∀ f, step (.decimal ['-', '7', '.']) .blank [' '] ≠ .error f := by
  have h₁ : Passes .start ['4'] (.integer ['4']) [] := passes_singleton fun _ => rfl
  have h₂ : Passes (.integer ['4']) ['-'] .start [.number (.integer 4), .symbol .subtract] :=
    passes_singleton fun _ => rfl
  have h₃ : Passes .start ['-'] .hyphen [] := passes_singleton fun _ => rfl
  have h₄ : Passes .hyphen ['7'] (.integer ['-', '7']) [] := passes_singleton fun _ => rfl
  have h₅ : Passes (.integer ['-', '7']) ['.'] (.decimal ['-', '7', '.']) [] :=
    passes_singleton fun _ => rfl
  have h := passes_append h₁ (passes_append h₂ (passes_append h₃ (passes_append h₄ h₅)))
  obtain ⟨-, hd, -, hx, hs, -⟩ := state_of_passes h
  refine ⟨h, hd.symm, hx _ rfl, fun f hf => ?_⟩
  obtain ⟨-, -, ⟨ds, hi⟩, -⟩ := (hs .blank [' '] f (.char rfl)).mp hf
  cases hi

end Abacus.Lexer
