import Abacus.Proofs.Lexer.Run

namespace Abacus.Lexer

open Numeral Text

def trailing (text : List Char) : List Char := text.rtakeWhile isFigure

/-- What goes wrong between a text and what comes after it: a character that belongs to no
expression, a point without digits before it or after another point, or the end of an integer with
too many digits. -/
inductive Bad (before : List Char) : List Char → Prop
  | stranger {c : Char} {after : List Char} (h : ¬ InAlphabet c) : Bad before (c :: after)
  | point {after : List Char} (h : trailing before = [] ∨ '.' ∈ trailing before) :
    Bad before ('.' :: after)
  | integer {after : List Char} (hp : '.' ∉ trailing before)
    (hl : longest < (trailing before).length) (ha : ∀ c ∈ after.head?, isFigure c = false) :
    Bad before after

def BadAt (text : List Char) (k : Nat) : Prop := k ≤ text.length ∧ Bad (text.take k) (text.drop k)

/-- What the text before a place looks like when the automaton comes there in some state. -/
inductive Tracks : List Char → State → Prop
  | start {before : List Char} (h : trailing before = []) : Tracks before .start
  | hyphen {before : List Char} (h : trailing before = []) : Tracks (before ++ ['-']) .hyphen
  | integer {before : List Char} (h : trailing before = []) (l : Literal) (hf : l.fraction = none) :
    Tracks (before ++ l.text) (.integer l.text)
  | decimal {before : List Char} (h : trailing before = []) (l : Literal) {ds : List Char}
    (hf : l.fraction = some ds) : Tracks (before ++ l.text) (.decimal l.text)

theorem trailing_concat {c : Char} (hc : isFigure c = false) (before : List Char) :
    trailing (before ++ [c]) = [] :=
  List.rtakeWhile_concat_neg _ _ _ (by simp [hc])

theorem trailing_append {figures : List Char} (h : ∀ c ∈ figures, isFigure c = true)
    (before : List Char) : trailing (before ++ figures) = trailing before ++ figures := by
  rw [trailing, List.rtakeWhile, List.reverse_append,
    List.takeWhile_append_of_pos fun c hc => h c (List.mem_reverse.mp hc), List.reverse_append,
    List.reverse_reverse]
  rfl

theorem trailing_append_text {before : List Char} (h : trailing before = []) (l : Literal) :
    trailing (before ++ l.text) = l.figures := by
  have hf : ∀ c ∈ l.figures, isFigure c = true := fun c hc => Literal.isFigure_of_mem_figures hc
  unfold Literal.text
  cases l.negative with
  | false => rw [if_neg Bool.false_ne_true, trailing_append hf, h, List.nil_append]
  | true =>
    have hm : before ++ '-' :: l.figures = before ++ ['-'] ++ l.figures := by simp
    rw [if_pos rfl, hm, trailing_append hf, trailing_concat (by decide), List.nil_append]

theorem notMem_figures_of_none {l : Literal} (hf : l.fraction = none) : '.' ∉ l.figures := by
  rw [Literal.figures_of_none hf]
  intro h
  exact absurd (l.isAscii_whole _ h) (by decide)

theorem mem_figures_of_some {l : Literal} {ds : List Char} (hf : l.fraction = some ds) :
    '.' ∈ l.figures := by
  rw [Literal.figures_of_some hf]
  exact List.mem_append_right _ List.mem_cons_self

variable {s s' : State} {before : List Char} {offset : Nat} {c : Char}

theorem flush_error_iff (h : Tracks before s) (o : Option Char) :
    (∃ e, s.flush offset o = .error e) ↔
      '.' ∉ trailing before ∧ longest < (trailing before).length := by
  simp only [flush_eq_error_iff, exists_and_left, exists_eq', and_true]
  cases h with
  | start h =>
    rw [h]
    refine ⟨?_, fun hl => absurd hl.2 (Nat.not_lt_zero longest)⟩
    rintro ⟨f, hf⟩
    cases hf
  | hyphen h =>
    rw [trailing_concat (by decide)]
    refine ⟨?_, fun hl => absurd hl.2 (Nat.not_lt_zero longest)⟩
    rintro ⟨f, hf⟩
    cases hf
  | integer h l hf =>
    have hp : '.' ∉ l.figures := notMem_figures_of_none hf
    rw [settled_integer hf, trailing_append_text h, Literal.figures_of_none hf] at *
    by_cases hl : longest < l.whole.length
    · rw [if_pos hl]
      exact ⟨fun _ => ⟨hp, hl⟩, fun _ => ⟨_, rfl⟩⟩
    · rw [if_neg hl]
      refine ⟨?_, fun h => absurd h.2 hl⟩
      rintro ⟨f, hf⟩
      cases hf
  | decimal h l hf =>
    rw [settled_decimal hf, trailing_append_text h]
    refine ⟨?_, fun h => absurd (mem_figures_of_some hf) h.1⟩
    rintro ⟨f, hf⟩
    cases hf

theorem bad_iff_of_isFigure_eq_false (hi : InAlphabet c) (hf : isFigure c = false)
    (after : List Char) :
    Bad before (c :: after) ↔ '.' ∉ trailing before ∧ longest < (trailing before).length := by
  constructor
  · intro h
    cases h with
    | stranger h => exact absurd hi h
    | point h => cases hf
    | integer hp hl ha => exact ⟨hp, hl⟩
  · rintro ⟨hp, hl⟩
    refine .integer hp hl fun d hd => ?_
    obtain rfl := Option.mem_some_iff.mp hd
    exact hf

theorem not_bad_of_isAscii (hd : Digit.isAscii c = true) (after : List Char) :
    ¬ Bad before (c :: after) := by
  have hf : isFigure c = true := isFigure_of_isAscii hd
  intro h
  cases h with
  | stranger h => exact h (.inr (.inl hf))
  | point h => exact absurd hd (by decide)
  | integer hp hl ha =>
    rw [ha c rfl] at hf
    cases hf

theorem bad_fullStop_iff (after : List Char) :
    Bad before ('.' :: after) ↔ trailing before = [] ∨ '.' ∈ trailing before := by
  constructor
  · intro h
    cases h with
    | stranger h => exact absurd (.inr (.inl (by decide))) h
    | point h => exact h
    | integer hp hl ha => exact absurd (ha '.' rfl) (by decide)
  · exact .point

theorem read_error_iff (h : Tracks before s) (c : Char) (after : List Char) :
    (∃ e, read s offset c = .error e) ↔ Bad before (c :: after) := by
  have hk := classified_ofChar? c
  generalize hc : CharClass.ofChar? c = k at hk
  cases hk with
  | stranger hn =>
    rw [read_stranger hc]
    exact ⟨fun _ => .stranger hn, fun _ => ⟨_, rfl⟩⟩
  | digit hd =>
    rw [read_digit hc]
    constructor
    · rintro ⟨e, he⟩
      cases he
    · intro hb
      exact absurd hb (not_bad_of_isAscii hd after)
  | blank hb =>
    rw [read_blank hc]
    simp only [Outcome.map_eq_error_iff]
    rw [flush_error_iff h,
      bad_iff_of_isFigure_eq_false (.inl hb) (isFigure_eq_false_of_isBlank hb)]
  | operator x hx =>
    rw [read_operator hc hx]
    simp only [Outcome.map_eq_error_iff]
    rw [flush_error_iff h,
      bad_iff_of_isFigure_eq_false (.inr (.inr (by rw [hx]; rfl)))
        (isFigure_eq_false_of_ofChar? hx)]
  | hyphen hm =>
    subst c
    rw [read_hyphen hc]
    simp only [Outcome.map_eq_error_iff]
    rw [flush_error_iff h,
      bad_iff_of_isFigure_eq_false (.inr (.inr rfl)) (by decide)]
  | fullStop hp =>
    subst c
    rw [bad_fullStop_iff]
    cases h with
    | start h => simp [read_fullStop hc, h]
    | hyphen h => simp [read_fullStop hc, trailing_concat (c := '-') (by decide)]
    | integer h l hf =>
      simp [read_fullStop_integer hc, trailing_append_text h, notMem_figures_of_none hf,
        l.figures_ne_nil]
    | decimal h l hf =>
      simp [read_fullStop hc, trailing_append_text h, mem_figures_of_some hf]

theorem finish_error_iff (h : Tracks before s) :
    (∃ e, finish s offset = .error e) ↔ Bad before [] := by
  rw [finish_eq_flush, flush_error_iff h]
  constructor
  · rintro ⟨hp, hl⟩
    exact .integer hp hl (by simp)
  · intro hb
    cases hb with
    | integer hp hl ha => exact ⟨hp, hl⟩

theorem tracks_push (h : Tracks before s) (hd : Digit.isAscii c = true) :
    Tracks (before ++ [c]) (s.push c) := by
  cases h with
  | start h => exact .integer h (.single false c hd) rfl
  | @hyphen b h =>
    rw [List.append_assoc]
    exact .integer h (.single true c hd) rfl
  | @integer b h l hf =>
    rw [List.append_assoc, State.push, ← Literal.text_pushWhole hf hd]
    exact .integer h (l.pushWhole c hd) rfl
  | @decimal b h l ds hf =>
    have hds : ∀ d ∈ ds ++ [c], Digit.isAscii d = true := by
      intro d hm
      obtain hm | hm := List.mem_append.mp hm
      · exact l.isAscii_fraction ds hf d hm
      · rwa [List.mem_singleton.mp hm]
    have ht : l.text ++ [c] = (l.withFraction (ds ++ [c]) hds).text := by
      rw [Literal.text_of_some hf, Literal.text_withFraction, List.append_assoc, List.cons_append]
    rw [List.append_assoc, State.push, ht]
    exact .decimal h _ rfl

theorem tracks_fullStop {ds : List Char} (h : Tracks before (.integer ds)) :
    Tracks (before ++ ['.']) (.decimal (ds ++ ['.'])) := by
  cases h with
  | @integer b h l hf =>
    have ht : l.text ++ ['.'] = (l.withFraction [] (by simp)).text := by
      rw [Literal.text_of_none hf, Literal.text_withFraction]
    rw [List.append_assoc, ht]
    exact .decimal h _ rfl

theorem trailing_of_not_isLiteral (h : Tracks before s) (hs : s.isLiteral = false) :
    trailing before = [] := by
  cases h with
  | start h => exact h
  | hyphen h => exact trailing_concat (by decide) _
  | integer | decimal => cases hs

theorem tracks_read {ts : List Token} (h : Tracks before s)
    (hr : read s offset c = .ok (s', ts)) : Tracks (before ++ [c]) s' := by
  cases moves_of_read hr with
  | digit hd => exact tracks_push h hd
  | point hs hp =>
    subst hs hp
    exact tracks_fullStop h
  | blank hv hb => exact .start (trailing_concat (isFigure_eq_false_of_isBlank hb) before)
  | operator hv hx hm => exact .start (trailing_concat (isFigure_eq_false_of_ofChar? hx) before)
  | minus hv hs hm =>
    subst hm
    exact .start (trailing_concat (by decide) before)
  | sign hv hs hm =>
    subst hm
    exact .hyphen (trailing_of_not_isLiteral h hs)

theorem badAt_length_iff (after : List Char) :
    BadAt (before ++ after) before.length ↔ Bad before after := by
  rw [BadAt, List.take_left, List.drop_left, List.length_append]
  exact and_iff_right (Nat.le_add_right _ _)

theorem not_badAt_of_read {p : State × List Token} (h : Tracks before s)
    (hr : read s before.length c = .ok p) (rest : List Char) :
    ¬ BadAt (before ++ c :: rest) before.length := by
  rw [badAt_length_iff, ← read_error_iff h c rest, hr]
  rintro ⟨e, he⟩
  cases he

variable {rest : List Char}

theorem not_badAt_of_result {ts : List Token} (h : Tracks before s)
    (hr : (scanFrom s before.length rest).result = .ok ts) {k : Nat} (hk : before.length ≤ k) :
    ¬ BadAt (before ++ rest) k := by
  induction rest generalizing before s ts with
  | nil =>
    rw [result_scanFrom_nil] at hr
    intro hb
    have he : k = before.length := Nat.le_antisymm (by simpa using hb.1) hk
    rw [he, badAt_length_iff, ← finish_error_iff h, hr] at hb
    obtain ⟨e, he⟩ := hb
    cases he
  | cons c rest ih =>
    rw [result_scanFrom_cons] at hr
    obtain ⟨⟨s', us⟩, hs, hr⟩ := Outcome.bind_eq_ok_iff.mp hr
    obtain ⟨vs, hv, -⟩ := Outcome.map_eq_ok_iff.mp hr
    have hl : (before ++ [c]).length = before.length + 1 := List.length_append
    by_cases he : k = before.length
    · rw [he]
      exact not_badAt_of_read h hs rest
    · have hi := ih (tracks_read h hs) (by rwa [hl]) (by omega)
      rwa [List.append_assoc] at hi

/-- The automaton fails at the first place, from its own on, where something goes wrong. -/
theorem first_badAt_of_result {e : Error} (h : Tracks before s)
    (hr : (scanFrom s before.length rest).result = .error e) :
    before.length ≤ e.offset ∧ BadAt (before ++ rest) e.offset ∧
      ∀ k, before.length ≤ k → k < e.offset → ¬ BadAt (before ++ rest) k := by
  induction rest generalizing before s with
  | nil =>
    rw [result_scanFrom_nil] at hr
    have ho : e.offset = before.length := (place_of_finish hr).1
    refine ⟨Nat.le_of_eq ho.symm, ?_, fun k hk hl => by omega⟩
    rw [ho, badAt_length_iff, ← finish_error_iff h]
    exact ⟨e, hr⟩
  | cons c rest ih =>
    rw [result_scanFrom_cons] at hr
    obtain hs | ⟨⟨s', us⟩, hs, hr⟩ := Outcome.bind_eq_error_iff.mp hr
    · have ho : e.offset = before.length := (place_of_read hs).1
      refine ⟨Nat.le_of_eq ho.symm, ?_, fun k hk hl => by omega⟩
      rw [ho, badAt_length_iff, ← read_error_iff h c rest]
      exact ⟨e, hs⟩
    · have hl : (before ++ [c]).length = before.length + 1 := List.length_append
      have hi := ih (tracks_read h hs) (by rw [hl]; exact Outcome.map_eq_error_iff.mp hr)
      rw [List.append_assoc, hl] at hi
      obtain ⟨hle, hbad, hmin⟩ := hi
      refine ⟨by omega, hbad, fun k hk hlt => ?_⟩
      by_cases he : k = before.length
      · rw [he]
        exact not_badAt_of_read h hs rest
      · exact hmin k (by omega) hlt

end Abacus.Lexer
