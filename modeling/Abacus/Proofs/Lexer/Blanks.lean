import Abacus.Proofs.Lexer.Passage

namespace Abacus.Lexer

open Numeral Text

/-- The text goes on with what a state has begun: figures after a literal, the digits after a sign,
or a hyphen after a literal that subtracts there and would be a sign anywhere else. -/
inductive Glued : State → List Char → Prop
  | figure {s : State} {c : Char} {text : List Char} (hs : s.isLiteral = true)
    (hc : isFigure c = true) : Glued s (c :: text)
  | minus {s : State} {c : Char} {text : List Char} (hs : s.isLiteral = true)
    (hc : Digit.isAscii c = true) : Glued s ('-' :: c :: text)
  | sign {c : Char} {text : List Char} (hc : Digit.isAscii c = true) : Glued .hyphen (c :: text)

variable {s s' s₁ s₂ : State} {offset : Nat} {c : Char} {text blanks : List Char}
  {due ts us : List Token}

theorem passes_blanks_start (hb : ∀ c ∈ blanks, CharClass.isBlank c = true) :
    Passes .start blanks .start [] := by
  induction blanks with
  | nil => exact .nil .start
  | cons c blanks ih =>
    have hc : Passes .start [c] .start [] := passes_blank rfl (hb c List.mem_cons_self)
    exact passes_append hc (ih fun d hd => hb d (List.mem_cons_of_mem c hd))

theorem passes_blanks (hv : s.settled = .ok due) (hne : blanks ≠ [])
    (hb : ∀ c ∈ blanks, CharClass.isBlank c = true) : Passes s blanks .start due := by
  obtain ⟨c, blanks, rfl⟩ := List.exists_cons_of_ne_nil hne
  have hc : Passes s [c] .start due := passes_blank hv (hb c List.mem_cons_self)
  have h := passes_append hc (passes_blanks_start fun d hd => hb d (List.mem_cons_of_mem c hd))
  rwa [List.append_nil] at h

theorem exists_settled_of_blanks (hne : blanks ≠ [])
    (hb : ∀ c ∈ blanks, CharClass.isBlank c = true)
    (h : (scanFrom s offset (blanks ++ text)).result = .ok ts) : ∃ due, s.settled = .ok due := by
  obtain ⟨c, blanks, rfl⟩ := List.exists_cons_of_ne_nil hne
  rw [List.cons_append, result_scanFrom_cons] at h
  obtain ⟨p, hr, -⟩ := Outcome.bind_eq_ok_iff.mp h
  rw [read_blank (ofChar?_of_isBlank (hb c List.mem_cons_self))] at hr
  obtain ⟨due, hd, -⟩ := Outcome.map_eq_ok_iff.mp hr
  exact ⟨due, flush_eq_ok_iff.mp hd⟩

theorem isLiteral_push (s : State) (c : Char) : (s.push c).isLiteral = true := by
  cases s <;> rfl

theorem length_settled (hs : s.isLiteral = true) (hv : s.settled = .ok due) : due.length = 1 := by
  have hne : s ≠ .start := by
    rintro rfl
    cases hs
  obtain ⟨t, rfl⟩ := exists_settled_eq hv hne
  rfl

theorem read_figure (hs : s.isLiteral = true) (hc : isFigure c = true)
    (h : read s offset c = .ok (s', ts)) : s'.isLiteral = true ∧ ts = [] := by
  obtain hd | rfl := isFigure_iff.mp hc
  · rw [read_digit (ofChar?_of_isAscii hd)] at h
    cases h
    exact ⟨isLiteral_push s c, rfl⟩
  · cases s with
    | integer ds =>
      rw [read_fullStop_integer rfl] at h
      cases h
      exact ⟨rfl, rfl⟩
    | start | hyphen | decimal ds =>
      rw [read_fullStop rfl (by simp)] at h
      cases h

theorem exists_read_of_literal (hf : isFigure c = false) (hk : CharClass.ofChar? c ≠ none) :
    ∃ s' us, ∀ s : State, s.isLiteral = true → ∀ offset,
      read s offset c = (s.flush offset (some c)).map fun due => (s', due ++ us) := by
  have hc := classified_ofChar? c
  generalize hr : CharClass.ofChar? c = k at hc hk
  cases hc with
  | stranger hn => exact absurd rfl hk
  | digit hd => exact absurd (isFigure_of_isAscii hd) (by simp [hf])
  | fullStop hp => exact absurd (isFigure_iff.mpr (.inr hp)) (by simp [hf])
  | blank hb =>
    refine ⟨.start, [], fun s hs offset => ?_⟩
    simp only [read_blank hr, List.append_nil]
  | operator x hx hm => exact ⟨.start, [.symbol x], fun s hs offset => read_operator hr hx⟩
  | hyphen hm =>
    refine ⟨.start, [.symbol .subtract], fun s hs offset => ?_⟩
    simp only [read_hyphen hr, hs, if_true]

theorem read_literals (hs : s.isLiteral = true) (hs' : s'.isLiteral = true)
    (h : read s offset c = .ok (s₁, ts)) (h' : read s' offset c = .ok (s₂, us)) :
    (s₁.isLiteral = true ∧ s₂.isLiteral = true ∨ s₁ = s₂) ∧ ts.length = us.length := by
  cases hf : isFigure c with
  | true =>
    obtain ⟨hp, rfl⟩ := read_figure hs hf h
    obtain ⟨hp', rfl⟩ := read_figure hs' hf h'
    exact ⟨.inl ⟨hp, hp'⟩, rfl⟩
  | false =>
    have hk : CharClass.ofChar? c ≠ none := by
      intro hk
      rw [read_stranger hk] at h
      cases h
    obtain ⟨s₃, vs, hr⟩ := exists_read_of_literal hf hk
    rw [hr s hs] at h
    rw [hr s' hs'] at h'
    obtain ⟨due, hv, he⟩ := Outcome.map_eq_ok_iff.mp h
    obtain ⟨due', hv', he'⟩ := Outcome.map_eq_ok_iff.mp h'
    cases he
    cases he'
    have hl := length_settled hs (flush_eq_ok_iff.mp hv)
    have hl' := length_settled hs' (flush_eq_ok_iff.mp hv')
    exact ⟨.inr rfl, by simp only [List.length_append, hl, hl']⟩

/-- Whatever two literals begin with, a text that goes on with both of them has as many tokens after
the one as after the other. -/
theorem length_eq_of_literals (hs : s.isLiteral = true) (hs' : s'.isLiteral = true)
    (h : (scanFrom s offset text).result = .ok ts)
    (h' : (scanFrom s' offset text).result = .ok us) : ts.length = us.length := by
  induction text generalizing s s' offset ts us with
  | nil =>
    rw [result_scanFrom_nil, finish_eq_flush, flush_eq_ok_iff] at h h'
    rw [length_settled hs h, length_settled hs' h']
  | cons c text ih =>
    rw [result_scanFrom_cons] at h h'
    obtain ⟨⟨s₁, ws⟩, hr, h⟩ := Outcome.bind_eq_ok_iff.mp h
    obtain ⟨⟨s₂, ws'⟩, hr', h'⟩ := Outcome.bind_eq_ok_iff.mp h'
    obtain ⟨vs, hv, rfl⟩ := Outcome.map_eq_ok_iff.mp h
    obtain ⟨vs', hv', rfl⟩ := Outcome.map_eq_ok_iff.mp h'
    obtain ⟨hp, hl⟩ := read_literals hs hs' hr hr'
    have he : vs.length = vs'.length := by
      obtain ⟨hp, hp'⟩ | hp := hp
      · exact ih hp hp' hv hv'
      · subst hp
        cases hv.symm.trans hv'
        rfl
    rw [List.length_append, List.length_append, hl, he]

theorem result_scanFrom_of_read (hr : read s offset c = .ok (s', us)) :
    (scanFrom s offset (c :: text)).result =
      (scanFrom s' (offset + 1) text).result.map (us ++ ·) := by
  rw [result_scanFrom_cons, hr]
  rfl

theorem result_scanFrom_digit (hc : Digit.isAscii c = true) :
    (scanFrom s offset (c :: text)).result =
      (scanFrom (s.push c) (offset + 1) text).result.map ([] ++ ·) :=
  result_scanFrom_of_read (read_digit (ofChar?_of_isAscii hc))

theorem result_scanFrom_minus (hs : s.isLiteral = true) (hv : s.settled = .ok due) :
    (scanFrom s offset ('-' :: text)).result =
      (scanFrom .start (offset + 1) text).result.map (due ++ [.symbol .subtract] ++ ·) := by
  apply result_scanFrom_of_read
  rw [read_hyphen rfl, flush_eq_ok_iff.mpr hv, hs]
  rfl

theorem result_scanFrom_sign :
    (scanFrom .start offset ('-' :: text)).result =
      (scanFrom .hyphen (offset + 1) text).result.map ([] ++ ·) :=
  result_scanFrom_of_read rfl

theorem length_eq_of_digit (hc : Digit.isAscii c = true)
    (h : (scanFrom s offset (c :: text)).result = .ok ts)
    (h' : (scanFrom s' offset (c :: text)).result = .ok us) : ts.length = us.length := by
  rw [result_scanFrom_digit hc, Outcome.map_eq_ok_iff] at h h'
  obtain ⟨vs, hv, rfl⟩ := h
  obtain ⟨vs', hv', rfl⟩ := h'
  exact length_eq_of_literals (isLiteral_push s c) (isLiteral_push s' c) hv hv'

/-- Where a text goes on with what is pending, it has other tokens from the start. -/
theorem ne_append_of_glued (hg : Glued s text) (hv : s.settled = .ok due)
    (h : (scanFrom s offset text).result = .ok ts)
    (h' : (scanFrom .start offset text).result = .ok us) : ts ≠ due ++ us := by
  -- In each case one of the two lists is longer by one token.
  intro he
  have hl : ts.length = due.length + us.length := by rw [he, List.length_append]
  cases hg with
  | figure hs hc =>
    rw [length_settled hs hv] at hl
    obtain hd | rfl := isFigure_iff.mp hc
    · have hlen := length_eq_of_digit hd h h'
      omega
    · rw [result_scanFrom_cons, read_fullStop rfl (by simp)] at h'
      cases h'
  | minus hs hc =>
    rw [result_scanFrom_minus hs hv, Outcome.map_eq_ok_iff] at h
    rw [result_scanFrom_sign, Outcome.map_eq_ok_iff] at h'
    obtain ⟨vs, hx, rfl⟩ := h
    obtain ⟨vs', hx', rfl⟩ := h'
    have hlen := length_eq_of_digit hc hx hx'
    simp only [List.length_append, List.length_singleton, List.nil_append] at hl
    omega
  | sign hc =>
    cases hv
    have hlen := length_eq_of_digit hc h h'
    rw [List.length_singleton] at hl
    omega

theorem read_eq_start (hv : s.settled = .ok due) (hg : ¬ Glued s (c :: text))
    (hm : s.isLiteral = true → c ≠ '-') :
    read s offset c = (read .start offset c).map fun p => (p.1, due ++ p.2) := by
  have hf (o : Option Char) : s.flush offset o = .ok due := flush_eq_ok_iff.mpr hv
  have hk := classified_ofChar? c
  generalize hc : CharClass.ofChar? c = k at hk
  cases hk with
  | stranger hn =>
    rw [read_stranger hc, read_stranger hc]
    rfl
  | blank hb =>
    rw [read_blank hc, read_blank hc, hf]
    change Except.ok (State.start, due) = .ok (State.start, due ++ [])
    rw [List.append_nil]
  | operator x hx =>
    rw [read_operator hc hx, read_operator hc hx, hf]
    rfl
  | digit hd =>
    cases s with
    | start =>
      cases hv
      rw [read_digit hc]
      rfl
    | hyphen => exact absurd (.sign hd) hg
    | integer ds | decimal ds => exact absurd (.figure rfl (isFigure_of_isAscii hd)) hg
  | hyphen h =>
    have hs : s.isLiteral = false := by
      cases hs : s.isLiteral with
      | true => exact absurd h (hm hs)
      | false => rfl
    rw [read_hyphen hc, read_hyphen hc, hf, hs]
    change Except.ok (State.hyphen, due) = .ok (State.hyphen, due ++ [])
    rw [List.append_nil]
  | fullStop h =>
    subst h
    cases s with
    | start | hyphen =>
      simp only [read_fullStop hc (s := .start) (by simp), read_fullStop hc (s := .hyphen) (by simp)]
      rfl
    | integer ds | decimal ds => exact absurd (.figure rfl rfl) hg

theorem result_scanFrom_eq_start_of_ne (hv : s.settled = .ok due) (hg : ¬ Glued s text)
    (hm : s.isLiteral = true → ∀ c ∈ text.head?, c ≠ '-') :
    (scanFrom s offset text).result = (scanFrom .start offset text).result.map (due ++ ·) := by
  cases text with
  | nil =>
    simp only [result_scanFrom_nil, finish_eq_flush, flush_eq_ok_iff.mpr hv]
    exact congrArg Except.ok (List.append_nil due).symm
  | cons c text =>
    rw [result_scanFrom_cons, result_scanFrom_cons, read_eq_start hv hg fun hs => hm hs c rfl]
    cases read .start offset c with
    | error e => rfl
    | ok p =>
      change (scanFrom p.1 (offset + 1) text).result.map (due ++ p.2 ++ ·) =
        ((scanFrom p.1 (offset + 1) text).result.map (p.2 ++ ·)).map (due ++ ·)
      cases (scanFrom p.1 (offset + 1) text).result with
      | error e => rfl
      | ok us => exact congrArg Except.ok (List.append_assoc due p.2 us)

theorem result_scanFrom_eq_start (hv : s.settled = .ok due) (hg : ¬ Glued s text) :
    (scanFrom s offset text).result = (scanFrom .start offset text).result.map (due ++ ·) := by
  by_cases hm : s.isLiteral = true ∧ text.head? = some '-'
  · -- What the hyphen after a literal gives at once, it gives from the start one character later.
    obtain ⟨hs, ht⟩ := hm
    obtain ⟨rest, rfl⟩ := List.head?_eq_some_iff.mp ht
    have hg' : ¬ Glued .hyphen rest := by
      intro hg'
      cases hg' with
      | figure hs' hc => cases hs'
      | minus hs' hc => cases hs'
      | sign hc => exact hg (.minus hs hc)
    have hr : (scanFrom .hyphen (offset + 1) rest).result =
        (scanFrom .start (offset + 1) rest).result.map ([.symbol .subtract] ++ ·) :=
      result_scanFrom_eq_start_of_ne rfl hg' (by simp [State.isLiteral])
    rw [result_scanFrom_minus hs hv, result_scanFrom_sign, hr]
    cases (scanFrom .start (offset + 1) rest).result with
    | error e => rfl
    | ok us => exact congrArg Except.ok (List.append_assoc due [.symbol .subtract] us)
  · apply result_scanFrom_eq_start_of_ne hv hg
    intro hs c hc he
    exact hm ⟨hs, he ▸ hc⟩

theorem exists_settled_of_not_glued (hg : ¬ Glued s text)
    (h : (scanFrom s offset text).result = .ok ts) : ∃ due, s.settled = .ok due := by
  cases text with
  | nil =>
    rw [result_scanFrom_nil, finish_eq_flush, flush_eq_ok_iff] at h
    exact ⟨ts, h⟩
  | cons c text =>
    rw [result_scanFrom_cons] at h
    obtain ⟨⟨s', us⟩, hr, -⟩ := Outcome.bind_eq_ok_iff.mp h
    cases moves_of_read hr with
    | blank hv | operator hv | minus hv | sign hv => exact ⟨_, hv⟩
    | point hs hp =>
      subst hs hp
      exact absurd (.figure rfl rfl) hg
    | digit hd =>
      cases s with
      | start | hyphen => exact ⟨_, rfl⟩
      | integer ds | decimal ds => exact absurd (.figure rfl (isFigure_of_isAscii hd)) hg

theorem result_scanFrom_blanks_iff (hne : blanks ≠ [])
    (hb : ∀ c ∈ blanks, CharClass.isBlank c = true)
    (h : (scanFrom s offset text).result = .ok ts) :
    (scanFrom s offset (blanks ++ text)).result = .ok ts ↔ ¬ Glued s text := by
  constructor
  · intro hts hg
    obtain ⟨due, hv⟩ := exists_settled_of_blanks hne hb hts
    rw [result_scanFrom_append (passes_blanks hv hne hb), Outcome.map_eq_ok_iff] at hts
    obtain ⟨us, hu, he⟩ := hts
    exact ne_append_of_glued hg hv h (result_scanFrom_of_ok hu offset) he.symm
  · intro hg
    obtain ⟨due, hv⟩ := exists_settled_of_not_glued hg h
    rw [result_scanFrom_eq_start hv hg, Outcome.map_eq_ok_iff] at h
    obtain ⟨us, hu, rfl⟩ := h
    rw [result_scanFrom_append (passes_blanks hv hne hb), result_scanFrom_of_ok hu]
    rfl

/-- Blanks put into a text leave its tokens as they are unless what comes after them goes on with
what was pending before them. -/
theorem scan_insert_blanks {before after : List Char} (hne : blanks ≠ [])
    (hb : ∀ c ∈ blanks, CharClass.isBlank c = true)
    (h : (scan (before ++ after)).result = .ok ts) :
    ∃ s, (∀ s', (∃ us, Passes .start before s' us) ↔ s' = s) ∧
      ((scan (before ++ blanks ++ after)).result = .ok ts ↔ ¬ Glued s after) := by
  obtain ⟨s₁, us₁, due, hp, -⟩ := passes_of_result h
  obtain ⟨s, us, hu⟩ := exists_passes_of_append hp
  refine ⟨s, fun s' => ⟨?_, ?_⟩, ?_⟩
  · rintro ⟨vs, hv⟩
    exact (passes_unique hv hu).1
  · rintro rfl
    exact ⟨us, hu⟩
  · rw [scan, result_scanFrom_append hu, Outcome.map_eq_ok_iff] at h
    obtain ⟨vs, hv, rfl⟩ := h
    rw [scan, List.append_assoc, result_scanFrom_append hu, ← result_scanFrom_blanks_iff hne hb hv,
      Outcome.map_eq_ok_iff]
    simp only [List.append_cancel_left_eq, exists_eq_right]

/-- A hyphen after a literal turns into a sign behind a blank, unless it follows another hyphen. -/
theorem scan_insert_blanks_hyphen :
    (scan ['1', '-', '2']).result =
      .ok [.number (.integer 1), .symbol .subtract, .number (.integer 2)] ∧
    (scan ['1', ' ', '-', '2']).result ≠
      .ok [.number (.integer 1), .symbol .subtract, .number (.integer 2)] ∧
    (scan ['1', '-', '-', '2']).result =
      .ok [.number (.integer 1), .symbol .subtract, .number (.integer (-2))] ∧
    (scan ['1', '-', '\t', '\n', '-', '2']).result =
      .ok [.number (.integer 1), .symbol .subtract, .number (.integer (-2))] := by
  have h₁ : (scan (['1'] ++ ['-', '2'])).result =
      .ok [.number (.integer 1), .symbol .subtract, .number (.integer 2)] := by decide +kernel
  have h₂ : (scan (['1', '-'] ++ ['-', '2'])).result =
      .ok [.number (.integer 1), .symbol .subtract, .number (.integer (-2))] := by decide +kernel
  have hb₁ : ∀ c ∈ [' '], CharClass.isBlank c = true := by simp [CharClass.isBlank]
  have hb₂ : ∀ c ∈ ['\t', '\n'], CharClass.isBlank c = true := by simp [CharClass.isBlank]
  obtain ⟨s₁, hs₁, hi₁⟩ := scan_insert_blanks (by simp) hb₁ h₁
  obtain ⟨s₂, hs₂, hi₂⟩ := scan_insert_blanks (by simp) hb₂ h₂
  have hp₁ : Passes .start ['1'] (.integer ['1']) [] := passes_singleton fun _ => rfl
  have hp₂ : Passes .start ['1', '-'] .start [.number (.integer 1), .symbol .subtract] :=
    passes_append hp₁ (passes_singleton fun _ => rfl)
  obtain rfl := (hs₁ _).mp ⟨_, hp₁⟩
  obtain rfl := (hs₂ _).mp ⟨_, hp₂⟩
  have hg₁ : Glued (.integer ['1']) ['-', '2'] := .minus rfl rfl
  have hg₂ : ¬ Glued .start ['-', '2'] := by
    intro hg
    cases hg with
    | figure hs hc => cases hs
    | minus hs hc => cases hs
  exact ⟨h₁, fun h => hi₁.mp h hg₁, h₂, hi₂.mpr hg₂⟩

end Abacus.Lexer
