import Abacus.Proofs.Lexer.Places
import Mathlib.Order.Bounds.Basic

namespace Abacus.Lexer

open Numeral Text

inductive Denotes (l : Literal) : Number → Prop
  | integer (hf : l.fraction = none) : Denotes l (.integer l.integer)
  | decimal {ds : List Char} (hf : l.fraction = some ds) {x : Float}
    (hx : Decimal.read l.text = .ok x) : Denotes l (.decimal x)

/-- A literal that a text begins with. After a literal a hyphen is no sign. -/
def Begins (afterLiteral : Bool) (text : List Char) (l : Literal) : Prop :=
  l.text <+: text ∧ (l.negative = true → afterLiteral = false)

/-- The tokens of a text, told without the automaton: blanks are skipped, the longest literal is
taken where one begins, and what is left are operators and parentheses. The flag tells whether the
character before the text belongs to a literal. -/
inductive Tokens : Bool → List Char → List Token → Prop
  | nil (b : Bool) : Tokens b [] []
  | blank {b : Bool} {c : Char} {text : List Char} {ts : List Token}
    (hc : CharClass.isBlank c = true) (h : Tokens false text ts) : Tokens b (c :: text) ts
  | literal {b : Bool} {text rest : List Char} {l : Literal} {n : Number} {ts : List Token}
    (hl : Begins b text l) (hm : ∀ l', Begins b text l' → l'.text.length ≤ l.text.length)
    (hr : l.text ++ rest = text) (hn : Denotes l n) (h : Tokens true rest ts) :
    Tokens b text (.number n :: ts)
  | symbol {b : Bool} {c : Char} {x : Symbol} {text : List Char} {ts : List Token}
    (hl : ∀ l, ¬ Begins b (c :: text) l) (hx : Symbol.ofChar? c = some x)
    (h : Tokens false text ts) : Tokens b (c :: text) (.symbol x :: ts)

theorem denotes_unique {l : Literal} {m n : Number} (hm : Denotes l m) (hn : Denotes l n) :
    m = n := by
  cases hm with
  | integer hf =>
    cases hn with
    | integer hf' => rfl
    | decimal hf' hx =>
      rw [hf] at hf'
      cases hf'
  | decimal hf hx =>
    cases hn with
    | integer hf' =>
      rw [hf] at hf'
      cases hf'
    | decimal hf' hx' => rw [Except.ok.inj (hx.symm.trans hx')]

theorem begins_cons {b : Bool} {c : Char} {text : List Char} {l : Literal}
    (h : Begins b (c :: text) l) :
    isFigure c = true ∨ c = '-' ∧ b = false ∧ ∃ d ∈ text.head?, isFigure d = true := by
  obtain ⟨⟨rest, hr⟩, hb⟩ := h
  obtain ⟨d, ds, hd, hf⟩ := l.exists_figures_eq_cons
  unfold Literal.text at hr
  cases hn : l.negative with
  | false =>
    rw [hn, if_neg Bool.false_ne_true, hf] at hr
    obtain ⟨rfl, -⟩ := List.cons.inj hr
    exact .inl (isFigure_of_isAscii hd)
  | true =>
    rw [hn, if_pos rfl, hf] at hr
    obtain ⟨rfl, rfl⟩ := List.cons.inj hr
    exact .inr ⟨rfl, hb hn, d, rfl, isFigure_of_isAscii hd⟩

theorem not_begins_nil {b : Bool} {l : Literal} : ¬ Begins b [] l := by
  rintro ⟨h, -⟩
  exact l.text_ne_nil (List.prefix_nil.mp h)

theorem not_begins_of_ne {b : Bool} {c : Char} (hc : isFigure c = false) (hm : c ≠ '-')
    (text : List Char) (l : Literal) : ¬ Begins b (c :: text) l := by
  intro h
  obtain hf | ⟨rfl, -⟩ := begins_cons h
  · rw [hc] at hf
    cases hf
  · exact hm rfl

theorem not_begins_hyphen_true (text : List Char) (l : Literal) :
    ¬ Begins true ('-' :: text) l := by
  intro h
  obtain hf | ⟨-, hb, -⟩ := begins_cons h
  · exact absurd hf (by decide)
  · cases hb

theorem not_begins_hyphen {b : Bool} {text : List Char}
    (ht : ∀ c ∈ text.head?, isFigure c = false) (l : Literal) : ¬ Begins b ('-' :: text) l := by
  intro h
  obtain hf | ⟨-, -, d, hd, hf⟩ := begins_cons h
  · exact absurd hf (by decide)
  · rw [ht d hd] at hf
    cases hf

theorem not_begins_blank {b : Bool} {c : Char} (hc : CharClass.isBlank c = true)
    (text : List Char) (l : Literal) : ¬ Begins b (c :: text) l := by
  refine not_begins_of_ne (isFigure_eq_false_of_isBlank hc) ?_ text l
  rintro rfl
  exact absurd hc (by decide)

theorem not_isBlank_of_ofChar? {c : Char} {x : Symbol} (h : Symbol.ofChar? c = some x) :
    ¬ CharClass.isBlank c = true := by
  obtain rfl := Symbol.char_of_ofChar? h
  cases x <;> decide

theorem tokens_unique {b : Bool} {text : List Char} {ts us : List Token} (ht : Tokens b text ts)
    (hu : Tokens b text us) : ts = us := by
  induction ht generalizing us with
  | nil b =>
    cases hu with
    | nil => rfl
    | literal hl => exact absurd hl not_begins_nil
  | blank hc h ih =>
    cases hu with
    | blank hc' h' => exact ih h'
    | literal hl => exact absurd hl (not_begins_blank hc _ _)
    | symbol hl hx => exact absurd hc (not_isBlank_of_ofChar? hx)
  | literal hl hm hr hn h ih =>
    cases hu with
    | nil => exact absurd hl not_begins_nil
    | blank hc => exact absurd hl (not_begins_blank hc _ _)
    | literal hl' hm' hr' hn' h' =>
      have hlen := Nat.le_antisymm (hm' _ hl) (hm _ hl')
      have hlt := List.append_inj (hr.trans hr'.symm) hlen
      obtain rfl := Literal.text_injective hlt.1
      rw [denotes_unique hn hn', ih (hlt.2 ▸ h')]
    | symbol hl' => exact absurd hl (hl' _)
  | symbol hl hx h ih =>
    cases hu with
    | blank hc => exact absurd hc (not_isBlank_of_ofChar? hx)
    | literal hl' => exact absurd hl' (hl _)
    | symbol hl' hx' h' => rw [Option.some.inj (hx.symm.trans hx'), ih h']

theorem length_le_of_begins {b : Bool} {l l' : Literal} {rest : List Char}
    (hr : ∀ c ∈ rest.head?, isFigure c = false) (h : Begins b (l.text ++ rest) l') :
    l'.text.length ≤ l.text.length := by
  obtain ⟨⟨tail, ht⟩, -⟩ := h
  obtain ⟨as, ha, -⟩ | ⟨cs, hc, hcr⟩ := List.append_eq_append_iff.mp ht
  · rw [ha, List.length_append]
    exact Nat.le_add_right _ _
  · cases cs with
    | nil => rw [hc, List.append_nil]
    | cons c cs =>
      have hf : isFigure c = true := Literal.isFigure_of_text_eq_append l.text_ne_nil hc
      rw [hr c (by rw [hcr]; rfl)] at hf
      cases hf

def State.text : State → List Char
  | start => []
  | hyphen => ['-']
  | integer ds => ds
  | decimal ds => ds

theorem text_push (s : State) (c : Char) : (s.push c).text = s.text ++ [c] := by
  cases s <;> rfl

variable {s s' : State} {before rest : List Char} {offset : Nat} {c : Char} {ts us : List Token}

theorem tokens_settled (h : Tracks before s) (hv : s.settled = .ok us)
    (hr : ∀ c ∈ rest.head?, isFigure c = false) (ht : Tokens s.isLiteral rest ts) :
    Tokens false (s.text ++ rest) (us ++ ts) := by
  have hb (l : Literal) : Begins false (l.text ++ rest) l :=
    ⟨List.prefix_append _ _, fun _ => rfl⟩
  have hm (l l' : Literal) (hl : Begins false (l.text ++ rest) l') :
      l'.text.length ≤ l.text.length := length_le_of_begins hr hl
  cases h with
  | start h =>
    cases hv
    exact ht
  | hyphen h =>
    cases hv
    exact .symbol (not_begins_hyphen hr) rfl ht
  | integer h l hf =>
    rw [settled_integer hf] at hv
    split at hv
    · cases hv
    · cases hv
      exact .literal (hb l) (hm l) rfl (.integer hf) ht
  | decimal h l hf =>
    rw [settled_decimal hf] at hv
    cases hv
    exact .literal (hb l) (hm l) rfl (.decimal hf (Decimal.read_text hf)) ht

theorem tokens_read (h : Tracks before s) (hr : read s offset c = .ok (s', us))
    (ht : Tokens false (s'.text ++ rest) ts) : Tokens false (s.text ++ c :: rest) (us ++ ts) := by
  have hhead (hf : isFigure c = false) : ∀ d ∈ (c :: rest).head?, isFigure d = false := by
    intro d hd
    obtain rfl := Option.mem_some_iff.mp hd
    exact hf
  cases moves_of_read hr with
  | digit hd => rwa [text_push, List.append_assoc] at ht
  | point hs hp =>
    subst hs hp
    simpa [State.text] using ht
  | blank hv hb =>
    exact tokens_settled h hv (hhead (isFigure_eq_false_of_isBlank hb)) (.blank hb ht)
  | @operator vs x hv hx hs =>
    have hf : isFigure c = false := isFigure_eq_false_of_ofChar? hx
    have hm : c ≠ '-' := by
      rintro rfl
      exact hs (Option.some.inj hx).symm
    rw [List.append_assoc]
    exact tokens_settled h hv (hhead hf) (.symbol (not_begins_of_ne hf hm rest) hx ht)
  | minus hv hs hm =>
    -- No literal begins at this hyphen, whatever follows it.
    subst hm
    rw [List.append_assoc]
    refine tokens_settled h hv (hhead (by decide)) ?_
    rw [hs]
    exact .symbol (not_begins_hyphen_true rest) rfl ht
  | sign hv hs hm =>
    -- The hyphen is part of the text that is still pending.
    subst hm
    refine tokens_settled h hv (hhead (by decide)) ?_
    rw [hs]
    exact ht

theorem tokens_scanFrom (h : Tracks before s) (hr : (scanFrom s offset rest).result = .ok ts) :
    Tokens false (s.text ++ rest) ts := by
  induction rest generalizing s before offset ts with
  | nil =>
    rw [result_scanFrom_nil, finish_eq_flush, flush_eq_ok_iff] at hr
    have ht : Tokens s.isLiteral [] [] := .nil s.isLiteral
    have hf := tokens_settled h hr (by simp) ht
    rwa [List.append_nil ts] at hf
  | cons c rest ih =>
    rw [result_scanFrom_cons] at hr
    obtain ⟨⟨s', us⟩, hs, hr⟩ := Outcome.bind_eq_ok_iff.mp hr
    obtain ⟨vs, hv, rfl⟩ := Outcome.map_eq_ok_iff.mp hr
    exact tokens_read h hs (ih (tracks_read h hs) hv)

/-- A text without a bad offset is read as the tokens that it has by longest match, and any other
text is refused at its first bad offset. -/
theorem scan_longest_match (text : List Char) :
    (∀ ts, (scan text).result = .ok ts ↔ (∀ k, ¬ BadAt text k) ∧ Tokens false text ts) ∧
    ((∃ e, (scan text).result = .error e) ↔ ∃ k, BadAt text k) ∧
    ∀ e, (scan text).result = .error e → IsLeast {k | BadAt text k} e.offset := by
  have hs : Tracks [] .start := .start rfl
  cases h : (scan text).result with
  | ok us =>
    have hgood : ∀ k, ¬ BadAt text k := fun k => not_badAt_of_result hs h (Nat.zero_le k)
    have hu : Tokens false text us := tokens_scanFrom hs h
    refine ⟨fun ts => ⟨?_, ?_⟩, ⟨?_, ?_⟩, ?_⟩
    · intro he
      cases he
      exact ⟨hgood, hu⟩
    · rintro ⟨-, ht⟩
      rw [tokens_unique ht hu]
    · rintro ⟨e, he⟩
      cases he
    · rintro ⟨k, hk⟩
      exact absurd hk (hgood k)
    · intro e he
      cases he
  | error e =>
    obtain ⟨-, hbad, hmin⟩ := first_badAt_of_result hs h
    refine ⟨fun ts => ⟨?_, ?_⟩, ⟨fun _ => ⟨_, hbad⟩, fun _ => ⟨e, rfl⟩⟩, ?_⟩
    · intro he
      cases he
    · rintro ⟨hgood, -⟩
      exact absurd hbad (hgood _)
    · intro e' he
      cases he
      refine ⟨hbad, fun k hk => ?_⟩
      by_contra hlt
      exact hmin k (Nat.zero_le k) (Nat.lt_of_not_le hlt) hk

end Abacus.Lexer
