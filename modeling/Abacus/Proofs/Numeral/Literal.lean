import Abacus.Numeral.Integer
import Abacus.Numeral.Decimal
import Mathlib.Data.List.TakeWhile

namespace Abacus.Numeral

open Text Reading

/-- A number as it is written: perhaps a sign, digits, and perhaps a point with the digits after it,
of which there may be none. -/
structure Literal where
  negative : Bool
  whole : List Char
  fraction : Option (List Char)
  whole_ne_nil : whole ≠ []
  isAscii_whole : ∀ c ∈ whole, Digit.isAscii c = true
  isAscii_fraction : ∀ ds ∈ fraction, ∀ c ∈ ds, Digit.isAscii c = true

def isFigure (c : Char) : Bool := Digit.isAscii c || c = '.'

theorem isFigure_iff {c : Char} : isFigure c = true ↔ Digit.isAscii c = true ∨ c = '.' := by
  simp [isFigure]

theorem isFigure_of_isAscii {c : Char} (h : Digit.isAscii c = true) : isFigure c = true :=
  isFigure_iff.mpr (.inl h)

theorem ne_of_isAscii {c d : Char} (hc : Digit.isAscii c = true) (hd : Digit.isAscii d = false) :
    c ≠ d := by
  rintro rfl
  rw [hc] at hd
  cases hd

namespace Literal

def figures (l : Literal) : List Char :=
  match l.fraction with
  | none => l.whole
  | some ds => l.whole ++ '.' :: ds

def text (l : Literal) : List Char := if l.negative then '-' :: l.figures else l.figures

def front (l : Literal) : List Char := if l.negative then '-' :: l.whole else l.whole

def integer (l : Literal) : Int := if l.negative then -value l.whole else value l.whole

def decimal (l : Literal) : Decimal :=
  ⟨value (l.whole ++ l.fraction.getD []), -(l.fraction.getD []).length⟩

theorem figures_of_none {l : Literal} (h : l.fraction = none) : l.figures = l.whole := by
  rw [figures, h]

theorem figures_of_some {l : Literal} {ds : List Char} (h : l.fraction = some ds) :
    l.figures = l.whole ++ '.' :: ds := by
  rw [figures, h]

theorem isFigure_of_mem_figures {l : Literal} {c : Char} (hc : c ∈ l.figures) :
    isFigure c = true := by
  cases hf : l.fraction with
  | none =>
    rw [figures_of_none hf] at hc
    exact isFigure_of_isAscii (l.isAscii_whole c hc)
  | some ds =>
    rw [figures_of_some hf, List.mem_append, List.mem_cons] at hc
    obtain hc | rfl | hc := hc
    · exact isFigure_of_isAscii (l.isAscii_whole c hc)
    · rfl
    · exact isFigure_of_isAscii (l.isAscii_fraction ds hf c hc)

theorem exists_figures_eq_cons (l : Literal) :
    ∃ c cs, Digit.isAscii c = true ∧ l.figures = c :: cs := by
  obtain ⟨c, cs, hw⟩ := List.exists_cons_of_ne_nil l.whole_ne_nil
  have hc : Digit.isAscii c = true := l.isAscii_whole c (by rw [hw]; exact List.mem_cons_self)
  cases hf : l.fraction with
  | none => exact ⟨c, cs, hc, by rw [figures_of_none hf, hw]⟩
  | some ds => exact ⟨c, cs ++ '.' :: ds, hc, by rw [figures_of_some hf, hw, List.cons_append]⟩

theorem figures_ne_nil (l : Literal) : l.figures ≠ [] := by
  obtain ⟨c, cs, -, h⟩ := l.exists_figures_eq_cons
  rw [h]
  exact List.cons_ne_nil c cs

theorem mem_text {l : Literal} {c : Char} (hc : c ∈ l.text) : c = '-' ∨ isFigure c = true := by
  unfold text at hc
  split at hc
  · obtain rfl | hc := List.mem_cons.mp hc
    · exact .inl rfl
    · exact .inr (isFigure_of_mem_figures hc)
  · exact .inr (isFigure_of_mem_figures hc)

theorem sign_text (l : Literal) : sign l.text = (l.negative, l.figures) := by
  unfold text
  cases l.negative with
  | true => rfl
  | false =>
    obtain ⟨c, cs, hc, h⟩ := l.exists_figures_eq_cons
    have hm : c ≠ '-' := ne_of_isAscii hc (by decide)
    have hp : c ≠ '+' := ne_of_isAscii hc (by decide)
    simp [h, sign, hm, hp]

theorem takeWhile_figures (l : Literal) : l.figures.takeWhile Digit.isAscii = l.whole := by
  cases hf : l.fraction with
  | none =>
    rw [figures_of_none hf]
    exact List.takeWhile_eq_self_iff.mpr l.isAscii_whole
  | some ds =>
    have hp : ¬ Digit.isAscii '.' = true := by decide
    rw [figures_of_some hf, List.takeWhile_append_of_pos l.isAscii_whole,
      List.takeWhile_cons_of_neg hp, List.append_nil]

theorem tail?_dropWhile_figures (l : Literal) :
    (l.figures.dropWhile Digit.isAscii).tail? = l.fraction := by
  cases hf : l.fraction with
  | none =>
    rw [figures_of_none hf, List.dropWhile_eq_nil_iff.mpr l.isAscii_whole]
    rfl
  | some ds =>
    have hp : ¬ Digit.isAscii '.' = true := by decide
    rw [figures_of_some hf, List.dropWhile_append_of_pos l.isAscii_whole,
      List.dropWhile_cons_of_neg hp]
    rfl

theorem text_injective : Function.Injective text := by
  intro l m h
  have hs : (l.negative, l.figures) = (m.negative, m.figures) := by
    rw [← l.sign_text, ← m.sign_text, h]
  obtain ⟨hn, hf⟩ := Prod.mk.inj hs
  have hw : l.whole = m.whole := by rw [← l.takeWhile_figures, hf, m.takeWhile_figures]
  have hr : l.fraction = m.fraction := by
    rw [← l.tail?_dropWhile_figures, hf, m.tail?_dropWhile_figures]
  cases l
  cases m
  cases hn
  cases hw
  cases hr
  rfl

theorem text_ne_nil (l : Literal) : l.text ≠ [] := by
  unfold text
  split
  · exact List.cons_ne_nil _ _
  · exact l.figures_ne_nil

theorem isFigure_of_text_eq_append {l : Literal} {xs ys : List Char} {d : Char} (hx : xs ≠ [])
    (h : l.text = xs ++ d :: ys) : isFigure d = true := by
  obtain ⟨x, xs, rfl⟩ := List.exists_cons_of_ne_nil hx
  have hd : d ∈ xs ++ d :: ys := List.mem_append_right xs List.mem_cons_self
  unfold text at h
  split at h
  · have hs : l.figures = xs ++ d :: ys := (List.cons.inj h).2
    exact isFigure_of_mem_figures (hs ▸ hd)
  · have hs : d ∈ l.figures := by
      rw [h, List.cons_append]
      exact List.mem_cons_of_mem x hd
    exact isFigure_of_mem_figures hs

def single (negative : Bool) (c : Char) (hc : Digit.isAscii c = true) : Literal where
  negative := negative
  whole := [c]
  fraction := none
  whole_ne_nil := List.cons_ne_nil c []
  isAscii_whole := fun d hd => by rwa [List.mem_singleton.mp hd]
  isAscii_fraction := fun ds hds => by cases hds

def pushWhole (l : Literal) (c : Char) (hc : Digit.isAscii c = true) : Literal where
  negative := l.negative
  whole := l.whole ++ [c]
  fraction := none
  whole_ne_nil := List.append_ne_nil_of_left_ne_nil l.whole_ne_nil [c]
  isAscii_whole := fun d hd => by
    obtain hd | hd := List.mem_append.mp hd
    · exact l.isAscii_whole d hd
    · rwa [List.mem_singleton.mp hd]
  isAscii_fraction := fun ds hds => by cases hds

def withFraction (l : Literal) (ds : List Char) (hds : ∀ c ∈ ds, Digit.isAscii c = true) :
    Literal where
  negative := l.negative
  whole := l.whole
  fraction := some ds
  whole_ne_nil := l.whole_ne_nil
  isAscii_whole := l.isAscii_whole
  isAscii_fraction := fun es hes => by
    obtain rfl := Option.mem_some_iff.mp hes
    exact hds

theorem text_of_none {l : Literal} (hf : l.fraction = none) : l.text = l.front := by
  rw [text, front, figures_of_none hf]

theorem text_of_some {l : Literal} {ds : List Char} (hf : l.fraction = some ds) :
    l.text = l.front ++ '.' :: ds := by
  rw [text, front, figures_of_some hf]
  cases l.negative <;> rfl

theorem text_pushWhole {l : Literal} (hf : l.fraction = none) {c : Char}
    (hc : Digit.isAscii c = true) : (l.pushWhole c hc).text = l.text ++ [c] := by
  rw [text_of_none hf, text_of_none rfl, front, front]
  cases h : l.negative <;> simp [pushWhole, h]

theorem text_withFraction (l : Literal) {ds : List Char}
    (hds : ∀ c ∈ ds, Digit.isAscii c = true) :
    (l.withFraction ds hds).text = l.front ++ '.' :: ds := text_of_some rfl

end Literal

theorem isPadding_eq_false {c : Char} (h : c = '-' ∨ isFigure c = true) :
    Blank.isPadding c = false := by
  have hb : Blank.isBlank c = false := by
    obtain rfl | h := h
    · decide
    · obtain h | rfl := isFigure_iff.mp h
      · simp only [Digit.isAscii, Bool.and_eq_true, decide_eq_true_eq] at h
        have h₁ : 48 ≤ c.toNat := h.1
        have h₂ : c.toNat ≤ 57 := h.2
        simp [Blank.isBlank, Blank.blanks, Ranges.within]
        omega
      · decide
  rw [Blank.isPadding, hb, Bool.false_and]

theorem latin_eq_self {c : Char} (h : c = '-' ∨ isFigure c = true) : latin c = c := by
  obtain rfl | h := h
  · decide
  · obtain h | rfl := isFigure_iff.mp h
    · exact latin_of_isAscii h
    · decide

theorem unify_text (l : Literal) : unify l.text = l.text := by
  have ht : Blank.trim Blank.isPadding l.text = l.text :=
    Blank.trim_eq_self
      (fun c hc => isPadding_eq_false (Literal.mem_text (List.mem_of_head? hc)))
      (fun c hc => isPadding_eq_false (Literal.mem_text (List.mem_of_getLast? hc)))
  have hm : l.text.map latin = l.text.map id :=
    List.map_congr_left fun c hc => latin_eq_self (Literal.mem_text hc)
  rw [unify, ht, hm, List.map_id]

theorem underscore_notMem_figures (l : Literal) : '_' ∉ l.figures := by
  intro h
  exact absurd (Literal.isFigure_of_mem_figures h) (by decide)

theorem underscore_notMem_text (l : Literal) : '_' ∉ l.text := by
  intro h
  exact absurd (Literal.mem_text h) (by decide)

theorem Integer.read_text {l : Literal} (hf : l.fraction = none) :
    Integer.read l.text =
      if longest < l.whole.length then .error (.tooManyDigits l.whole.length)
      else .ok l.integer := by
  have hr : (l.whole.takeWhile fun c => Digit.isAscii c || c = '_') = l.whole :=
    List.takeWhile_eq_self_iff.mpr fun c hc => by simp [l.isAscii_whole c hc]
  have hs : strike '+' l.whole = some l.whole :=
    strike_eq_self (by decide) (Literal.figures_of_none hf ▸ underscore_notMem_figures l)
  simp only [Integer.read, unify_text, Literal.sign_text, Literal.figures_of_none hf, hr, hs,
    l.whole_ne_nil, Nat.lt_irrefl, false_or, if_false]
  rfl

theorem Decimal.read_text {l : Literal} {ds : List Char} (hf : l.fraction = some ds) :
    Decimal.read l.text = .ok (Binary64.Parts.ofParts l.negative l.decimal.nearest) := by
  have hs : strike '+' l.text = some l.text :=
    strike_eq_self (by decide) (underscore_notMem_text l)
  have hp : Digit.isAscii '.' = false := by decide
  have hw : (l.whole ++ '.' :: ds).takeWhile Digit.isAscii = l.whole := by
    rw [← Literal.figures_of_some hf, l.takeWhile_figures]
  have hd : (l.whole ++ '.' :: ds).dropWhile Digit.isAscii = '.' :: ds := by
    rw [List.dropWhile_append_of_pos l.isAscii_whole, List.dropWhile_cons_of_neg (by simp [hp])]
  have ht : ds.takeWhile Digit.isAscii = ds :=
    List.takeWhile_eq_self_iff.mpr fun c hc => l.isAscii_fraction ds hf c hc
  have hn : ds.dropWhile Digit.isAscii = [] :=
    List.dropWhile_eq_nil_iff.mpr fun c hc => l.isAscii_fraction ds hf c hc
  have hu : Decimal.unsigned? l.figures = some l.decimal := by
    have hne : l.whole ++ ds ≠ [] := List.append_ne_nil_of_left_ne_nil l.whole_ne_nil ds
    have hb : Decimal.bounded (l.whole ++ ds).length 0 = 0 := by
      simp only [Decimal.bounded]
      omega
    simp only [Decimal.unsigned?, Literal.figures_of_some hf, hw, hd, ht, hn, if_neg hne,
      Decimal.exponent?, Option.map_some, hb, Literal.decimal, hf, Option.getD_some]
    simp
  simp only [Decimal.read, unify_text, hs, Option.bind_some, Literal.sign_text,
    Decimal.readUnsigned?, hu]

end Abacus.Numeral
