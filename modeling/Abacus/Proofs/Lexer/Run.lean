import Abacus.Lexer.Scan
import Abacus.Proofs.Numeral.Literal
import Abacus.Proofs.Outcome
import Mathlib.Data.List.DropRight

namespace Abacus.Lexer

open Numeral Text

def InAlphabet (c : Char) : Prop :=
  CharClass.isBlank c = true ∨ isFigure c = true ∨ (Symbol.ofChar? c).isSome = true

inductive Classified (c : Char) : Option CharClass → Prop
  | stranger (h : ¬ InAlphabet c) : Classified c none
  | blank (h : CharClass.isBlank c = true) : Classified c (some .blank)
  | digit (h : Digit.isAscii c = true) : Classified c (some .digit)
  | hyphen (h : c = '-') : Classified c (some .hyphen)
  | fullStop (h : c = '.') : Classified c (some .fullStop)
  | operator (x : Symbol) (h : Symbol.ofChar? c = some x) (hx : x ≠ .subtract) :
    Classified c (some .operator)

theorem classified_ofChar? (c : Char) : Classified c (CharClass.ofChar? c) := by
  unfold CharClass.ofChar?
  by_cases hb : CharClass.isBlank c = true
  · rw [if_pos hb]
    exact .blank hb
  by_cases hd : Digit.isAscii c = true
  · rw [if_neg hb, if_pos hd]
    exact .digit hd
  by_cases hm : c = '-'
  · rw [if_neg hb, if_neg hd, if_pos hm]
    exact .hyphen hm
  by_cases hp : c = '.'
  · rw [if_neg hb, if_neg hd, if_neg hm, if_pos hp]
    exact .fullStop hp
  rw [if_neg hb, if_neg hd, if_neg hm, if_neg hp]
  cases hx : Symbol.ofChar? c with
  | none =>
    refine .stranger ?_
    simp [InAlphabet, isFigure, hb, hd, hp, hx]
  | some x =>
    refine .operator x hx ?_
    rintro rfl
    exact hm (Symbol.char_of_ofChar? hx).symm

theorem ofChar?_of_isAscii {c : Char} (h : Digit.isAscii c = true) :
    CharClass.ofChar? c = some .digit := by
  have hb : ¬ CharClass.isBlank c = true := by
    intro hb
    simp only [CharClass.isBlank, Bool.or_eq_true, decide_eq_true_eq] at hb
    obtain ((((rfl | rfl) | rfl) | rfl) | rfl) | rfl := hb <;> cases h
  rw [CharClass.ofChar?, if_neg hb, if_pos h]

theorem ofChar?_of_isBlank {c : Char} (h : CharClass.isBlank c = true) :
    CharClass.ofChar? c = some .blank := by
  rw [CharClass.ofChar?, if_pos h]

theorem isFigure_eq_false_of_isBlank {c : Char} (h : CharClass.isBlank c = true) :
    isFigure c = false := by
  simp only [CharClass.isBlank, Bool.or_eq_true, decide_eq_true_eq] at h
  obtain ((((rfl | rfl) | rfl) | rfl) | rfl) | rfl := h <;> decide

theorem isFigure_eq_false_of_ofChar? {c : Char} {x : Symbol} (h : Symbol.ofChar? c = some x) :
    isFigure c = false := by
  obtain rfl := Symbol.char_of_ofChar? h
  cases x <;> decide

namespace State

/-- The tokens that are due once it is known that nothing goes on with the text of a state. -/
def settled : State → Except Fault (List Token)
  | start => .ok []
  | hyphen => .ok [.symbol .subtract]
  | integer ds => (integerOf ds).map fun t => [t]
  | decimal ds => (decimalOf ds).map fun t => [t]

def push : State → Char → State
  | start, c => integer [c]
  | hyphen, c => integer ['-', c]
  | integer ds, c => integer (ds ++ [c])
  | decimal ds, c => decimal (ds ++ [c])

def isLiteral : State → Bool
  | start => false
  | hyphen => false
  | integer _ => true
  | decimal _ => true

def flush (s : State) (offset : Nat) (c : Option Char) : Except Error (List Token) :=
  s.settled.mapError fun _ => ⟨.badLiteral s.digits.length, offset, c⟩

end State

variable {s s' : State} {offset : Nat} {c : Char} {ts : List Token}

theorem flush_eq_ok_iff {o : Option Char} : s.flush offset o = .ok ts ↔ s.settled = .ok ts :=
  Outcome.mapError_eq_ok_iff

theorem flush_eq_error_iff {o : Option Char} {e : Error} : s.flush offset o = .error e ↔
    (∃ f, s.settled = .error f) ∧ ⟨.badLiteral s.digits.length, offset, o⟩ = e := by
  rw [State.flush, Outcome.mapError_eq_error_iff, exists_and_right]

theorem exists_settled_eq (hv : s.settled = .ok ts) (hs : s ≠ .start) : ∃ t, ts = [t] := by
  cases s with
  | start => exact absurd rfl hs
  | hyphen =>
    cases hv
    exact ⟨_, rfl⟩
  | integer ds | decimal ds =>
    obtain ⟨t, -, rfl⟩ := Outcome.map_eq_ok_iff.mp hv
    exact ⟨t, rfl⟩

theorem settled_integer {l : Literal} (hf : l.fraction = none) :
    (State.integer l.text).settled =
      if longest < l.whole.length then .error (.numeral (.tooManyDigits l.whole.length))
      else .ok [.number (.integer l.integer)] := by
  simp only [State.settled, integerOf, Integer.read_text hf]
  by_cases hl : longest < l.whole.length
  · rw [if_pos hl, if_pos hl]
    rfl
  · rw [if_neg hl, if_neg hl]
    rfl

theorem settled_decimal {l : Literal} {ds : List Char} (hf : l.fraction = some ds) :
    (State.decimal l.text).settled =
      .ok [.number (.decimal (Binary64.Parts.ofParts l.negative l.decimal.nearest))] := by
  simp only [State.settled, decimalOf, Decimal.read_text hf]
  rfl

theorem read_stranger (h : CharClass.ofChar? c = none) :
    read s offset c = .error ⟨.unrecognized, offset, some c⟩ := by
  rw [read, h]

theorem read_digit (h : CharClass.ofChar? c = some .digit) :
    read s offset c = .ok (s.push c, []) := by
  cases s <;> simp [read, h, step, Step.goto, State.push]

theorem read_of_settled {k : CharClass} (h : CharClass.ofChar? c = some k)
    {f : List Token → List Token}
    (hs : step s k [c] = s.settled.bind fun ts => .ok (.goto s' (f ts))) :
    read s offset c = (s.flush offset (some c)).map fun ts => (s', f ts) := by
  simp only [read, h, hs, State.flush]
  cases s.settled <;> rfl

theorem step_eq_settle {k : CharClass} (hk : k = .blank ∨ k = .operator ∨ k = .endOfInput)
    (text : List Char) : step s k text = s.settled.bind fun ts => settle ts k text := by
  cases s with
  | start | hyphen => obtain rfl | rfl | rfl := hk <;> rfl
  | integer ds =>
    obtain rfl | rfl | rfl := hk <;> simp only [step, State.settled] <;>
      cases integerOf ds <;> rfl
  | decimal ds =>
    obtain rfl | rfl | rfl := hk <;> simp only [step, State.settled] <;>
      cases decimalOf ds <;> rfl

theorem read_blank (h : CharClass.ofChar? c = some .blank) :
    read s offset c = (s.flush offset (some c)).map fun ts => (.start, ts) :=
  read_of_settled h (step_eq_settle (.inl rfl) [c])

theorem read_operator {x : Symbol} (h : CharClass.ofChar? c = some .operator)
    (hx : Symbol.ofChar? c = some x) :
    read s offset c = (s.flush offset (some c)).map fun ts => (.start, ts ++ [.symbol x]) := by
  have ht : symbolOf [c] = .ok (.symbol x) := by
    rw [symbolOf, Token.ofLexeme, Symbol.ofText?, hx]
    rfl
  refine read_of_settled h ?_
  rw [step_eq_settle (.inr (.inl rfl)) [c]]
  simp only [settle, ht]
  rfl

theorem read_hyphen (h : CharClass.ofChar? c = some .hyphen) :
    read s offset c = (s.flush offset (some c)).map fun ts =>
      if s.isLiteral then (.start, ts ++ [.symbol .subtract]) else (.hyphen, ts) := by
  cases s with
  | start => exact read_of_settled (f := id) h rfl
  | hyphen => exact read_of_settled (f := id) h rfl
  | integer ds =>
    refine read_of_settled h ?_
    simp only [step, State.settled]
    cases integerOf ds <;> rfl
  | decimal ds =>
    refine read_of_settled h ?_
    simp only [step, State.settled]
    cases decimalOf ds <;> rfl

theorem read_fullStop_integer {ds : List Char} (h : CharClass.ofChar? c = some .fullStop) :
    read (.integer ds) offset c = .ok (.decimal (ds ++ ['.']), []) := by
  simp [read, h, step, Step.goto]

theorem read_fullStop (h : CharClass.ofChar? c = some .fullStop)
    (hs : ∀ ds, s ≠ .integer ds) : read s offset c = .error ⟨.unexpected, offset, some c⟩ := by
  cases s with
  | integer ds => exact absurd rfl (hs ds)
  | start | hyphen | decimal ds => simp [read, h, step, Step.reject]

/-- What a step does: the character goes on with the text of the state, or the tokens that are due
come out before it. -/
inductive Moves (s : State) (c : Char) : State → List Token → Prop
  | digit (hd : Digit.isAscii c = true) : Moves s c (s.push c) []
  | point {ds : List Char} (hs : s = .integer ds) (hp : c = '.') :
    Moves s c (.decimal (ds ++ ['.'])) []
  | blank {due : List Token} (hv : s.settled = .ok due) (hb : CharClass.isBlank c = true) :
    Moves s c .start due
  | operator {due : List Token} {x : Symbol} (hv : s.settled = .ok due)
    (hx : Symbol.ofChar? c = some x) (hm : x ≠ .subtract) : Moves s c .start (due ++ [.symbol x])
  | minus {due : List Token} (hv : s.settled = .ok due) (hs : s.isLiteral = true) (hm : c = '-') :
    Moves s c .start (due ++ [.symbol .subtract])
  | sign {due : List Token} (hv : s.settled = .ok due) (hs : s.isLiteral = false) (hm : c = '-') :
    Moves s c .hyphen due

theorem moves_of_read (h : read s offset c = .ok (s', ts)) : Moves s c s' ts := by
  have hk := classified_ofChar? c
  generalize hc : CharClass.ofChar? c = k at hk
  cases hk with
  | stranger hn =>
    rw [read_stranger hc] at h
    cases h
  | digit hd =>
    rw [read_digit hc] at h
    cases h
    exact .digit hd
  | blank hb =>
    rw [read_blank hc] at h
    obtain ⟨us, hu, he⟩ := Outcome.map_eq_ok_iff.mp h
    cases he
    exact .blank (flush_eq_ok_iff.mp hu) hb
  | operator x hx hm =>
    rw [read_operator hc hx] at h
    obtain ⟨us, hu, he⟩ := Outcome.map_eq_ok_iff.mp h
    cases he
    exact .operator (flush_eq_ok_iff.mp hu) hx hm
  | hyphen hm =>
    rw [read_hyphen hc] at h
    obtain ⟨us, hu, he⟩ := Outcome.map_eq_ok_iff.mp h
    cases hs : s.isLiteral with
    | true =>
      rw [hs] at he
      cases he
      exact .minus (flush_eq_ok_iff.mp hu) hs hm
    | false =>
      rw [hs] at he
      cases he
      exact .sign (flush_eq_ok_iff.mp hu) hs hm
  | fullStop hp =>
    cases s with
    | integer ds =>
      rw [read_fullStop_integer hc] at h
      cases h
      exact .point rfl hp
    | start | hyphen | decimal ds =>
      rw [read_fullStop hc (by simp)] at h
      cases h

theorem finish_eq_flush : finish s offset = s.flush offset none := by
  simp only [finish, step_eq_settle (.inr (.inr rfl)), State.flush, settle]
  cases s.settled <;> rfl

theorem place_of_read {e : Error} (h : read s offset c = .error e) :
    e.offset = offset ∧ e.char = some c := by
  unfold read at h
  split at h
  · cases h
    exact ⟨rfl, rfl⟩
  · split at h <;> cases h
    · exact ⟨rfl, rfl⟩
    · exact ⟨rfl, rfl⟩

theorem place_of_finish {e : Error} (h : finish s offset = .error e) :
    e.offset = offset ∧ e.char = none := by
  rw [finish_eq_flush, flush_eq_error_iff] at h
  obtain ⟨-, rfl⟩ := h
  exact ⟨rfl, rfl⟩

theorem result_prepend (ts : List Token) (r : Scan) :
    (Scan.prepend ts offset r).result = r.result.map (ts ++ ·) := by
  obtain ⟨emitted, error⟩ := r
  cases error <;> simp [Scan.prepend, Scan.result, Scan.tokens, Except.map, Function.comp_def]

theorem result_scanFrom_nil : (scanFrom s offset []).result = finish s offset := by
  rw [scanFrom]
  cases finish s offset with
  | error e => rfl
  | ok ts =>
    refine (result_prepend ts _).trans ?_
    simp [Scan.result, Scan.tokens, Except.map]

theorem result_scanFrom_cons (cs : List Char) :
    (scanFrom s offset (c :: cs)).result = (do
      let (s', ts) ← read s offset c
      (scanFrom s' (offset + 1) cs).result.map (ts ++ ·)) := by
  rw [scanFrom]
  cases read s offset c with
  | error e => rfl
  | ok p => exact result_prepend p.2 _

end Abacus.Lexer
