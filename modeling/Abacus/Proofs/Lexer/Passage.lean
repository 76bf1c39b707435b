import Abacus.Proofs.Lexer.Run

namespace Abacus.Lexer

open Numeral Text

/-- A text leads from one state to another and emits tokens on the way, wherever it stands. -/
inductive Passes : State → List Char → State → List Token → Prop
  | nil (s : State) : Passes s [] s []
  | cons {s s' s'' : State} {c : Char} {cs : List Char} {ts us : List Token}
    (hr : ∀ offset, read s offset c = .ok (s', ts)) (h : Passes s' cs s'' us) :
    Passes s (c :: cs) s'' (ts ++ us)

variable {s s' s'' : State} {c : Char} {xs ys : List Char} {ts us : List Token} {offset : Nat}

theorem passes_append (hx : Passes s xs s' ts) (hy : Passes s' ys s'' us) :
    Passes s (xs ++ ys) s'' (ts ++ us) := by
  induction hx with
  | nil s => exact hy
  | cons hr h ih =>
    rw [List.cons_append, List.append_assoc]
    exact .cons hr (ih hy)

theorem passes_singleton (hr : ∀ offset, read s offset c = .ok (s', ts)) :
    Passes s [c] s' ts := by
  have h := Passes.cons hr (.nil s')
  rwa [List.append_nil] at h

theorem passes_unique (h : Passes s xs s' ts) (h' : Passes s xs s'' us) : s' = s'' ∧ ts = us := by
  induction h generalizing us with
  | nil s =>
    cases h'
    exact ⟨rfl, rfl⟩
  | cons hr h ih =>
    cases h' with
    | cons hr' h' =>
      cases (hr 0).symm.trans (hr' 0)
      obtain ⟨rfl, rfl⟩ := ih h'
      exact ⟨rfl, rfl⟩

theorem exists_passes_of_append (h : Passes s (xs ++ ys) s'' ts) :
    ∃ s' us, Passes s xs s' us := by
  induction xs generalizing s ts with
  | nil => exact ⟨s, [], .nil s⟩
  | cons c xs ih =>
    cases h with
    | cons hr h =>
      obtain ⟨s', us, hp⟩ := ih h
      exact ⟨s', _, .cons hr hp⟩

theorem passes_digits (h : ∀ c ∈ xs, Digit.isAscii c = true) :
    Passes s xs (xs.foldl State.push s) [] := by
  induction xs generalizing s with
  | nil => exact .nil s
  | cons c xs ih =>
    have hc : CharClass.ofChar? c = some .digit := ofChar?_of_isAscii (h c List.mem_cons_self)
    exact .cons (fun _ => read_digit hc) (ih fun d hd => h d (List.mem_cons_of_mem c hd))

theorem foldl_push_integer (ds xs : List Char) :
    xs.foldl State.push (.integer ds) = .integer (ds ++ xs) := by
  induction xs generalizing ds with
  | nil => rw [List.append_nil]; rfl
  | cons c xs ih =>
    rw [List.foldl_cons, State.push, ih, List.append_assoc]
    rfl

theorem foldl_push_decimal (ds xs : List Char) :
    xs.foldl State.push (.decimal ds) = .decimal (ds ++ xs) := by
  induction xs generalizing ds with
  | nil => rw [List.append_nil]; rfl
  | cons c xs ih =>
    rw [List.foldl_cons, State.push, ih, List.append_assoc]
    rfl

theorem result_scanFrom_append (h : Passes s xs s' ts) (offset : Nat) (rest : List Char) :
    (scanFrom s offset (xs ++ rest)).result =
      (scanFrom s' (offset + xs.length) rest).result.map (ts ++ ·) := by
  induction h generalizing offset with
  | nil s =>
    change (scanFrom s offset rest).result = (scanFrom s offset rest).result.map id
    cases (scanFrom s offset rest).result <;> rfl
  | @cons s s₁ s₂ c cs ts us hr h ih =>
    have hl : offset + 1 + cs.length = offset + (c :: cs).length := by
      rw [List.length_cons]
      omega
    rw [List.cons_append, result_scanFrom_cons, hr offset]
    change (scanFrom s₁ (offset + 1) (cs ++ rest)).result.map (ts ++ ·) = _
    rw [ih, hl]
    cases (scanFrom s₂ (offset + (c :: cs).length) rest).result with
    | error e => rfl
    | ok vs => exact congrArg Except.ok (List.append_assoc ts us vs).symm

theorem read_eq_ok_of_read (h : read s offset c = .ok (s', ts)) (offset' : Nat) :
    read s offset' c = .ok (s', ts) := by
  unfold read at h ⊢
  split at h
  · cases h
  · split at h <;> cases h
    rfl

theorem passes_blank {due : List Token} (hv : s.settled = .ok due) (hb : CharClass.isBlank c = true) :
    Passes s [c] .start due := by
  apply passes_singleton
  intro offset
  rw [read_blank (ofChar?_of_isBlank hb), flush_eq_ok_iff.mpr hv]
  rfl

theorem passes_space {due : List Token} (hv : s.settled = .ok due) : Passes s [' '] .start due :=
  passes_blank hv rfl

theorem passes_of_ofChar? {due : List Token} {x : Symbol} (hv : s.settled = .ok due)
    (hc : CharClass.ofChar? c = some .operator) (hx : Symbol.ofChar? c = some x) :
    Passes s [c] .start (due ++ [.symbol x]) := by
  refine passes_singleton fun offset => ?_
  rw [read_operator hc hx, flush_eq_ok_iff.mpr hv]
  rfl

theorem exists_passes_char (x : Symbol) : ∃ s' us due, Passes .start [x.char] s' us ∧
    s'.settled = .ok due ∧ us ++ due = [.symbol x] := by
  have hop {c : Char} {y : Symbol} (hc : CharClass.ofChar? c = some .operator)
      (hy : Symbol.ofChar? c = some y) : ∃ s' us due, Passes .start [c] s' us ∧
        s'.settled = .ok due ∧ us ++ due = [.symbol y] := by
    have hv : State.start.settled = .ok [] := rfl
    exact ⟨.start, [.symbol y], [], passes_of_ofChar? hv hc hy, rfl, rfl⟩
  cases x with
  | add | multiply | divide | power | leftParen | rightParen => exact hop rfl rfl
  | subtract =>
    have hm (offset : Nat) : read .start offset '-' = .ok (.hyphen, []) := rfl
    exact ⟨.hyphen, [], [.symbol .subtract], passes_singleton hm, rfl, rfl⟩

theorem scan_of_passes {due : List Token} (h : Passes .start xs s ts) (hv : s.settled = .ok due) :
    (scan xs).result = .ok (ts ++ due) := by
  have hr := result_scanFrom_append h 0 []
  rw [List.append_nil, result_scanFrom_nil, finish_eq_flush, flush_eq_ok_iff.mpr hv] at hr
  exact hr

theorem scan_stranger (h : Passes .start xs s ts) (hc : CharClass.ofChar? c = none)
    (rest : List Char) :
    (scan (xs ++ c :: rest)).result = .error ⟨.unrecognized, xs.length, some c⟩ := by
  rw [scan, result_scanFrom_append h, result_scanFrom_cons, read_stranger hc, Nat.zero_add]
  rfl

theorem passes_of_result (h : (scanFrom s offset xs).result = .ok ts) :
    ∃ s' us due, Passes s xs s' us ∧ s'.settled = .ok due ∧ us ++ due = ts := by
  induction xs generalizing s offset ts with
  | nil =>
    rw [result_scanFrom_nil, finish_eq_flush, flush_eq_ok_iff] at h
    exact ⟨s, [], ts, .nil s, h, rfl⟩
  | cons c xs ih =>
    rw [result_scanFrom_cons] at h
    obtain ⟨⟨s₁, vs⟩, hr, h⟩ := Outcome.bind_eq_ok_iff.mp h
    obtain ⟨ws, hw, rfl⟩ := Outcome.map_eq_ok_iff.mp h
    obtain ⟨s', us, due, hp, hd, rfl⟩ := ih hw
    exact ⟨s', vs ++ us, due, .cons (read_eq_ok_of_read hr) hp, hd, List.append_assoc vs us due⟩

theorem result_scanFrom_of_ok (h : (scanFrom s offset xs).result = .ok ts) (offset' : Nat) :
    (scanFrom s offset' xs).result = .ok ts := by
  obtain ⟨s', us, due, hp, hv, rfl⟩ := passes_of_result h
  have hr := result_scanFrom_append hp offset' []
  rwa [List.append_nil, result_scanFrom_nil, finish_eq_flush, flush_eq_ok_iff.mpr hv] at hr

def literalState (l : Literal) : State :=
  if l.fraction = none then .integer l.text else .decimal l.text

theorem passes_front (l : Literal) : Passes .start l.front (.integer l.front) [] := by
  obtain ⟨c, cs, hw⟩ := List.exists_cons_of_ne_nil l.whole_ne_nil
  have hd : Passes (.start) l.whole (.integer l.whole) [] := by
    have h := passes_digits (s := .start) l.isAscii_whole
    rwa [hw, List.foldl_cons, State.push, foldl_push_integer] at *
  have hm : Passes .hyphen l.whole (.integer ('-' :: l.whole)) [] := by
    have h := passes_digits (s := .hyphen) l.isAscii_whole
    rwa [hw, List.foldl_cons, State.push, foldl_push_integer] at *
  unfold Literal.front
  split
  · have hr (offset : Nat) : read .start offset '-' = .ok (.hyphen, []) := rfl
    exact .cons hr hm
  · exact hd

theorem passes_text (l : Literal) : Passes .start l.text (literalState l) [] := by
  unfold literalState
  cases hf : l.fraction with
  | none =>
    rw [if_pos rfl, Literal.text_of_none hf]
    exact passes_front l
  | some ds =>
    have hp : Passes (.integer l.front) ['.'] (.decimal (l.front ++ ['.'])) [] :=
      passes_singleton fun _ => read_fullStop_integer rfl
    have hd : Passes (.decimal (l.front ++ ['.'])) ds (.decimal (l.front ++ '.' :: ds)) [] := by
      have h := passes_digits (s := .decimal (l.front ++ ['.'])) (l.isAscii_fraction ds hf)
      rwa [foldl_push_decimal, List.append_assoc] at h
    rw [if_neg (Option.some_ne_none ds), Literal.text_of_some hf]
    exact passes_append (passes_front l) (passes_append hp hd)

end Abacus.Lexer
