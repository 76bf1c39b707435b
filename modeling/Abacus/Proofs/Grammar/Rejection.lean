import Abacus.Proofs.Grammar.Rules

namespace Abacus.Parser

open Outcome

variable {α β γ ω : Type}

/-- How the tokens of a rejection look, apart from those that are nested too deep. The tokens read
before it begin some `a` that goes on with each alternative, within `room` levels or with one level
more for a parenthesis, and the tokens after it begin with none of the alternatives. -/
inductive Stalls (flatten : α → List Token) (nest : α → Nat) (room : Nat)
    (front back : List Token) : Cause → Prop
  | depth (limit : Nat) : Stalls flatten nest room front back (.tooDeep limit)
  | operand
    (hn : ∀ n, ∃ a us, flatten a = front ++ .number n :: us ∧ nest a ≤ room)
    (hp : ∃ a us, flatten a = front ++ .symbol .leftParen :: us ∧ nest a ≤ room + 1)
    (hb : ∀ t ∈ back.head?, t.isNumeric = false ∧ t ≠ .symbol .leftParen) :
    Stalls flatten nest room front back .expectedOperand
  | closing
    (hp : ∃ a us, flatten a = front ++ .symbol .rightParen :: us ∧ nest a ≤ room)
    (ha : AfterExpression back) (hb : back.head? ≠ some (.symbol .rightParen)) :
    Stalls flatten nest room front back .expectedClosing

/-- A rule that refuses tokens has read some of them, and finds the first one that is left. -/
def Rejects (r : Rule α) (flatten : α → List Token) (nest : α → Nat) (room : Nat) : Prop :=
  ∀ ts j, r ts = .error j → ∃ front back, front ++ back = ts ∧ j.found = back.head? ∧
    Stalls flatten nest room front back j.cause

variable {flatten : α → List Token} {nest : α → Nat} {room room' : Nat}
  {flatten' : β → List Token} {nest' : β → Nat} {front back : List Token} {c : Cause}
  {j : Rejection} {ts : List Token}

theorem stalls_within (front' back' : List Token) (h : Stalls flatten nest room front back c)
    (whole : α → β)
    (hf : ∀ a, flatten' (whole a) = front' ++ (flatten a ++ back'))
    (hn : ∀ a k, nest a ≤ room + k → nest' (whole a) ≤ room' + k) :
    Stalls flatten' nest' room' (front' ++ front) back c := by
  have hw {t : Token} {k : Nat} (h : ∃ a us, flatten a = front ++ t :: us ∧ nest a ≤ room + k) :
      ∃ b us, flatten' b = front' ++ front ++ t :: us ∧ nest' b ≤ room' + k := by
    obtain ⟨a, us, ha, hk⟩ := h
    refine ⟨whole a, us ++ back', ?_, hn a k hk⟩
    simp only [hf, ha, List.append_assoc, List.cons_append]
  cases h with
  | depth limit => exact .depth limit
  | operand hn hp hb => exact .operand (fun n => hw (k := 0) (hn n)) (hw hp) hb
  | closing hp ha hb => exact .closing (hw (k := 0) hp) ha hb

theorem tooDeep_rejects (limit : Nat) (flatten : α → List Token) (nest : α → Nat) (room : Nat) :
    Rejects (tooDeep limit) flatten nest room := by
  intro ts j h
  cases h
  exact ⟨[], ts, rfl, rfl, .depth limit⟩

theorem chain_eq_error {op? : Token → Option ω} {symbol : ω → Symbol} {operand : Rule α}
    {allowed : α → Prop} {stop : List Token → Prop}
    (hop : ∀ t op, op? t = some op ↔ t = .symbol (symbol op))
    (hr : Reads operand flatten allowed stop) {n : Nat}
    (h : chain op? operand n ts = .error j) :
    ∃ xs op us, links symbol flatten xs ++ .symbol (symbol op) :: us = ts ∧
      (∀ p ∈ xs, allowed p.2) ∧ operand us = .error j := by
  induction n generalizing ts with
  | zero => cases h
  | succ n ih =>
    cases ts with
    | nil => cases h
    | cons t ts =>
      cases ho : op? t with
      | none =>
        simp only [chain, ho] at h
        cases h
      | some op =>
        obtain rfl := (hop t op).mp ho
        simp only [chain, ho] at h
        obtain h | ⟨⟨a, mid⟩, ha, h⟩ := bind_eq_error_iff.mp h
        · exact ⟨[], op, ts, rfl, by simp, h⟩
        · obtain h | ⟨⟨ys, last⟩, -, h⟩ := bind_eq_error_iff.mp h
          · obtain ⟨xs, op', us, rfl, hx, hu⟩ := ih h
            obtain ⟨rfl, haa, -⟩ := (hr _ _ _).mp ha
            refine ⟨(op, a) :: xs, op', us, ?_, List.forall_mem_cons.mpr ⟨haa, hx⟩, hu⟩
            rw [links_cons, List.append_assoc, List.cons_append]
          · cases h

theorem series_eq_error {op? : Token → Option ω} {operand : Rule α} {ofList : List (ω × α) → γ}
    {mk : α → γ → β}
    (h : (do let (a, us) ← operand ts
             let (b, us) ← (do let (xs, us) ← chain op? operand us.length us
                               .ok (ofList xs, us))
             .ok (mk a b, us)) = Except.error j) :
    operand ts = .error j ∨
      ∃ a us, operand ts = .ok (a, us) ∧ chain op? operand us.length us = .error j := by
  obtain h | ⟨⟨a, us⟩, ha, h⟩ := bind_eq_error_iff.mp h
  · exact .inl h
  · obtain h | ⟨p, -, h⟩ := bind_eq_error_iff.mp h
    · obtain h | ⟨q, -, h⟩ := bind_eq_error_iff.mp h
      · exact .inr ⟨a, us, ha, h⟩
      · cases h
    · cases h

theorem links_append (symbol : ω → Symbol) (flatten : α → List Token) (xs ys : List (ω × α)) :
    links symbol flatten (xs ++ ys) = links symbol flatten xs ++ links symbol flatten ys :=
  List.flatMap_append

theorem series_rejects {op? : Token → Option ω} {symbol : ω → Symbol} {operand : Rule α}
    {stop : List Token → Prop} (hop : ∀ t op, op? t = some op ↔ t = .symbol (symbol op))
    (hr : Reads operand flatten (fun a => nest a ≤ room) stop)
    (hj : Rejects operand flatten nest room) {rule : Rule β} (whole : α → List (ω × α) → β)
    (levels : Nat)
    (hw : ∀ ts j, rule ts = .error j → operand ts = .error j ∨
      ∃ a us, operand ts = .ok (a, us) ∧ chain op? operand us.length us = .error j)
    (hf : ∀ a xs, flatten' (whole a xs) = flatten a ++ links symbol flatten xs)
    (hn : ∀ a xs m, nest' (whole a xs) ≤ m + levels ↔ nest a ≤ m ∧ ∀ p ∈ xs, nest p.2 ≤ m) :
    Rejects rule flatten' nest' (room + levels) := by
  intro ts j h
  obtain he | ⟨a, us, ha, he⟩ := hw ts j h
  · obtain ⟨front, back, rfl, hfound, hs⟩ := hj ts j he
    refine ⟨front, back, rfl, hfound, stalls_within [] [] hs (fun a => whole a [])
      (fun a => ?_) fun a k hk => ?_⟩
    · rw [hf]
      rfl
    · rw [Nat.add_right_comm]
      exact (hn a [] (room + k)).mpr ⟨hk, by simp⟩
  · obtain ⟨rfl, haa, -⟩ := (hr _ _ _).mp ha
    obtain ⟨xs, op, vs, rfl, hx, hv⟩ := chain_eq_error hop hr he
    obtain ⟨front, back, rfl, hfound, hs⟩ := hj vs j hv
    refine ⟨flatten a ++ links symbol flatten xs ++ [.symbol (symbol op)] ++ front, back, by simp,
      hfound, stalls_within _ [] hs (fun b => whole a (xs ++ [(op, b)])) (fun b => ?_)
        fun b k hk => ?_⟩
    · rw [hf, links_append]
      simp [links]
    · rw [Nat.add_right_comm, hn]
      refine ⟨Nat.le_add_right_of_le haa, fun p hp => ?_⟩
      obtain hp | hp := List.mem_append.mp hp
      · exact Nat.le_add_right_of_le (hx p hp)
      · rw [List.mem_singleton.mp hp]
        exact hk

theorem term_rejects {factor : Rule Factor} {n : Nat}
    (hf : Reads factor Factor.flatten (fun f => f.nest ≤ n) AfterFactor)
    (hj : Rejects factor Factor.flatten Factor.nest n) :
    Rejects (term factor) Term.flatten Term.nest n := by
  refine series_rejects (fun _ _ => MulOp.ofToken?_eq_some_iff) hf hj
    (fun f xs => .mk f (.ofList xs)) 0 (fun _ _ h => series_eq_error h) (fun f xs => ?_)
    fun f xs m => ?_
  · rw [Term.flatten, flatten_ofList_mul]
  · rw [Term.nest, Nat.add_zero, Nat.max_le, nest_ofList_mul_le_iff]

theorem expressionOf_rejects {factor : Rule Factor} {n : Nat}
    (hf : Reads factor Factor.flatten (fun f => f.nest ≤ n) AfterFactor)
    (hj : Rejects factor Factor.flatten Factor.nest n) :
    Rejects (expressionOf factor) Expression.flatten Expression.nest (n + 1) := by
  refine series_rejects (fun _ _ => AddOp.ofToken?_eq_some_iff) (term_reads hf)
    (term_rejects hf hj) (fun t xs => .mk t (.ofList xs)) 1 (fun _ _ h => series_eq_error h)
    (fun t xs => ?_) fun t xs m => ?_
  · rw [Expression.flatten, flatten_ofList_add]
  · rw [Expression.nest, Nat.add_le_add_iff_right, Nat.max_le, nest_ofList_add_le_iff]

theorem base_rejects {nested : Rule Expression} {n : Nat}
    (hn : Reads nested Expression.flatten (fun e => e.nest ≤ n) AfterExpression)
    (hj : Rejects nested Expression.flatten Expression.nest n) :
    Rejects (base nested) Base.flatten Base.nest n := by
  intro ts j h
  unfold base at h
  split at h
  · cases h
  · next us =>
    obtain h | ⟨⟨e, mid⟩, he, hk⟩ := bind_eq_error_iff.mp h
    · obtain ⟨front, back, rfl, hfound, hs⟩ := hj us j h
      exact ⟨[.symbol .leftParen] ++ front, back, rfl, hfound,
        stalls_within _ [.symbol .rightParen] hs .group (fun _ => rfl) fun _ _ hk => hk⟩
    · obtain ⟨rfl, hd, ha⟩ := (hn _ _ _).mp he
      dsimp only at hk
      split at hk
      · cases hk
      · next hr =>
        cases hk
        refine ⟨.symbol .leftParen :: e.flatten, mid, rfl, rfl, .closing ?_ ha fun h => ?_⟩
        · exact ⟨.group e, [], rfl, hd⟩
        · obtain ⟨vs, rfl⟩ := List.head?_eq_some_iff.mp h
          exact hr vs rfl
  · next hnum hpar =>
    cases h
    let literal : Expression := .mk (.mk (.base (.literal (.integer 0))) .nil) .nil
    refine ⟨[], ts, rfl, rfl, .operand (fun m => ⟨.literal m, [], rfl, Nat.zero_le n⟩) ?_ ?_⟩
    · exact ⟨.group literal, [.number (.integer 0), .symbol .rightParen], rfl,
        Nat.le_add_left 1 n⟩
    · intro t ht
      obtain ⟨us, rfl⟩ := List.head?_eq_some_iff.mp ht
      cases t with
      | number m => exact absurd rfl (hnum m us)
      | symbol x => exact ⟨rfl, fun h => hpar us (by rw [h])⟩

theorem factorOf_rejects {nested : Rule Expression} {exponent : Rule Factor} {n : Nat}
    (hn : Reads nested Expression.flatten (fun e => e.nest ≤ n) AfterExpression)
    (hj : Rejects nested Expression.flatten Expression.nest n)
    (he : Rejects exponent Factor.flatten (fun f => f.nest + 1) n) :
    Rejects (factorOf nested exponent) Factor.flatten Factor.nest n := by
  intro ts j h
  obtain h | ⟨⟨b, mid⟩, hb, hk⟩ := bind_eq_error_iff.mp h
  · obtain ⟨front, back, rfl, hfound, hs⟩ := base_rejects hn hj ts j h
    refine ⟨front, back, rfl, hfound, stalls_within [] [] hs .base (fun b => ?_)
      fun _ _ hk => hk⟩
    rw [Factor.flatten, List.append_nil, List.nil_append]
  · obtain ⟨rfl, hd, -⟩ := (base_reads hn _ _ _).mp hb
    dsimp only at hk
    split at hk
    · next us =>
      obtain h | ⟨p, -, h⟩ := bind_eq_error_iff.mp hk
      · obtain ⟨front, back, rfl, hfound, hs⟩ := he us j h
        refine ⟨b.flatten ++ [.symbol .power] ++ front, back, by simp, hfound,
          stalls_within _ [] hs (.power b) (fun e => ?_)
            fun _ _ hk => Nat.max_le.mpr ⟨Nat.le_add_right_of_le hd, hk⟩⟩
        simp [Factor.flatten]
      · cases h
    · cases hk

/-- What is refused within `room` levels begins something that has no more levels. -/
theorem factor_and_expression_reject (limit room : Nat) :
    Rejects (factor limit room) Factor.flatten Factor.nest room ∧
      Rejects (expression limit room) Expression.flatten Expression.nest room := by
  induction room with
  | zero =>
    obtain ⟨-, hr⟩ := factor_and_expression_read limit 0
    have hx : Rejects (expression limit 0) Expression.flatten Expression.nest 0 :=
      tooDeep_rejects limit _ _ 0
    exact ⟨factorOf_rejects hr hx (tooDeep_rejects limit _ _ 0), hx⟩
  | succ room ih =>
    obtain ⟨hf, -⟩ := ih
    obtain ⟨hr, -⟩ := factor_and_expression_read limit room
    obtain ⟨-, hrx⟩ := factor_and_expression_read limit (room + 1)
    have hx := expressionOf_rejects hr hf
    have he : Rejects (factor limit room) Factor.flatten (fun f => f.nest + 1) (room + 1) := by
      intro ts j h
      obtain ⟨front, back, hts, hfound, hs⟩ := hf ts j h
      refine ⟨front, back, hts, hfound, stalls_within [] [] hs id
        (fun _ => (List.append_nil _).symm) fun f k hk => ?_⟩
      rw [Nat.add_right_comm]
      exact Nat.succ_le_succ hk
    exact ⟨factorOf_rejects hrx hx he, hx⟩

theorem document_eq_error {limit : Nat} (h : document limit ts = .error j) :
    ∃ front back, front ++ back = ts ∧ j.found = back.head? ∧
      (Stalls Expression.flatten Expression.nest limit front back j.cause ∨
        j.cause = .expectedEnd ∧ AfterExpression back ∧
          ∃ e : Expression, e.flatten = front ∧ e.nest ≤ limit) := by
  obtain h | ⟨⟨e, rest⟩, he, hk⟩ := bind_eq_error_iff.mp h
  · obtain ⟨front, back, hts, hfound, hs⟩ := (factor_and_expression_reject limit limit).2 ts j h
    exact ⟨front, back, hts, hfound, .inl hs⟩
  · obtain ⟨hts, hn, ha⟩ := ((factor_and_expression_read limit limit).2 _ _ _).mp he
    cases rest with
    | nil => cases hk
    | cons t rest =>
      cases hk
      exact ⟨e.flatten, t :: rest, hts, rfl, .inr ⟨rfl, ha, e, rfl, hn⟩⟩

end Abacus.Parser
