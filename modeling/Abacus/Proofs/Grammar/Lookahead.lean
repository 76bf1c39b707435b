import Abacus.Proofs.Grammar.ViablePrefix

namespace Abacus.Parser

open Outcome

variable {α β γ ω : Type}

/-- A rule that refuses tokens has read the beginning of some `a`. It refuses all tokens with that
beginning and the same one next, and if they are nested too deep, whatever comes next. -/
def Refuses (r : Rule α) (flatten : α → List Token) : Prop :=
  ∀ ts j, r ts = .error j → ∃ front back, front ++ back = ts ∧ j.found = back.head? ∧
    (∃ a us, flatten a = front ++ us) ∧
    ∀ rest, (rest.head? = back.head? ∨ ∃ l, j.cause = .tooDeep l) →
      r (front ++ rest) = .error ⟨j.cause, rest.head?⟩

theorem afterExpression_congr {ts us : List Token} (h : ts.head? = us.head?) :
    AfterExpression ts ↔ AfterExpression us := by
  simp only [AfterExpression, AfterTerm, AfterFactor, Ends, h]

theorem tooDeep_refuses [Nonempty α] (limit : Nat) (flatten : α → List Token) :
    Refuses (tooDeep limit) flatten := by
  intro ts j h
  cases h
  obtain ⟨a⟩ := ‹Nonempty α›
  exact ⟨[], ts, rfl, rfl, ⟨a, flatten a, rfl⟩, fun rest _ => rfl⟩

section

variable {op? : Token → Option ω} {symbol : ω → Symbol} {operand : Rule α}
  {flatten : α → List Token} {allowed : α → Prop} {stop : List Token → Prop}
  {xs : List (ω × α)} {op : ω} {us : List Token} {j : Rejection}

theorem stop_links (flatten : α → List Token) (hs : ∀ op ts, stop (.symbol (symbol op) :: ts))
    (xs : List (ω × α)) (op : ω) (us : List Token) :
    stop (links symbol flatten xs ++ .symbol (symbol op) :: us) := by
  cases xs with
  | nil => exact hs op us
  | cons p xs => exact hs p.1 _

theorem chain_of_operand (op : ω) (hop : ∀ t op, op? t = some op ↔ t = .symbol (symbol op))
    (hr : Reads operand flatten allowed stop) (hs : ∀ op ts, stop (.symbol (symbol op) :: ts))
    (hx : ∀ p ∈ xs, allowed p.2) (hu : operand us = .error j) {n : Nat}
    (hn : (links symbol flatten xs ++ .symbol (symbol op) :: us).length ≤ n) :
    chain op? operand n (links symbol flatten xs ++ .symbol (symbol op) :: us) = .error j := by
  have ho (op : ω) : op? (.symbol (symbol op)) = some op := (hop _ op).mpr rfl
  induction xs generalizing n with
  | nil =>
    cases n with
    | zero => cases hn
    | succ n =>
      change chain op? operand (n + 1) (.symbol (symbol op) :: us) = .error j
      simp only [chain, ho, hu]
      rfl
  | cons p xs ih =>
    obtain ⟨op', a⟩ := p
    obtain ⟨ha, hx⟩ := List.forall_mem_cons.mp hx
    rw [links_cons, List.append_assoc, List.cons_append] at hn ⊢
    cases n with
    | zero => cases hn
    | succ n =>
      have hread := (hr _ a _).mpr ⟨rfl, ha, stop_links flatten hs xs op us⟩
      have hlen : (links symbol flatten xs ++ .symbol (symbol op) :: us).length ≤ n := by
        simp only [List.length_append, List.length_cons] at hn ⊢
        omega
      simp only [chain, ho, hread]
      change (chain op? operand n _ >>= _) = _
      rw [ih hx hlen]
      rfl

theorem series_eq_error_iff {ofList : List (ω × α) → γ} {mk : α → γ → β} {ts : List Token} :
    (do let (a, us) ← operand ts
        let (b, us) ← (do let (xs, us) ← chain op? operand us.length us
                          .ok (ofList xs, us))
        .ok (mk a b, us)) = Except.error j ↔
      operand ts = .error j ∨
        ∃ a us, operand ts = .ok (a, us) ∧ chain op? operand us.length us = .error j := by
  refine ⟨series_eq_error, ?_⟩
  rintro (h | ⟨a, us, ha, hc⟩)
  · rw [h]
    rfl
  · rw [ha]
    change ((chain op? operand us.length us >>= _) >>= _) = _
    rw [hc]
    rfl

theorem series_refuses (hop : ∀ t op, op? t = some op ↔ t = .symbol (symbol op))
    (hr : Reads operand flatten allowed stop) (hs : ∀ op ts, stop (.symbol (symbol op) :: ts))
    (hj : Refuses operand flatten) {rule : Rule β} {flatten' : β → List Token}
    (whole : α → List (ω × α) → β)
    (hw : ∀ ts j, rule ts = .error j ↔ operand ts = .error j ∨
      ∃ a us, operand ts = .ok (a, us) ∧ chain op? operand us.length us = .error j)
    (hf : ∀ a xs, flatten' (whole a xs) = flatten a ++ links symbol flatten xs) :
    Refuses rule flatten' := by
  intro ts j h
  obtain he | ⟨a, us, ha, he⟩ := (hw ts j).mp h
  · obtain ⟨front, back, rfl, hfound, ⟨a, us, ha⟩, hall⟩ := hj ts j he
    refine ⟨front, back, rfl, hfound, ⟨whole a [], us, ?_⟩, fun rest hd => ?_⟩
    · rw [hf, ha]
      exact List.append_nil _
    · exact (hw _ _).mpr (.inl (hall rest hd))
  · obtain ⟨rfl, haa, -⟩ := (hr _ _ _).mp ha
    obtain ⟨xs, op, vs, rfl, hx, hv⟩ := chain_eq_error hop hr he
    obtain ⟨front, back, rfl, hfound, ⟨b, ws, hb⟩, hall⟩ := hj vs j hv
    refine ⟨flatten a ++ links symbol flatten xs ++ [.symbol (symbol op)] ++ front, back, by simp,
      hfound, ⟨whole a (xs ++ [(op, b)]), ws, ?_⟩, fun rest hd => ?_⟩
    · rw [hf, links_append]
      simp [links, hb]
    · have hread := (hr _ a _).mpr
        ⟨rfl, haa, stop_links flatten hs xs op (front ++ rest)⟩
      have hc := chain_of_operand op hop hr hs hx (hall rest hd) (Nat.le_refl _)
      simp only [List.append_assoc, List.cons_append, List.nil_append]
      exact (hw _ _).mpr (.inr ⟨a, _, hread, hc⟩)

end

theorem term_refuses {factor : Rule Factor} {n : Nat}
    (hf : Reads factor Factor.flatten (fun f => f.nest ≤ n) AfterFactor)
    (hj : Refuses factor Factor.flatten) : Refuses (term factor) Term.flatten := by
  refine series_refuses (fun _ _ => MulOp.ofToken?_eq_some_iff) hf afterFactor_mul hj
    (fun f xs => .mk f (.ofList xs)) (fun _ _ => series_eq_error_iff) fun f xs => ?_
  rw [Term.flatten, flatten_ofList_mul]

theorem expressionOf_refuses {factor : Rule Factor} {n : Nat}
    (hf : Reads factor Factor.flatten (fun f => f.nest ≤ n) AfterFactor)
    (hj : Refuses factor Factor.flatten) : Refuses (expressionOf factor) Expression.flatten := by
  refine series_refuses (fun _ _ => AddOp.ofToken?_eq_some_iff) (term_reads hf) afterTerm_add
    (term_refuses hf hj) (fun t xs => .mk t (.ofList xs)) (fun _ _ => series_eq_error_iff)
    fun t xs => ?_
  rw [Expression.flatten, flatten_ofList_add]

theorem base_of_other {nested : Rule Expression} {ts : List Token}
    (h : ∀ t ∈ ts.head?, t.isNumeric = false ∧ t ≠ .symbol .leftParen) :
    base nested ts = .error ⟨.expectedOperand, ts.head?⟩ := by
  unfold base
  split
  · next n us => cases (h _ rfl).1
  · exact absurd rfl (h _ rfl).2
  · rfl

theorem base_refuses {nested : Rule Expression} {n : Nat}
    (hn : Reads nested Expression.flatten (fun e => e.nest ≤ n) AfterExpression)
    (hj : Refuses nested Expression.flatten) : Refuses (base nested) Base.flatten := by
  intro ts j h
  unfold base at h
  split at h
  · cases h
  · next us =>
    obtain h | ⟨⟨e, mid⟩, he, hk⟩ := bind_eq_error_iff.mp h
    · obtain ⟨front, back, rfl, hfound, ⟨e, vs, he⟩, hall⟩ := hj us j h
      refine ⟨.symbol .leftParen :: front, back, rfl, hfound,
        ⟨.group e, vs ++ [.symbol .rightParen], ?_⟩, fun rest hd => ?_⟩
      · simp [Base.flatten, he]
      · rw [List.cons_append, base, hall rest hd]
        rfl
    · obtain ⟨rfl, hd, ha⟩ := (hn _ _ _).mp he
      dsimp only at hk
      split at hk
      · cases hk
      · next hr =>
        cases hk
        refine ⟨.symbol .leftParen :: e.flatten, mid, rfl, rfl,
          ⟨.group e, [.symbol .rightParen], rfl⟩, fun rest hrest => ?_⟩
        have hh : rest.head? = mid.head? := by
          obtain hh | ⟨l, hl⟩ := hrest
          · exact hh
          · cases hl
        have hread := (hn _ e rest).mpr ⟨rfl, hd, (afterExpression_congr hh).mpr ha⟩
        rw [List.cons_append, base]
        refine bind_eq_error_iff.mpr (.inr ⟨_, hread, ?_⟩)
        dsimp only
        split
        · obtain ⟨vs, rfl⟩ := List.head?_eq_some_iff.mp hh.symm
          exact absurd rfl (hr vs)
        · rfl
  · next hnum hpar =>
    cases h
    refine ⟨[], ts, rfl, rfl, ⟨.literal (.integer 0), _, rfl⟩, fun rest hrest => ?_⟩
    have hh : rest.head? = ts.head? := by
      obtain hh | ⟨l, hl⟩ := hrest
      · exact hh
      · cases hl
    refine base_of_other fun t ht => ?_
    obtain ⟨us, rfl⟩ := List.head?_eq_some_iff.mp (hh.symm.trans ht)
    cases t with
    | number m => exact absurd rfl (hnum m us)
    | symbol x => exact ⟨rfl, fun h => hpar us (by rw [h])⟩

theorem factorOf_refuses {nested : Rule Expression} {exponent : Rule Factor} {n : Nat}
    (hn : Reads nested Expression.flatten (fun e => e.nest ≤ n) AfterExpression)
    (hj : Refuses nested Expression.flatten) (he : Refuses exponent Factor.flatten) :
    Refuses (factorOf nested exponent) Factor.flatten := by
  intro ts j h
  obtain h | ⟨⟨b, mid⟩, hb, hk⟩ := bind_eq_error_iff.mp h
  · obtain ⟨front, back, rfl, hfound, ⟨b, us, hb⟩, hall⟩ := base_refuses hn hj ts j h
    refine ⟨front, back, rfl, hfound, ⟨.base b, us, hb⟩, fun rest hd => ?_⟩
    rw [factorOf, hall rest hd]
    rfl
  · obtain ⟨rfl, hd, -⟩ := (base_reads hn _ _ _).mp hb
    dsimp only at hk
    split at hk
    · next us =>
      obtain h | ⟨p, -, h⟩ := bind_eq_error_iff.mp hk
      · obtain ⟨front, back, rfl, hfound, ⟨e, vs, he⟩, hall⟩ := he us j h
        refine ⟨b.flatten ++ .symbol .power :: front, back, by simp, hfound,
          ⟨.power b e, vs, by simp [Factor.flatten, he]⟩, fun rest hr => ?_⟩
        have hread := (base_reads hn _ b (.symbol .power :: (front ++ rest))).mpr
          ⟨rfl, hd, trivial⟩
        rw [List.append_assoc, List.cons_append, factorOf, hread]
        change (exponent (front ++ rest) >>= _) = _
        rw [hall rest hr]
        rfl
      · cases h
    · cases hk

theorem factor_and_expression_refuse (limit room : Nat) :
    Refuses (factor limit room) Factor.flatten ∧
      Refuses (expression limit room) Expression.flatten := by
  have hf : Nonempty Factor := ⟨.base (.literal (.integer 0))⟩
  have he : Nonempty Expression := ⟨.mk (.mk (.base (.literal (.integer 0))) .nil) .nil⟩
  induction room with
  | zero =>
    obtain ⟨-, hr⟩ := factor_and_expression_read limit 0
    have hx : Refuses (expression limit 0) Expression.flatten := tooDeep_refuses limit _
    exact ⟨factorOf_refuses hr hx (tooDeep_refuses limit _), hx⟩
  | succ room ih =>
    obtain ⟨hj, -⟩ := ih
    obtain ⟨hr, -⟩ := factor_and_expression_read limit room
    obtain ⟨-, hrx⟩ := factor_and_expression_read limit (room + 1)
    have hx := expressionOf_refuses hr hj
    exact ⟨factorOf_refuses hrx hx hj, hx⟩

end Abacus.Parser
