import Abacus.Proofs.Outcome
import Abacus.Tree.Parser

namespace Abacus.Parser

open Outcome

variable {α β γ ω : Type}

/-- A rule reads `a` off the front of the tokens just when they begin with the tokens of `a`, `a` is
allowed, and what follows cannot go on with it. -/
def Reads (r : Rule α) (flatten : α → List Token) (allowed : α → Prop)
    (stop : List Token → Prop) : Prop :=
  ∀ ts a rest, r ts = .ok (a, rest) ↔ flatten a ++ rest = ts ∧ allowed a ∧ stop rest

def AfterFactor (ts : List Token) : Prop := ts.head? ≠ some (.symbol .power)

/-- The tokens go on neither with the last operand of a chain nor with another operator of it. -/
def Ends (symbol : ω → Symbol) (stop : List Token → Prop) (ts : List Token) : Prop :=
  stop ts ∧ ∀ op, ts.head? ≠ some (.symbol (symbol op))

def AfterTerm : List Token → Prop := Ends MulOp.symbol AfterFactor

def AfterExpression : List Token → Prop := Ends AddOp.symbol AfterTerm

theorem afterFactor_mul (op : MulOp) (ts : List Token) :
    AfterFactor (.symbol op.symbol :: ts) := by
  cases op <;> simp [AfterFactor, MulOp.symbol]

theorem afterTerm_add (op : AddOp) (ts : List Token) : AfterTerm (.symbol op.symbol :: ts) := by
  refine ⟨?_, fun op' => ?_⟩
  · cases op <;> simp [AfterFactor, AddOp.symbol]
  · cases op <;> cases op' <;> simp [AddOp.symbol, MulOp.symbol]

theorem afterExpression_rightParen (ts : List Token) :
    AfterExpression (.symbol .rightParen :: ts) := by
  refine ⟨⟨by simp [AfterFactor], fun op => ?_⟩, fun op => ?_⟩
  · cases op <;> simp [MulOp.symbol]
  · cases op <;> simp [AddOp.symbol]

theorem afterExpression_nil : AfterExpression [] :=
  ⟨⟨by simp [AfterFactor], by simp⟩, by simp⟩

theorem tooDeep_reads (limit : Nat) (flatten : α → List Token) {allowed : α → Prop}
    (stop : List Token → Prop) (ha : ∀ a, ¬ allowed a) :
    Reads (tooDeep limit) flatten allowed stop := by
  intro ts a rest
  constructor
  · intro h
    cases h
  · rintro ⟨-, h, -⟩
    exact absurd h (ha a)

def links (symbol : ω → Symbol) (flatten : α → List Token) (xs : List (ω × α)) : List Token :=
  xs.flatMap fun p => .symbol (symbol p.1) :: flatten p.2

theorem links_cons (symbol : ω → Symbol) (flatten : α → List Token) (op : ω) (a : α)
    (xs : List (ω × α)) :
    links symbol flatten ((op, a) :: xs) =
      .symbol (symbol op) :: flatten a ++ links symbol flatten xs := rfl

theorem links_append_eq_nil {symbol : ω → Symbol} {flatten : α → List Token} {xs : List (ω × α)}
    {rest : List Token} (h : links symbol flatten xs ++ rest = []) : xs = [] ∧ rest = [] := by
  cases xs with
  | nil => exact ⟨rfl, h⟩
  | cons p xs => cases h

section

variable {op? : Token → Option ω} {symbol : ω → Symbol} {operand : Rule α}
  {flatten : α → List Token} {allowed : α → Prop} {stop : List Token → Prop}

theorem chain_nil_eq_ok_iff (hs : stop []) (n : Nat) (xs : List (ω × α)) (rest : List Token) :
    chain op? operand n [] = .ok (xs, rest) ↔
      links symbol flatten xs ++ rest = [] ∧ (∀ p ∈ xs, allowed p.2) ∧ Ends symbol stop rest := by
  have hc : chain op? operand n [] = .ok ([], []) := by cases n <;> rfl
  rw [hc]
  constructor
  · intro h
    cases h
    exact ⟨rfl, by simp, hs, by simp⟩
  · rintro ⟨h, -⟩
    obtain ⟨rfl, rfl⟩ := links_append_eq_nil h
    rfl

theorem chain_other_eq_ok_iff (hop : ∀ t op, op? t = some op ↔ t = .symbol (symbol op)) {t : Token}
    (ht : op? t = none) {ts : List Token} (hs : stop (t :: ts)) (n : Nat) (xs : List (ω × α))
    (rest : List Token) :
    chain op? operand (n + 1) (t :: ts) = .ok (xs, rest) ↔
      links symbol flatten xs ++ rest = t :: ts ∧ (∀ p ∈ xs, allowed p.2) ∧
        Ends symbol stop rest := by
  have hne : ∀ op, t ≠ .symbol (symbol op) := by
    intro op h
    rw [(hop t op).mpr h] at ht
    cases ht
  simp only [chain, ht, Except.ok.injEq, Prod.mk.injEq]
  constructor
  · rintro ⟨rfl, rfl⟩
    exact ⟨rfl, by simp, hs, fun op h => hne op (Option.some.inj h)⟩
  · rintro ⟨h, -⟩
    cases xs with
    | nil => exact ⟨rfl, h.symm⟩
    | cons p xs => exact absurd (List.cons.inj h).1.symm (hne p.1)

theorem links_append_eq_cons_iff {op : ω} (hsym : Function.Injective symbol) {xs : List (ω × α)}
    {rest ts : List Token} (hr : ∀ op, rest.head? ≠ some (.symbol (symbol op))) :
    links symbol flatten xs ++ rest = .symbol (symbol op) :: ts ↔
      ∃ a ys, xs = (op, a) :: ys ∧ flatten a ++ (links symbol flatten ys ++ rest) = ts := by
  constructor
  · intro h
    cases xs with
    | nil =>
      subst h
      exact absurd rfl (hr op)
    | cons p ys =>
      obtain ⟨op', a⟩ := p
      rw [links_cons, List.append_assoc, List.cons_append] at h
      obtain ⟨hh, ht⟩ := List.cons.inj h
      obtain rfl := hsym (Token.symbol.inj hh)
      exact ⟨a, ys, rfl, ht⟩
  · rintro ⟨a, ys, rfl, rfl⟩
    rw [links_cons, List.append_assoc, List.cons_append]

/-- A chain goes on as long as an operator stands in front, so it ends before a token that is
none. -/
theorem chain_eq_ok_iff (hop : ∀ t op, op? t = some op ↔ t = .symbol (symbol op))
    (hr : Reads operand flatten allowed stop) (hs : ∀ op ts, stop (.symbol (symbol op) :: ts))
    (n : Nat) (ts : List Token) (hn : ts.length ≤ n) (ht : stop ts) (xs : List (ω × α))
    (rest : List Token) :
    chain op? operand n ts = .ok (xs, rest) ↔
      links symbol flatten xs ++ rest = ts ∧ (∀ p ∈ xs, allowed p.2) ∧
        Ends symbol stop rest := by
  -- The count is only an upper bound, so the induction is on it and not on the tokens.
  induction n generalizing ts xs with
  | zero =>
    obtain rfl := List.length_eq_zero_iff.mp (Nat.le_zero.mp hn)
    exact chain_nil_eq_ok_iff ht 0 xs rest
  | succ n ih =>
    cases ts with
    | nil => exact chain_nil_eq_ok_iff ht (n + 1) xs rest
    | cons t ts =>
      cases ho : op? t with
      | none => exact chain_other_eq_ok_iff hop ho ht n xs rest
      | some op =>
        obtain rfl := (hop t op).mp ho
        have hlen : ts.length ≤ n := Nat.le_of_succ_le_succ hn
        have hsym : Function.Injective symbol := by
          intro x y h
          have hx := (hop _ x).mpr (congrArg Token.symbol h.symm)
          have hy := (hop _ y).mpr rfl
          exact Option.some.inj (hx.symm.trans hy)
        simp only [chain, ho, bind_eq_ok_iff]
        constructor
        · rintro ⟨⟨a, mid⟩, ha, ⟨ys, last⟩, hy, h⟩
          cases h
          obtain ⟨rfl, haa, hm⟩ := (hr _ _ _).mp ha
          rw [List.length_append] at hlen
          obtain ⟨rfl, hall, hend⟩ := (ih mid (by omega) hm ys).mp hy
          exact ⟨(links_append_eq_cons_iff hsym hend.2).mpr ⟨a, ys, rfl, rfl⟩,
            List.forall_mem_cons.mpr ⟨haa, hall⟩, hend⟩
        · rintro ⟨h, hall, hend⟩
          obtain ⟨a, ys, rfl, rfl⟩ := (links_append_eq_cons_iff hsym hend.2).mp h
          obtain ⟨haa, hall⟩ := List.forall_mem_cons.mp hall
          have hm : stop (links symbol flatten ys ++ rest) := by
            cases ys with
            | nil => exact hend.1
            | cons q ys => exact hs q.1 _
          rw [List.length_append] at hlen
          have hys := (ih _ (by omega) hm ys).mpr ⟨rfl, hall, hend⟩
          exact ⟨_, (hr _ a _).mpr ⟨rfl, haa, hm⟩, _, hys, rfl⟩

theorem tail_eq_ok_iff (hop : ∀ t op, op? t = some op ↔ t = .symbol (symbol op))
    (hr : Reads operand flatten allowed stop) (hs : ∀ op ts, stop (.symbol (symbol op) :: ts))
    {ofList : List (ω × α) → β} {tokens : β → List Token} (fits : β → Prop)
    (ho : Function.Surjective ofList) (hl : ∀ xs, tokens (ofList xs) = links symbol flatten xs)
    (hf : ∀ xs, fits (ofList xs) ↔ ∀ p ∈ xs, allowed p.2) {ts : List Token} (ht : stop ts)
    (tail : β) (rest : List Token) :
    (do let (xs, ts) ← chain op? operand ts.length ts
        .ok (ofList xs, ts)) = Except.ok (tail, rest) ↔
      tokens tail ++ rest = ts ∧ fits tail ∧ Ends symbol stop rest := by
  have hc := chain_eq_ok_iff hop hr hs ts.length ts (Nat.le_refl _) ht
  rw [bind_eq_ok_iff]
  constructor
  · rintro ⟨⟨xs, mid⟩, hx, hk⟩
    cases hk
    rw [hl, hf]
    exact (hc xs rest).mp hx
  · intro h
    obtain ⟨xs, rfl⟩ := ho tail
    rw [hl, hf] at h
    exact ⟨_, (hc xs rest).mpr h, rfl⟩

end

theorem join_eq_ok_iff {first : Rule α} {flatten : α → List Token} {allowed : α → Prop}
    {stop : List Token → Prop} (hr : Reads first flatten allowed stop) {tail : Rule β}
    {tokens : β → List Token} {fits : β → Prop} {halt : List Token → Prop}
    (ht : ∀ ts, stop ts → ∀ b rest,
      tail ts = .ok (b, rest) ↔ tokens b ++ rest = ts ∧ fits b ∧ halt rest)
    (hs : ∀ b rest, halt rest → stop (tokens b ++ rest)) {mk : α → β → γ}
    (hm : ∀ a b a' b', mk a b = mk a' b' → a = a' ∧ b = b') (ts : List Token) (a : α) (b : β)
    (rest : List Token) :
    (do let (a, ts) ← first ts
        let (b, ts) ← tail ts
        .ok (mk a b, ts)) = Except.ok (mk a b, rest) ↔
      flatten a ++ tokens b ++ rest = ts ∧ (allowed a ∧ fits b) ∧ halt rest := by
  rw [bind_eq_ok_iff, List.append_assoc]
  constructor
  · rintro ⟨⟨a', mid⟩, h₁, hk⟩
    obtain ⟨⟨b', last⟩, h₂, hk⟩ := bind_eq_ok_iff.mp hk
    obtain ⟨hab, rfl⟩ := Prod.mk.inj (Except.ok.inj hk)
    obtain ⟨rfl, rfl⟩ := hm _ _ _ _ hab
    obtain ⟨rfl, ha, hstop⟩ := (hr _ _ _).mp h₁
    obtain ⟨rfl, hb, hh⟩ := (ht _ hstop _ _).mp h₂
    exact ⟨rfl, ⟨ha, hb⟩, hh⟩
  · rintro ⟨rfl, ⟨ha, hb⟩, hh⟩
    have hstop := hs b rest hh
    refine ⟨_, (hr _ _ _).mpr ⟨rfl, ha, hstop⟩, ?_⟩
    exact bind_eq_ok_iff.mpr ⟨_, (ht _ hstop _ _).mpr ⟨rfl, hb, hh⟩, rfl⟩

theorem flatten_ofList_mul (xs : List (MulOp × Factor)) :
    (TermTail.ofList xs).flatten = links MulOp.symbol Factor.flatten xs := by
  induction xs with
  | nil => rfl
  | cons p xs ih => rw [TermTail.ofList, TermTail.flatten, ih, links_cons]

theorem flatten_ofList_add (xs : List (AddOp × Term)) :
    (ExpressionTail.ofList xs).flatten = links AddOp.symbol Term.flatten xs := by
  induction xs with
  | nil => rfl
  | cons p xs ih => rw [ExpressionTail.ofList, ExpressionTail.flatten, ih, links_cons]

theorem nest_ofList_mul_le_iff (n : Nat) (xs : List (MulOp × Factor)) :
    (TermTail.ofList xs).nest ≤ n ↔ ∀ p ∈ xs, p.2.nest ≤ n := by
  induction xs with
  | nil => simp [TermTail.ofList, TermTail.nest]
  | cons p xs ih => rw [TermTail.ofList, TermTail.nest, Nat.max_le, ih, List.forall_mem_cons]

theorem nest_ofList_add_le_iff (n : Nat) (xs : List (AddOp × Term)) :
    (ExpressionTail.ofList xs).nest ≤ n ↔ ∀ p ∈ xs, p.2.nest ≤ n := by
  induction xs with
  | nil => simp [ExpressionTail.ofList, ExpressionTail.nest]
  | cons p xs ih =>
    rw [ExpressionTail.ofList, ExpressionTail.nest, Nat.max_le, ih, List.forall_mem_cons]

theorem term_reads {factor : Rule Factor} {n : Nat}
    (hf : Reads factor Factor.flatten (fun f => f.nest ≤ n) AfterFactor) :
    Reads (term factor) Term.flatten (fun t => t.nest ≤ n) AfterTerm := by
  have ht : ∀ ts, AfterFactor ts → ∀ (tail : TermTail) rest, termTail factor ts = .ok (tail, rest) ↔
      tail.flatten ++ rest = ts ∧ tail.nest ≤ n ∧ AfterTerm rest := fun ts hts =>
    tail_eq_ok_iff (fun _ _ => MulOp.ofToken?_eq_some_iff) hf afterFactor_mul
      (fun t : TermTail => t.nest ≤ n) (fun t => ⟨t.toList, t.ofList_toList⟩) flatten_ofList_mul
      (nest_ofList_mul_le_iff n) hts
  have hs : ∀ (tail : TermTail) rest, AfterTerm rest → AfterFactor (tail.flatten ++ rest) := by
    intro tail rest h
    cases tail with
    | nil => exact h.1
    | cons op f tail => exact afterFactor_mul op _
  rintro ts ⟨f, tail⟩ rest
  simp only [Term.flatten, Term.nest, Nat.max_le]
  exact join_eq_ok_iff hf ht hs (fun _ _ _ _ h => Term.mk.inj h) ts f tail rest

theorem expressionOf_reads {factor : Rule Factor} {n : Nat}
    (hf : Reads factor Factor.flatten (fun f => f.nest ≤ n) AfterFactor) :
    Reads (expressionOf factor) Expression.flatten (fun e => e.nest ≤ n + 1) AfterExpression := by
  have ht : ∀ ts, AfterTerm ts → ∀ (tail : ExpressionTail) rest,
      expressionTail factor ts = .ok (tail, rest) ↔
        tail.flatten ++ rest = ts ∧ tail.nest ≤ n ∧ AfterExpression rest := fun ts hts =>
    tail_eq_ok_iff (fun _ _ => AddOp.ofToken?_eq_some_iff) (term_reads hf) afterTerm_add
      (fun t : ExpressionTail => t.nest ≤ n) (fun t => ⟨t.toList, t.ofList_toList⟩)
      flatten_ofList_add (nest_ofList_add_le_iff n) hts
  have hs : ∀ (tail : ExpressionTail) rest,
      AfterExpression rest → AfterTerm (tail.flatten ++ rest) := by
    intro tail rest h
    cases tail with
    | nil => exact h.1
    | cons op t tail => exact afterTerm_add op _
  rintro ts ⟨t, tail⟩ rest
  simp only [Expression.flatten, Expression.nest, Nat.add_le_add_iff_right, Nat.max_le]
  exact join_eq_ok_iff (term_reads hf) ht hs (fun _ _ _ _ h => Expression.mk.inj h) ts t tail rest

theorem base_reads {nested : Rule Expression} {n : Nat}
    (hn : Reads nested Expression.flatten (fun e => e.nest ≤ n) AfterExpression) :
    Reads (base nested) Base.flatten (fun b => b.nest ≤ n) (fun _ => True) := by
  intro ts b rest
  constructor
  · intro h
    unfold base at h
    split at h
    · cases h
      exact ⟨rfl, Nat.zero_le n, trivial⟩
    · obtain ⟨⟨e, mid⟩, he, hk⟩ := bind_eq_ok_iff.mp h
      obtain ⟨rfl, hd, -⟩ := (hn _ _ _).mp he
      dsimp only at hk
      split at hk
      · cases hk
        exact ⟨by simp [Base.flatten], hd, trivial⟩
      · cases hk
    · cases h
  · rintro ⟨rfl, hd, -⟩
    cases b with
    | literal m => rfl
    | group e =>
      have he := (hn (e.flatten ++ .symbol .rightParen :: rest) e _).mpr
        ⟨rfl, hd, afterExpression_rightParen rest⟩
      simp only [Base.flatten, List.cons_append, List.append_assoc, List.nil_append, base]
      exact bind_eq_ok_iff.mpr ⟨_, he, rfl⟩

theorem factorOf_reads {nested : Rule Expression} {exponent : Rule Factor} {n : Nat}
    (hn : Reads nested Expression.flatten (fun e => e.nest ≤ n) AfterExpression)
    (he : Reads exponent Factor.flatten (fun f => f.nest < n) AfterFactor) :
    Reads (factorOf nested exponent) Factor.flatten (fun f => f.nest ≤ n) AfterFactor := by
  intro ts f rest
  unfold factorOf
  rw [bind_eq_ok_iff]
  constructor
  · rintro ⟨⟨b, mid⟩, hb, hk⟩
    obtain ⟨rfl, hd, -⟩ := (base_reads hn _ _ _).mp hb
    dsimp only at hk
    split at hk
    · obtain ⟨⟨e, last⟩, hx, hk⟩ := bind_eq_ok_iff.mp hk
      cases hk
      obtain ⟨rfl, hf, hs⟩ := (he _ _ _).mp hx
      exact ⟨by simp [Factor.flatten], Nat.max_le.mpr ⟨hd, hf⟩, hs⟩
    · next hp =>
      cases hk
      refine ⟨rfl, hd, fun h => ?_⟩
      obtain ⟨ts, rfl⟩ := List.head?_eq_some_iff.mp h
      exact hp ts rfl
  · rintro ⟨rfl, hd, hs⟩
    cases f with
    | base b =>
      refine ⟨_, (base_reads hn _ b rest).mpr ⟨rfl, hd, trivial⟩, ?_⟩
      dsimp only
      split
      · exact absurd rfl hs
      · rfl
    | power b e =>
      obtain ⟨hb, hx⟩ := Nat.max_le.mp hd
      have hr := (base_reads hn _ b (.symbol .power :: e.flatten ++ rest)).mpr ⟨rfl, hb, trivial⟩
      rw [Factor.flatten, List.append_assoc]
      exact ⟨_, hr, bind_eq_ok_iff.mpr ⟨_, (he _ e rest).mpr ⟨rfl, hx, hs⟩, rfl⟩⟩

theorem factor_and_expression_read (limit room : Nat) :
    Reads (factor limit room) Factor.flatten (fun f => f.nest ≤ room) AfterFactor ∧
      Reads (expression limit room) Expression.flatten (fun e => e.nest ≤ room)
        AfterExpression := by
  induction room with
  | zero =>
    have hx : Reads (expression limit 0) Expression.flatten (fun e => e.nest ≤ 0) AfterExpression :=
      tooDeep_reads _ _ _ fun e => by cases e; simp [Expression.nest]
    exact ⟨factorOf_reads hx (tooDeep_reads _ _ _ fun f => Nat.not_lt_zero _), hx⟩
  | succ room ih =>
    obtain ⟨hf, -⟩ := ih
    have hx := expressionOf_reads hf
    have he : Reads (factor limit room) Factor.flatten (fun f => f.nest < room + 1) AfterFactor :=
      fun ts f rest => by simpa only [Nat.lt_succ_iff] using hf ts f rest
    exact ⟨factorOf_reads hx he, hx⟩

theorem document_eq_ok_iff {limit : Nat} {ts : List Token} {e : Expression} :
    document limit ts = .ok e ↔ e.flatten = ts ∧ e.nest ≤ limit := by
  have hx := (factor_and_expression_read limit limit).2 ts
  unfold document
  rw [bind_eq_ok_iff]
  constructor
  · rintro ⟨⟨e', rest⟩, he, hk⟩
    obtain ⟨hts, hn, -⟩ := (hx _ _).mp he
    cases rest with
    | nil =>
      cases hk
      exact ⟨by rw [← hts, List.append_nil], hn⟩
    | cons t rest => cases hk
  · rintro ⟨hts, hn⟩
    exact ⟨_, (hx e []).mpr ⟨by rw [hts, List.append_nil], hn, afterExpression_nil⟩, rfl⟩

theorem parse_eq_ok_iff {limit : Nat} {ts : List Token} {e : Expression} :
    parse limit ts = .ok e ↔ e.flatten = ts ∧ e.nest ≤ limit :=
  mapError_eq_ok_iff.trans document_eq_ok_iff

theorem flatten_injective : Function.Injective Expression.flatten := by
  intro a b h
  have ha : document (max a.nest b.nest) a.flatten = .ok a :=
    document_eq_ok_iff.mpr ⟨rfl, Nat.le_max_left _ _⟩
  have hb : document (max a.nest b.nest) a.flatten = .ok b :=
    document_eq_ok_iff.mpr ⟨h.symm, Nat.le_max_right _ _⟩
  exact Except.ok.inj (ha.symm.trans hb)

/-- The tokens that are accepted are those of a tree which is not nested too deep. They are accepted
as that tree, and no other tree is written with them. -/
theorem parse_accepts_exactly (limit : Nat) (ts : List Token) (e : Expression) :
    (parse limit ts = .ok e ↔ e.flatten = ts ∧ e.nest ≤ limit) ∧
      ∀ e' : Expression, e'.flatten = e.flatten → e' = e :=
  ⟨parse_eq_ok_iff, fun _ h => flatten_injective h⟩

end Abacus.Parser
