import Abacus.Node
import Abacus.Proofs.Grammar.Cursor
import Abacus.Proofs.Grammar.Lookahead

namespace Abacus

theorem Base.flatten_ne_nil (b : Base) : b.flatten ≠ [] := by
  cases b <;> simp [Base.flatten]

theorem Factor.flatten_ne_nil (f : Factor) : f.flatten ≠ [] := by
  cases f <;> simp [Factor.flatten, Base.flatten_ne_nil]

theorem Term.flatten_ne_nil (t : Term) : t.flatten ≠ [] := by
  cases t
  simp [Term.flatten, Factor.flatten_ne_nil]

theorem Node.flatten_eq_nil_iff {n : Node} :
    n.flatten = [] ↔ n = .termTail .nil ∨ n = .expressionTail .nil := by
  cases n with
  | base b => simp [Node.flatten, Base.flatten_ne_nil]
  | factor f => simp [Node.flatten, Factor.flatten_ne_nil]
  | termTail t => cases t <;> simp [Node.flatten, TermTail.flatten]
  | term t => simp [Node.flatten, Term.flatten_ne_nil]
  | expressionTail t => cases t <;> simp [Node.flatten, ExpressionTail.flatten]
  | expression e =>
    cases e
    simp [Node.flatten, Expression.flatten, Term.flatten_ne_nil]

namespace Parser

open Outcome Procedure

variable {α β ω : Type} {tokens ts us : List Token} {limit pos next : Nat} {depth : Int}

/-- A rule reads the tokens of what it returns, and it returns the same from all tokens that begin
with these and have the same one after them. -/
def Foresees (r : Rule α) (flatten : α → List Token) : Prop :=
  ∀ ts a rest, r ts = .ok (a, rest) → flatten a ++ rest = ts ∧
    ∀ rest', rest'.head? = rest.head? → r (flatten a ++ rest') = .ok (a, rest')

theorem afterFactor_congr (h : ts.head? = us.head?) : AfterFactor ts ↔ AfterFactor us := by
  simp only [AfterFactor, h]

theorem ends_congr {symbol : ω → Symbol} {stop : List Token → Prop}
    (hs : ∀ {ts us : List Token}, ts.head? = us.head? → (stop ts ↔ stop us))
    (h : ts.head? = us.head?) : Ends symbol stop ts ↔ Ends symbol stop us := by
  simp only [Ends, hs h, h]

theorem afterTerm_congr (h : ts.head? = us.head?) : AfterTerm ts ↔ AfterTerm us :=
  ends_congr afterFactor_congr h

theorem Reads.foresees {r : Rule α} {flatten : α → List Token} {allowed : α → Prop}
    {stop : List Token → Prop} (hr : Reads r flatten allowed stop)
    (hs : ∀ {ts us : List Token}, ts.head? = us.head? → (stop ts ↔ stop us)) :
    Foresees r flatten := by
  intro ts a rest h
  obtain ⟨hts, ha, hstop⟩ := (hr ts a rest).mp h
  exact ⟨hts, fun rest' hh => (hr _ a rest').mpr ⟨rfl, ha, (hs hh).mpr hstop⟩⟩

theorem chain_of_other {op? : Token → Option ω} (operand : Rule α)
    (h : ∀ t ∈ ts.head?, op? t = none) (n : Nat) : chain op? operand n ts = .ok ([], ts) := by
  cases n with
  | zero => rfl
  | succ n =>
    cases ts with
    | nil => rfl
    | cons t ts => simp only [chain, h t rfl]

/-- A tail foresees wherever it is read from, also where the operand before it would have gone
on. -/
theorem tail_foresees {op? : Token → Option ω} {symbol : ω → Symbol} {operand : Rule α}
    {flatten : α → List Token} {allowed : α → Prop} {stop : List Token → Prop}
    (hop : ∀ t op, op? t = some op ↔ t = .symbol (symbol op))
    (hr : Reads operand flatten allowed stop) (hs : ∀ op ts, stop (.symbol (symbol op) :: ts))
    (hc : ∀ {ts us : List Token}, ts.head? = us.head? → (stop ts ↔ stop us))
    {ofList : List (ω × α) → β} {flatten' : β → List Token}
    (hl : ∀ xs, flatten' (ofList xs) = links symbol flatten xs) :
    Foresees (fun ts => do let (xs, ts) ← chain op? operand ts.length ts
                           .ok (ofList xs, ts)) flatten' := by
  intro ts b rest h
  obtain ⟨⟨xs, mid⟩, hx, hk⟩ := bind_eq_ok_iff.mp h
  cases hk
  rw [hl]
  by_cases ho : ∃ op, ts.head? = some (.symbol (symbol op))
  · obtain ⟨op, ho⟩ := ho
    obtain ⟨us, rfl⟩ := List.head?_eq_some_iff.mp ho
    obtain ⟨hts, hall, hend⟩ :=
      (chain_eq_ok_iff hop hr hs _ _ (Nat.le_refl _) (hs op us) xs rest).mp hx
    refine ⟨hts, fun rest' hh => ?_⟩
    have hstop : stop (links symbol flatten xs ++ rest') := by
      cases xs with
      | nil => exact (hc hh).mpr hend.1
      | cons p xs => exact hs p.1 _
    have hread := (chain_eq_ok_iff hop hr hs _ _ (Nat.le_refl _) hstop xs rest').mpr
      ⟨rfl, hall, (ends_congr hc hh).mpr hend⟩
    exact bind_eq_ok_iff.mpr ⟨_, hread, rfl⟩
  · have hn : ∀ us : List Token, us.head? = ts.head? → ∀ t ∈ us.head?, op? t = none := by
      intro us hu t ht
      refine Option.eq_none_iff_forall_ne_some.mpr fun op h => ho ⟨op, ?_⟩
      rw [← hu, ht, (hop t op).mp h]
    rw [chain_of_other operand (hn ts rfl)] at hx
    cases hx
    refine ⟨rfl, fun rest' hh => ?_⟩
    exact bind_eq_ok_iff.mpr ⟨_, chain_of_other operand (hn rest' hh) _, rfl⟩

theorem take_drop_eq {tokens' : List Token} {pos' k : Nat}
    (h : ∀ i < k, tokens'[pos' + i]? = tokens[pos + i]?) :
    (tokens'.drop pos').take k = (tokens.drop pos).take k := by
  refine List.ext_getElem? fun i => ?_
  rw [List.getElem?_take, List.getElem?_take, List.getElem?_drop, List.getElem?_drop]
  by_cases hi : i < k
  · rw [if_pos hi, if_pos hi, h i hi]
  · rw [if_neg hi, if_neg hi]

section

variable {r : Rule α} {flatten : α → List Token} {a : α} (hr : Foresees r flatten)
  (forward : pos ≤ next) (inside : next ≤ tokens.length)
  (h : r (tokens.drop pos) = .ok (a, tokens.drop next))

include hr forward inside h

theorem Foresees.length_flatten : (flatten a).length = next - pos := by
  have hl := congrArg List.length (hr _ _ _ h).1
  rw [List.length_append, List.length_drop, List.length_drop] at hl
  omega

theorem Foresees.slice_eq : (tokens.drop pos).take (next - pos) = flatten a := by
  rw [← (hr _ _ _ h).1, ← hr.length_flatten forward inside h, List.take_left]

theorem Foresees.elsewhere {tokens' : List Token} {pos' : Nat}
    (hp : pos' ≤ tokens'.length)
    (hi : ∀ i ≤ next - pos, tokens'[pos' + i]? = tokens[pos + i]?) :
    pos' + (next - pos) ≤ tokens'.length ∧
      r (tokens'.drop pos') = .ok (a, tokens'.drop (pos' + (next - pos))) := by
  have hs : (tokens'.drop pos').take (next - pos) = flatten a :=
    (take_drop_eq fun i h => hi i (Nat.le_of_lt h)).trans (hr.slice_eq forward inside h)
  have hl := congrArg List.length hs
  rw [List.length_take, List.length_drop, hr.length_flatten forward inside h] at hl
  have hhead : (tokens'.drop (pos' + (next - pos))).head? = (tokens.drop next).head? := by
    rw [List.head?_drop, List.head?_drop, hi _ (Nat.le_refl _), Nat.add_sub_cancel' forward]
  have hr' := (hr _ _ _ h).2 _ hhead
  rw [← hs, ← List.drop_drop, List.take_append_drop, List.drop_drop] at hr'
  exact ⟨by omega, hr'⟩

end

def Rule.map (f : α → β) (r : Rule α) : Rule β := fun ts => do
  let (a, ts) ← r ts
  .ok (f a, ts)

theorem Rule.map_eq_ok_iff {f : α → β} {r : Rule α} {b : β} {rest : List Token} :
    Rule.map f r ts = .ok (b, rest) ↔ ∃ a, r ts = .ok (a, rest) ∧ f a = b := by
  rw [Rule.map, bind_eq_ok_iff]
  constructor
  · rintro ⟨⟨a, mid⟩, ha, hk⟩
    cases hk
    exact ⟨a, ha, rfl⟩
  · rintro ⟨a, ha, rfl⟩
    exact ⟨(a, rest), ha, rfl⟩

theorem Foresees.map {r : Rule α} {flatten : α → List Token} (h : Foresees r flatten)
    {f : α → β} {flatten' : β → List Token} (hf : ∀ a, flatten' (f a) = flatten a) :
    Foresees (Rule.map f r) flatten' := by
  intro ts b rest hb
  obtain ⟨a, ha, rfl⟩ := Rule.map_eq_ok_iff.mp hb
  obtain ⟨hts, hall⟩ := h ts a rest ha
  rw [hf]
  exact ⟨hts, fun rest' hh => Rule.map_eq_ok_iff.mpr ⟨a, hall rest' hh, rfl⟩⟩

theorem Computes.map {p : Nat → Procedure α} {r : Rule α} (h : Computes tokens depth p r)
    (f : α → β) : Computes tokens depth (fun n => f <$> p n) (Rule.map f r) := by
  obtain ⟨b, hb⟩ := h
  refine ⟨b, fun n hn pos hpos => ?_⟩
  dsimp only
  rw [map_eq_pure_bind]
  exact Agrees.bind (hb n hn pos hpos) fun a _ _ hnext => agrees_pure (f a) hnext

theorem Procedure.Extends.map {p q : Procedure α} (h : Extends p q) (f : α → β) :
    Extends (f <$> p) (f <$> q) := by
  rw [map_eq_pure_bind, map_eq_pure_bind]
  exact h.bind fun _ => .refl _

def Procedure.read (tokens : List Token) (limit : Nat) (form : Node.Form) (n : Nat) :
    Procedure Node :=
  match form with
  | .base => Node.base <$> Procedure.base tokens limit n
  | .factor => Node.factor <$> Procedure.factor tokens limit n
  | .termTail => Node.termTail <$> Procedure.termTail tokens limit n
  | .term => Node.term <$> Procedure.term tokens limit n
  | .expressionTail => Node.expressionTail <$> Procedure.expressionTail tokens limit n
  | .expression => Node.expression <$> Procedure.expression tokens limit n

def Rule.read (limit room : Nat) : Node.Form → Rule Node
  | .base => .map .base (base (expression limit room))
  | .factor => .map .factor (factor limit room)
  | .termTail => .map .termTail (termTail (factor limit room))
  | .term => .map .term (term (factor limit room))
  | .expressionTail => .map .expressionTail (expressionTail (factor limit room))
  | .expression => .map .expression (expression limit room)

theorem read_extends (form : Node.Form) (n : Nat) :
    Extends (Procedure.read tokens limit form n) (Procedure.read tokens limit form (n + 1)) := by
  cases form with
  | base => exact (base_extends n).map _
  | factor => exact (factor_extends n).map _
  | termTail => exact (termTail_extends n).map _
  | term => exact (term_extends n).map _
  | expressionTail => exact (expressionTail_extends n).map _
  | expression => exact (expression_extends n).map _

theorem read_computes (tokens : List Token) (limit : Nat) (depth : Int) (form : Node.Form) :
    Computes tokens depth (Procedure.read tokens limit form)
      (Rule.read limit (roomAt limit depth) form) := by
  obtain ⟨hf, hx⟩ := factor_and_expression_compute tokens limit depth
  cases form with
  | base => exact (base_computes hx).map _
  | factor => exact hf.map _
  | termTail => exact (termTail_computes hf).map _
  | term => exact (term_computes hf).map _
  | expressionTail => exact (expressionTail_computes hf).map _
  | expression => exact hx.map _

theorem Agrees.exists_eq_some {o : Option (Except Halt (α × Cursor))}
    {x : Except Rejection (α × List Token)} (h : Agrees tokens pos depth o x) :
    ∃ y, o = some y := by
  cases h <;> exact ⟨_, rfl⟩

theorem exists_finishes (limit : Nat) (depth : Int) (form : Node.Form) (h : pos ≤ tokens.length) :
    ∃ o, (∀ o', Finishes (Procedure.read tokens limit form) ⟨pos, depth⟩ o' ↔ o' = o) ∧
      Agrees tokens pos depth (some o)
        (Rule.read limit (roomAt limit depth) form (tokens.drop pos)) := by
  obtain ⟨b, hb⟩ := read_computes tokens limit depth form
  have ha := hb b (Nat.le_refl b) pos h
  generalize hp : Procedure.read tokens limit form b ⟨pos, depth⟩ = x at ha
  obtain ⟨o, rfl⟩ := ha.exists_eq_some
  refine ⟨o, fun o' => ⟨fun ho => ho.unique (read_extends form) ⟨b, hp⟩, ?_⟩, ha⟩
  rintro rfl
  exact ⟨b, hp⟩

theorem read_foresees (limit room : Nat) (form : Node.Form) :
    Foresees (Rule.read limit room form) Node.flatten := by
  obtain ⟨hf, hx⟩ := factor_and_expression_read limit room
  cases form with
  | base => exact ((base_reads hx).foresees fun _ => Iff.rfl).map fun _ => rfl
  | factor => exact (hf.foresees afterFactor_congr).map fun _ => rfl
  | termTail =>
    have ht := tail_foresees (fun _ _ => MulOp.ofToken?_eq_some_iff) hf afterFactor_mul
      afterFactor_congr flatten_ofList_mul
    exact Foresees.map ht fun _ => rfl
  | term => exact ((term_reads hf).foresees afterTerm_congr).map fun _ => rfl
  | expressionTail =>
    have ht := tail_foresees (fun _ _ => AddOp.ofToken?_eq_some_iff) (term_reads hf) afterTerm_add
      afterTerm_congr flatten_ofList_add
    exact Foresees.map ht fun _ => rfl
  | expression => exact (hx.foresees afterExpression_congr).map fun _ => rfl

theorem form_of_read {room : Nat} {form : Node.Form} {n : Node} {rest : List Token}
    (h : Rule.read limit room form ts = .ok (n, rest)) : n.form = form := by
  cases form <;> obtain ⟨a, -, rfl⟩ := Rule.map_eq_ok_iff.mp h <;> rfl

theorem Agrees.eq_of_ok {o : Except Halt (α × Cursor)} {a : α}
    (h : Agrees tokens pos depth (some o) (.ok (a, tokens.drop next))) (hn : next ≤ tokens.length) :
    o = .ok (a, ⟨next, depth⟩) := by
  generalize hd : tokens.drop next = rest at h
  cases h with
  | @read a last _ inside =>
    have hl := congrArg List.length hd
    rw [List.length_drop, List.length_drop] at hl
    obtain rfl : next = last := by omega
    rfl

/-- What a procedure has done that returns `n` and leaves the cursor at `next`. -/
structure Framed (tokens : List Token) (limit : Nat) (form : Node.Form) (c : Cursor) (n : Node)
    (next : Nat) : Prop where
  form_eq : n.form = form
  rule_eq : Rule.read limit (roomAt limit c.depth) form (tokens.drop c.pos) =
    .ok (n, tokens.drop next)
  forward : c.pos ≤ next
  inside : next ≤ tokens.length
  /-- Only an empty tail leaves the cursor where it is. -/
  stays_iff : next = c.pos ↔ n = .termTail .nil ∨ n = .expressionTail .nil
  slice_eq : (tokens.drop c.pos).take (next - c.pos) = n.flatten
  /-- The slice and the token after it determine the node, wherever they stand. -/
  determined : ∀ (tokens' : List Token) (pos' : Nat), pos' ≤ tokens'.length →
    (∀ i ≤ next - c.pos, tokens'[pos' + i]? = tokens[c.pos + i]?) →
    ∀ o, Finishes (Procedure.read tokens' limit form) ⟨pos', c.depth⟩ o ↔
      o = .ok (n, ⟨pos' + (next - c.pos), c.depth⟩)

theorem framed_of_rule {form : Node.Form} {c : Cursor} {n : Node} (forward : c.pos ≤ next)
    (inside : next ≤ tokens.length)
    (hr : Rule.read limit (roomAt limit c.depth) form (tokens.drop c.pos) =
      .ok (n, tokens.drop next)) : Framed tokens limit form c n next := by
  have hf := read_foresees limit (roomAt limit c.depth) form
  refine ⟨form_of_read hr, hr, forward, inside, ?_, hf.slice_eq forward inside hr,
    fun tokens' pos' hp hi => ?_⟩
  · have hlen := hf.length_flatten forward inside hr
    rw [← Node.flatten_eq_nil_iff, ← List.length_eq_zero_iff, hlen]
    omega
  · obtain ⟨hinside, hr'⟩ := hf.elsewhere forward inside hr hp hi
    obtain ⟨o, ho, ha⟩ := exists_finishes limit c.depth form hp
    rw [hr'] at ha
    rw [← ha.eq_of_ok hinside]
    exact ho

/-- Every procedure finishes from every cursor within the tokens, without taking a token where there
is none. It rejects as its rule does, or it returns the node that its rule returns, with the cursor
moved over the tokens of that node and no deeper than before. -/
theorem read_rejected_or_framed (tokens : List Token) (limit : Nat) (form : Node.Form)
    (c : Cursor) (hc : c.pos ≤ tokens.length) :
    (∃ o, Finishes (Procedure.read tokens limit form) c o) ∧
      ∀ o, Finishes (Procedure.read tokens limit form) c o →
        (∃ j, o = .error (.rejected j) ∧
          Rule.read limit (roomAt limit c.depth) form (tokens.drop c.pos) = .error j) ∨
        ∃ n next, o = .ok (n, ⟨next, c.depth⟩) ∧ Framed tokens limit form c n next := by
  obtain ⟨o, ho, ha⟩ := exists_finishes limit c.depth form hc
  refine ⟨⟨o, (ho o).mpr rfl⟩, fun o' ho' => ?_⟩
  obtain rfl := (ho o').mp ho'
  generalize hr : Rule.read limit (roomAt limit c.depth) form (tokens.drop c.pos) = x at ha
  cases ha with
  | rejected j => exact .inl ⟨j, rfl, rfl⟩
  | @read n next forward inside =>
    exact .inr ⟨n, next, rfl, framed_of_rule forward inside hr⟩

theorem read_framed_of_product :
    let ts : List Token := [.number (.integer 9), .symbol .multiply, .symbol .leftParen,
      .number (.integer 1), .symbol .rightParen, .symbol .rightParen]
    let e : Expression := .mk (.mk (.base (.literal (.integer 1))) .nil) .nil
    let n : Node := .termTail (.cons .multiply (.base (.group e)) .nil)
    1 ≤ ts.length ∧ Finishes (Procedure.read ts 0 .termTail) ⟨1, -2⟩ (.ok (n, ⟨5, -2⟩)) ∧
      Framed ts 0 .termTail ⟨1, -2⟩ n 5 := by
  intro ts e n
  have hc : 1 ≤ ts.length := by decide
  have hr : Rule.read 0 (roomAt 0 (-2)) .termTail (ts.drop 1) = .ok (n, ts.drop 5) := rfl
  obtain ⟨⟨o, ho⟩, hall⟩ := read_rejected_or_framed ts 0 .termTail ⟨1, -2⟩ hc
  obtain ⟨j, -, hj⟩ | ⟨n', next, rfl, h⟩ := hall o ho
  · rw [hr] at hj
    cases hj
  · obtain ⟨rfl, hd⟩ := Prod.mk.inj (Except.ok.inj (h.rule_eq.symm.trans hr))
    have hl := congrArg List.length hd
    have hi : next ≤ 6 := h.inside
    rw [List.length_drop, List.length_drop] at hl
    obtain rfl : next = 5 := by
      change 6 - next = 6 - 5 at hl
      omega
    exact ⟨hc, ho, h⟩

end Parser

end Abacus
