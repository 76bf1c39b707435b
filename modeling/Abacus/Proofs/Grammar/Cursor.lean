import Abacus.Tree.Cursor

namespace Abacus.Parser

variable {α β ω : Type} {tokens : List Token} {limit pos : Nat} {depth : Int} {c c' : Cursor}

namespace Procedure

theorem bind_of_none {p : Procedure α} (k : α → Procedure β) (h : p c = none) :
    (p >>= k) c = none := by
  change Option.bind (p c) _ = _
  rw [h]
  rfl

theorem bind_of_ok {p : Procedure α} {a : α} (k : α → Procedure β)
    (h : p c = some (.ok (a, c'))) : (p >>= k) c = k a c' := by
  change Option.bind (p c) _ = _
  rw [h]
  rfl

theorem bind_of_error {p : Procedure α} {e : Halt} (k : α → Procedure β)
    (h : p c = some (.error e)) : (p >>= k) c = some (.error e) := by
  change Option.bind (p c) _ = _
  rw [h]
  rfl

theorem current_run : current tokens c = some (.ok (tokens[c.pos]?, c)) := rfl

theorem advance_run {t : Token} (h : tokens[c.pos]? = some t) :
    advance tokens c = some (.ok (t, { c with pos := c.pos + 1 })) := by
  rw [advance, bind_of_ok _ current_run, h]
  rfl

theorem enter_run_of_lt (h : c.depth < limit) :
    enter tokens limit c = some (.ok ((), { c with depth := c.depth + 1 })) := by
  have hn : ¬ (limit : Int) < c.depth + 1 := by omega
  change (ite ((limit : Int) < c.depth + 1) _ _ : Procedure Unit) _ = _
  rw [if_neg hn]
  rfl

theorem enter_run_of_le (h : limit ≤ c.depth) :
    enter tokens limit c = some (.error (.rejected ⟨.tooDeep limit, tokens[c.pos]?⟩)) := by
  have hl : (limit : Int) < c.depth + 1 := by omega
  change (ite ((limit : Int) < c.depth + 1) _ _ : Procedure Unit) _ = _
  rw [if_pos hl]
  rfl

def Extends (p q : Procedure α) : Prop := ∀ c o, p c = some o → q c = some o

theorem Extends.refl (p : Procedure α) : Extends p p := fun _ _ h => h

theorem exhausted_extends (p : Procedure α) : Extends exhausted p := nofun

theorem Extends.bind {p q : Procedure α} {k l : α → Procedure β} (h : Extends p q)
    (hk : ∀ a, Extends (k a) (l a)) : Extends (p >>= k) (q >>= l) := by
  intro c o ho
  cases hp : p c with
  | none =>
    rw [bind_of_none _ hp] at ho
    cases ho
  | some x =>
    cases x with
    | error e =>
      rw [bind_of_error _ hp] at ho
      rw [bind_of_error _ (h _ _ hp)]
      exact ho
    | ok r =>
      obtain ⟨a, c'⟩ := r
      rw [bind_of_ok _ hp] at ho
      rw [bind_of_ok _ (h _ _ hp)]
      exact hk a c' o ho

theorem nested_extends {p q : Procedure α} (h : Extends p q) :
    Extends (nested tokens limit p) (nested tokens limit q) :=
  (Extends.refl _).bind fun _ => h.bind fun _ => .refl _

theorem turn_extends (op? : Token → Option ω) {p q : Procedure α}
    {loop loop' : Procedure (List (ω × α))} (h : Extends p q) (hl : Extends loop loop') :
    Extends (turn tokens op? p loop) (turn tokens op? q loop') := by
  refine (Extends.refl _).bind fun t => ?_
  cases t.bind op? with
  | none => exact .refl _
  | some op => exact (Extends.refl _).bind fun _ => h.bind fun a => hl.bind fun xs => .refl _

mutual

theorem expression_extends : ∀ n,
    Extends (Procedure.expression tokens limit n) (Procedure.expression tokens limit (n + 1))
  | 0 => exhausted_extends _
  | n + 1 => nested_extends
    ((term_extends n).bind fun _ => (expressionTail_extends n).bind fun _ => .refl _)

theorem expressionTail_extends : ∀ n, Extends (Procedure.expressionTail tokens limit n)
    (Procedure.expressionTail tokens limit (n + 1))
  | 0 => exhausted_extends _
  | n + 1 => (addends_extends n).bind fun _ => .refl _

theorem addends_extends : ∀ n,
    Extends (addends tokens limit n) (addends tokens limit (n + 1))
  | 0 => exhausted_extends _
  | n + 1 => turn_extends _ (term_extends n) (addends_extends n)

theorem term_extends : ∀ n,
    Extends (Procedure.term tokens limit n) (Procedure.term tokens limit (n + 1))
  | 0 => exhausted_extends _
  | n + 1 => (factor_extends n).bind fun _ => (termTail_extends n).bind fun _ => .refl _

theorem termTail_extends : ∀ n,
    Extends (Procedure.termTail tokens limit n) (Procedure.termTail tokens limit (n + 1))
  | 0 => exhausted_extends _
  | n + 1 => (multipliers_extends n).bind fun _ => .refl _

theorem multipliers_extends : ∀ n,
    Extends (multipliers tokens limit n) (multipliers tokens limit (n + 1))
  | 0 => exhausted_extends _
  | n + 1 => turn_extends _ (factor_extends n) (multipliers_extends n)

theorem factor_extends : ∀ n,
    Extends (Procedure.factor tokens limit n) (Procedure.factor tokens limit (n + 1))
  | 0 => exhausted_extends _
  | n + 1 => (base_extends n).bind fun b => (Extends.refl _).bind fun t => by
    by_cases ht : t = some (.symbol .power)
    · rw [if_pos ht, if_pos ht]
      exact (Extends.refl _).bind fun _ => (nested_extends (factor_extends n)).bind fun _ =>
        .refl _
    · rw [if_neg ht, if_neg ht]
      exact .refl _

theorem base_extends : ∀ n,
    Extends (Procedure.base tokens limit n) (Procedure.base tokens limit (n + 1))
  | 0 => exhausted_extends _
  | n + 1 => (Extends.refl _).bind fun t => by
    split
    · exact .refl _
    · exact (Extends.refl _).bind fun _ => (expression_extends n).bind fun _ => .refl _
    · exact .refl _

end

theorem Finishes.unique {p : Nat → Procedure α} {o o' : Except Halt (α × Cursor)}
    (ho : Finishes p c o) (h : ∀ n, Extends (p n) (p (n + 1))) (ho' : Finishes p c o') :
    o = o' := by
  have hle : ∀ {n m}, n ≤ m → Extends (p n) (p m) := by
    intro n m hnm
    induction hnm with
    | refl => exact .refl _
    | step _ ih => exact fun c o hp => h _ c o (ih c o hp)
  obtain ⟨n, hn⟩ := ho
  obtain ⟨m, hm⟩ := ho'
  have hn' := hle (Nat.le_max_left n m) c o hn
  have hm' := hle (Nat.le_max_right n m) c o' hm
  exact Option.some.inj (hn'.symm.trans hm')

end Procedure

open Procedure

/-- A procedure finishes from a position and a depth as a rule does. It takes no token where there is
none, goes on from the position to the tokens that the rule leaves, and leaves the depth. -/
inductive Agrees (tokens : List Token) (pos : Nat) (depth : Int) :
    Option (Except Halt (α × Cursor)) → Except Rejection (α × List Token) → Prop
  | rejected (j : Rejection) : Agrees tokens pos depth (some (.error (.rejected j))) (.error j)
  | read (a : α) {next : Nat} (forward : pos ≤ next) (inside : next ≤ tokens.length) :
    Agrees tokens pos depth (some (.ok (a, ⟨next, depth⟩))) (.ok (a, tokens.drop next))

/-- A procedure does at a depth what a rule does, wherever in the tokens it starts. -/
def Follows (tokens : List Token) (depth : Int) (p : Procedure α) (r : Rule α) : Prop :=
  ∀ pos ≤ tokens.length, Agrees tokens pos depth (p ⟨pos, depth⟩) (r (tokens.drop pos))

theorem Agrees.of_le {next : Nat} {o : Option (Except Halt (α × Cursor))}
    {x : Except Rejection (α × List Token)} (h : Agrees tokens next depth o x) (hp : pos ≤ next) :
    Agrees tokens pos depth o x := by
  cases h with
  | rejected j => exact .rejected j
  | read a forward inside => exact .read a (Nat.le_trans hp forward) inside

theorem Agrees.bind {p : Procedure α} {k : α → Procedure β}
    {x : Except Rejection (α × List Token)}
    {q : α × List Token → Except Rejection (β × List Token)}
    (h : Agrees tokens pos depth (p ⟨pos, depth⟩) x)
    (hk : ∀ a next, pos ≤ next → next ≤ tokens.length →
      Agrees tokens next depth (k a ⟨next, depth⟩) (q (a, tokens.drop next))) :
    Agrees tokens pos depth ((p >>= k) ⟨pos, depth⟩) (x >>= q) := by
  generalize ho : p ⟨pos, depth⟩ = o at h
  cases h with
  | rejected j =>
    rw [bind_of_error k ho]
    exact .rejected j
  | read a forward inside =>
    rw [bind_of_ok k ho]
    exact (hk a _ forward inside).of_le forward

theorem agrees_pure (a : α) (h : pos ≤ tokens.length) :
    Agrees tokens pos depth ((pure a : Procedure α) ⟨pos, depth⟩) (.ok (a, tokens.drop pos)) :=
  .read a (Nat.le_refl _) h

theorem drop_eq_nil_or_cons (h : pos ≤ tokens.length) :
    (tokens.drop pos = [] ∧ tokens[pos]? = none) ∨
      ∃ t, tokens.drop pos = t :: tokens.drop (pos + 1) ∧ tokens[pos]? = some t ∧
        pos + 1 ≤ tokens.length := by
  obtain hl | rfl := Nat.lt_or_eq_of_le h
  · exact .inr ⟨tokens[pos], List.drop_eq_getElem_cons hl, List.getElem?_eq_getElem hl, hl⟩
  · exact .inl ⟨List.drop_length, List.getElem?_eq_none (Nat.le_refl _)⟩

theorem nested_follows_of_lt {p : Procedure α} {r : Rule α} (h : depth < limit)
    (hp : Follows tokens (depth + 1) p r) : Follows tokens depth (nested tokens limit p) r := by
  intro pos hpos
  unfold nested
  rw [bind_of_ok _ (enter_run_of_lt h)]
  dsimp only
  have ha := hp pos hpos
  generalize ho : p ⟨pos, depth + 1⟩ = o at ha
  generalize r (tokens.drop pos) = x at ha ⊢
  cases ha with
  | rejected j =>
    rw [bind_of_error _ ho]
    exact .rejected j
  | @read a next forward inside =>
    rw [bind_of_ok _ ho]
    change Agrees tokens pos depth (some (.ok (a, ⟨next, depth + 1 - 1⟩))) _
    rw [Int.add_sub_cancel]
    exact .read a forward inside

theorem nested_follows_of_le (p : Procedure α) (h : limit ≤ depth) :
    Follows tokens depth (nested tokens limit p) (tooDeep limit) := by
  intro pos _
  unfold nested
  rw [bind_of_error _ (enter_run_of_le h), tooDeep, List.head?_drop]
  exact .rejected _

/-- A procedure whose calls may nest deep enough does what a rule does. -/
def Computes (tokens : List Token) (depth : Int) (p : Nat → Procedure α) (r : Rule α) : Prop :=
  ∃ b, ∀ n ≥ b, Follows tokens depth (p n) r

theorem computes_of_succ {p : Nat → Procedure α} {r : Rule α} {b : Nat}
    (h : ∀ n ≥ b, Follows tokens depth (p (n + 1)) r) : Computes tokens depth p r := by
  refine ⟨b + 1, fun n hn => ?_⟩
  obtain ⟨n, rfl⟩ := Nat.exists_eq_add_one.mpr (Nat.zero_lt_of_lt hn)
  exact h n (Nat.le_of_succ_le_succ hn)

theorem Computes.and {p : Nat → Procedure α} {q : Nat → Procedure β} {r : Rule α} {s : Rule β}
    {depth' : Int} (hp : Computes tokens depth p r) (hq : Computes tokens depth' q s) :
    ∃ b, ∀ n ≥ b, Follows tokens depth (p n) r ∧ Follows tokens depth' (q n) s := by
  obtain ⟨b, hb⟩ := hp
  obtain ⟨b', hb'⟩ := hq
  exact ⟨max b b', fun n hn => ⟨hb n (by omega), hb' n (by omega)⟩⟩

/-- A loop over operators reads the chain that a rule reads, if the rule may read as many as there
are tokens and the loop may take as many turns. -/
theorem loop_agrees {op? : Token → Option ω} {p : Nat → Procedure α} {operand : Rule α}
    {loop : Nat → Procedure (List (ω × α))}
    (hl : ∀ n, loop (n + 1) = turn tokens op? (p n) (loop n)) {b : Nat}
    (hp : ∀ n ≥ b, Follows tokens depth (p n) operand) {k n : Nat} (hn : b + k < n)
    (h : pos ≤ tokens.length) (hk : tokens.length - pos ≤ k) :
    Agrees tokens pos depth (loop n ⟨pos, depth⟩) (chain op? operand k (tokens.drop pos)) := by
  -- Both counts are bounds only; the one of the rule shrinks with every operator that is read.
  induction k generalizing pos n with
  | zero =>
    obtain ⟨n, rfl⟩ := Nat.exists_eq_add_one.mpr (Nat.zero_lt_of_lt hn)
    obtain ⟨hd, hc⟩ | ⟨t, -, -, hlt⟩ := drop_eq_nil_or_cons h
    · rw [hl, turn, bind_of_ok _ current_run, hc]
      exact agrees_pure [] h
    · omega
  | succ k ih =>
    obtain ⟨n, rfl⟩ := Nat.exists_eq_add_one.mpr (Nat.zero_lt_of_lt hn)
    have hnil : Agrees tokens pos depth ((pure [] : Procedure (List (ω × α))) ⟨pos, depth⟩)
        (.ok ([], tokens.drop pos)) := agrees_pure [] h
    rw [hl, turn, bind_of_ok _ current_run]
    obtain ⟨hd, hc⟩ | ⟨t, hd, hc, hlt⟩ := drop_eq_nil_or_cons h
    · rw [hd] at hnil ⊢
      rw [hc]
      exact hnil
    · rw [hd] at hnil ⊢
      rw [hc, Option.bind_some]
      cases ho : op? t with
      | none =>
        simp only [chain, ho]
        exact hnil
      | some op =>
        simp only [chain, ho]
        rw [bind_of_ok _ (advance_run hc)]
        refine (Agrees.bind (hp n (by omega) _ hlt) fun a next hpos hnext => ?_).of_le
          (Nat.le_succ pos)
        refine Agrees.bind (ih (by omega) hnext (by omega)) fun xs last _ hlast => ?_
        exact agrees_pure ((op, a) :: xs) hlast

theorem loop_computes {op? : Token → Option ω} {p : Nat → Procedure α} {operand : Rule α}
    (loop : Nat → Procedure (List (ω × α)))
    (hl : ∀ n, loop (n + 1) = turn tokens op? (p n) (loop n))
    (hp : Computes tokens depth p operand) :
    Computes tokens depth loop fun ts => chain op? operand ts.length ts := by
  obtain ⟨b, hb⟩ := hp
  refine ⟨b + tokens.length + 1, fun n hn pos hpos => ?_⟩
  refine loop_agrees hl hb ?_ hpos (Nat.le_of_eq List.length_drop.symm)
  rw [List.length_drop]
  omega

section

variable {r : Rule Factor} (hf : Computes tokens depth (Procedure.factor tokens limit) r)

include hf

theorem termTail_computes :
    Computes tokens depth (Procedure.termTail tokens limit) (termTail r) := by
  obtain ⟨b, hb⟩ := loop_computes (multipliers tokens limit) (fun _ => rfl) hf
  refine computes_of_succ (b := b) fun n hn pos hpos => ?_
  exact Agrees.bind (hb n hn pos hpos) fun xs _ _ hnext => agrees_pure (TermTail.ofList xs) hnext

theorem term_computes : Computes tokens depth (Procedure.term tokens limit) (term r) := by
  obtain ⟨b, hb⟩ := hf.and (termTail_computes hf)
  refine computes_of_succ (b := b) fun n hn pos hpos => ?_
  obtain ⟨hfirst, hrest⟩ := hb n hn
  refine Agrees.bind (hfirst pos hpos) fun f next _ hnext => ?_
  refine Agrees.bind (hrest next hnext) fun tail last _ hlast => ?_
  exact agrees_pure (Term.mk f tail) hlast

theorem expressionTail_computes :
    Computes tokens depth (Procedure.expressionTail tokens limit) (expressionTail r) := by
  obtain ⟨b, hb⟩ := loop_computes (addends tokens limit) (fun _ => rfl) (term_computes hf)
  refine computes_of_succ (b := b) fun n hn pos hpos => ?_
  exact Agrees.bind (hb n hn pos hpos) fun xs _ _ hnext =>
    agrees_pure (ExpressionTail.ofList xs) hnext

end

theorem expression_computes {r : Rule Factor} (h : depth < limit)
    (hf : Computes tokens (depth + 1) (Procedure.factor tokens limit) r) :
    Computes tokens depth (Procedure.expression tokens limit) (expressionOf r) := by
  obtain ⟨b, hb⟩ := (term_computes hf).and (expressionTail_computes hf)
  refine computes_of_succ (b := b) fun n hn => nested_follows_of_lt h fun pos hpos => ?_
  obtain ⟨hfirst, hrest⟩ := hb n hn
  refine Agrees.bind (hfirst pos hpos) fun t next _ hnext => ?_
  refine Agrees.bind (hrest next hnext) fun tail last _ hlast => ?_
  exact agrees_pure (Expression.mk t tail) hlast

theorem close_agrees (e : Expression) (h : pos ≤ tokens.length) :
    Agrees tokens pos depth (close tokens e ⟨pos, depth⟩)
      (match tokens.drop pos with
      | .symbol .rightParen :: ts => .ok (.group e, ts)
      | ts => .error ⟨.expectedClosing, ts.head?⟩) := by
  rw [close, bind_of_ok _ current_run]
  obtain ⟨hd, hc⟩ | ⟨t, hd, hc, hlt⟩ := drop_eq_nil_or_cons h
  · rw [hd, hc, if_neg nofun, bind_of_ok _ current_run, hc]
    exact .rejected _
  · rw [hd, hc]
    by_cases ht : t = .symbol .rightParen
    · subst ht
      rw [if_pos rfl, bind_of_ok _ (advance_run hc)]
      exact (agrees_pure (Base.group e) hlt).of_le (Nat.le_succ pos)
    · rw [if_neg (fun h => ht (Option.some.inj h)), bind_of_ok _ current_run, hc]
      split
      · next h => exact absurd (List.cons.inj h).1 ht
      · exact .rejected _

theorem base_computes {r : Rule Expression}
    (hx : Computes tokens depth (Procedure.expression tokens limit) r) :
    Computes tokens depth (Procedure.base tokens limit) (base r) := by
  obtain ⟨b, hb⟩ := hx
  refine computes_of_succ (b := b) fun n hn pos hpos => ?_
  rw [Procedure.base, bind_of_ok _ current_run]
  obtain ⟨hd, hc⟩ | ⟨t, hd, hc, hlt⟩ := drop_eq_nil_or_cons hpos
  · rw [hc, hd]
    exact .rejected _
  · rw [hc, hd]
    cases t with
    | number n =>
      dsimp only
      rw [bind_of_ok _ (advance_run hc)]
      exact (agrees_pure (Base.literal n) hlt).of_le (Nat.le_succ pos)
    | symbol s =>
      cases s with
      | leftParen =>
        dsimp only
        rw [bind_of_ok _ (advance_run hc)]
        refine (Agrees.bind (hb n hn _ hlt) fun e next _ hnext => ?_).of_le (Nat.le_succ pos)
        exact close_agrees e hnext
      | add | subtract | multiply | divide | power | rightParen => exact .rejected _

theorem factor_computes {inner : Rule Expression} {exponent : Rule Factor}
    (hx : Computes tokens depth (Procedure.expression tokens limit) inner)
    (he : Computes tokens depth (fun n => nested tokens limit (Procedure.factor tokens limit n))
      exponent) :
    Computes tokens depth (Procedure.factor tokens limit) (factorOf inner exponent) := by
  obtain ⟨b, hb⟩ := (base_computes hx).and he
  refine computes_of_succ (b := b) fun n hn pos hpos => ?_
  obtain ⟨hfirst, hrest⟩ := hb n hn
  refine Agrees.bind (hfirst pos hpos) fun b next _ hnext => ?_
  have hbase : Agrees tokens next depth ((pure (Factor.base b) : Procedure Factor) ⟨next, depth⟩)
      (.ok (Factor.base b, tokens.drop next)) := agrees_pure (Factor.base b) hnext
  rw [bind_of_ok _ current_run]
  obtain ⟨hd, hc⟩ | ⟨t, hd, hc, hlt⟩ := drop_eq_nil_or_cons hnext
  · rw [hd] at hbase ⊢
    rw [hc, if_neg nofun]
    exact hbase
  · rw [hd] at hbase ⊢
    rw [hc]
    by_cases ht : t = .symbol .power
    · subst ht
      rw [if_pos rfl, bind_of_ok _ (advance_run hc)]
      refine (Agrees.bind (hrest _ hlt) fun e last _ hlast => ?_).of_le (Nat.le_succ next)
      exact agrees_pure (Factor.power b e) hlast
    · rw [if_neg (fun h => ht (Option.some.inj h))]
      dsimp only
      split
      · next h => exact absurd (List.cons.inj h).1 ht
      · exact hbase

def roomAt (limit : Nat) (depth : Int) : Nat := (limit - depth).toNat

theorem factor_and_expression_compute (tokens : List Token) (limit : Nat) (depth : Int) :
    Computes tokens depth (Procedure.factor tokens limit) (factor limit (roomAt limit depth)) ∧
      Computes tokens depth (Procedure.expression tokens limit)
        (expression limit (roomAt limit depth)) := by
  -- The depth grows where the room shrinks, so the induction is on the room at every depth.
  generalize hr : roomAt limit depth = r
  induction r generalizing depth with
  | zero =>
    have hd : limit ≤ depth := by
      unfold roomAt at hr
      omega
    have hx : Computes tokens depth (Procedure.expression tokens limit) (expression limit 0) :=
      computes_of_succ (b := 0) fun n _ => nested_follows_of_le _ hd
    exact ⟨factor_computes hx ⟨0, fun n _ => nested_follows_of_le _ hd⟩, hx⟩
  | succ r ih =>
    have hd : depth < limit := by
      unfold roomAt at hr
      omega
    have hr' : roomAt limit (depth + 1) = r := by
      unfold roomAt at hr ⊢
      omega
    obtain ⟨hf, -⟩ := ih (depth + 1) hr'
    have hx : Computes tokens depth (Procedure.expression tokens limit)
        (expression limit (r + 1)) := expression_computes hd hf
    obtain ⟨b, hb⟩ := hf
    exact ⟨factor_computes hx ⟨b, fun n hn => nested_follows_of_lt hd (hb n hn)⟩, hx⟩

/-- From the first token, with no depth yet, the procedure parses the whole of the tokens. -/
theorem document_finishes_iff {o : Except Halt (Expression × Cursor)} :
    Finishes (Procedure.document tokens limit) ⟨0, 0⟩ o ↔ o = match document limit tokens with
      | .ok e => .ok (e, ⟨tokens.length, 0⟩)
      | .error j => .error (.rejected j) := by
  have hext : ∀ n,
      Extends (Procedure.document tokens limit n) (Procedure.document tokens limit (n + 1)) :=
    fun n => (expression_extends n).bind fun _ => .refl _
  have hr : roomAt limit 0 = limit := by simp [roomAt]
  obtain ⟨-, n, hn⟩ := factor_and_expression_compute tokens limit 0
  have ha := hn n (Nat.le_refl n) 0 (Nat.zero_le _)
  rw [hr, List.drop_zero] at ha
  suffices h : Finishes (Procedure.document tokens limit) ⟨0, 0⟩ (match document limit tokens with
      | .ok e => .ok (e, ⟨tokens.length, 0⟩)
      | .error j => .error (.rejected j)) from
    ⟨fun ho => ho.unique hext h, fun ho => ho ▸ h⟩
  refine ⟨n, ?_⟩
  rw [Procedure.document, document]
  generalize ho : Procedure.expression tokens limit n ⟨0, 0⟩ = o at ha
  generalize expression limit limit tokens = x at ha ⊢
  cases ha with
  | rejected j =>
    rw [bind_of_error _ ho]
    rfl
  | @read e next _ inside =>
    rw [bind_of_ok _ ho, bind_of_ok _ current_run]
    obtain ⟨hd, hc⟩ | ⟨t, hd, hc, -⟩ := drop_eq_nil_or_cons inside
    · obtain rfl := Nat.le_antisymm inside (List.drop_eq_nil_iff.mp hd)
      rw [hd, hc]
      rfl
    · rw [hd, hc]
      rfl

end Abacus.Parser
