import Abacus.Node.Builder
import Abacus.Proofs.Grammar.Cursor

namespace Abacus.Parser

open Node Node.Assembly Procedure

variable {α β γ δ ω : Type} {tokens : List Token} {limit : Nat} {f : α → β} {g : γ → δ}
  {b : Builder β} {p : Procedure α} {c : Cursor}

def accepted (f : α → β) : Option (Except Halt (α × Cursor)) →
    Option (Except Halt (Except Assembly.Error β × Cursor)) :=
  Option.map (Except.map fun r => (.ok (f r.1), r.2))

/-- A builder does from a cursor what a procedure does there, with the nodes of what that reads. None
of these is refused. -/
def Builds (f : α → β) (b : Builder β) (p : Procedure α) (c : Cursor) : Prop :=
  b.run c = accepted f (p c)

theorem builds_pure (f : α → β) (a : α) : Builds f (pure (f a)) (pure a) c := rfl

theorem builds_lift (p : Procedure α) : Builds id (liftM p) p c := by
  have hl : (liftM p : Builder α).run c = (p >>= fun a => pure (.ok a)) c := rfl
  rw [Builds, hl]
  cases hp : p c with
  | none => rw [bind_of_none _ hp]; rfl
  | some x =>
    cases x with
    | error e => rw [bind_of_error _ hp]; rfl
    | ok r => rw [bind_of_ok _ hp]; rfl

theorem Builds.bind {k : β → Builder δ} {q : α → Procedure γ} (h : Builds f b p c)
    (hk : ∀ a c', Builds g (k (f a)) (q a) c') : Builds g (b >>= k) (p >>= q) c := by
  have hb : (b >>= k).run c = (b.run >>= ExceptT.bindCont k : Procedure _) c := rfl
  rw [Builds, hb]
  rw [Builds] at h
  cases hp : p c with
  | none =>
    rw [hp] at h
    rw [bind_of_none _ hp, bind_of_none _ h]
    rfl
  | some x =>
    rw [hp] at h
    cases x with
    | error e =>
      rw [bind_of_error _ hp, bind_of_error _ h]
      rfl
    | ok r =>
      obtain ⟨a, c'⟩ := r
      rw [bind_of_ok _ hp, bind_of_ok _ h]
      exact hk a c'

theorem Builds.nested (h : ∀ c, Builds f b p c) :
    Builds f (Builder.nested tokens limit b) (Procedure.nested tokens limit p) c := by
  apply (builds_lift _).bind
  intro _ c'
  apply (h c').bind
  intro a c'
  apply (builds_lift _).bind
  intro _ c'
  exact builds_pure f a

theorem builds_check {k : Bool → Builder β} {kinds : List Kind}
    (h : Builds f (k (tokens[c.pos]?.any fun t => kinds.contains t.kind)) p c) :
    Builds f (Builder.check tokens kinds >>= k) p c := h

theorem any_kind_iff {o : Option Token} {s : Symbol} :
    (o.any fun t => [Kind.symbol s].contains t.kind) = true ↔ o = some (.symbol s) := by
  cases o with
  | none => simp
  | some t => cases t <;> simp [Token.kind]

theorem builds_current {k : Option Token → Builder δ} {q : Option Token → Procedure γ}
    (h : Builds g (k tokens[c.pos]?) (q tokens[c.pos]?) c) :
    Builds g (liftM (current tokens) >>= k) (current tokens >>= q) c := h

theorem builds_of_current {q : Option Token → Procedure α} (h : Builds f b (q tokens[c.pos]?) c) :
    Builds f b (current tokens >>= q) c := h

theorem builds_advance {t : Token} (ht : tokens[c.pos]? = some t) {k : Token → Builder δ}
    {q : Token → Procedure γ} (h : ∀ c', Builds g (k t) (q t) c') :
    Builds g (liftM (advance tokens) >>= k) (advance tokens >>= q) c := by
  have hl : (liftM (advance tokens) : Builder Token).run c =
      some (.ok (.ok t, { c with pos := c.pos + 1 })) := by
    have hb := builds_lift (advance tokens) (c := c)
    rw [Builds, advance_run ht] at hb
    exact hb
  have hb : (liftM (advance tokens) >>= k).run c =
      ((liftM (advance tokens) : Builder Token).run >>= ExceptT.bindCont k : Procedure _) c := rfl
  rw [Builds, hb, bind_of_ok _ hl, bind_of_ok _ (advance_run ht)]
  exact h _

theorem builds_reject (cause : Cause) {found : Option Token} (ht : tokens[c.pos]? = found) :
    Builds f (Builder.reject tokens cause) (throw (.rejected ⟨cause, found⟩)) c := by
  subst ht
  rfl

theorem construct_eq_pure {fm : Form} {t : Option Token} {part : Field → Part} {n : Node}
    (h : Assembly.make fm t part = .ok n) : Builder.construct fm t part = pure n := by
  rw [Builder.construct, h]
  rfl

theorem tail_of_factors (xs : List (MulOp × Factor)) :
    Builder.tail .product (xs.map fun x => (.symbol x.1.symbol, .factor x.2)) =
      pure (.termTail (.ofList xs)) := by
  induction xs with
  | nil => rfl
  | cons x xs ih =>
    obtain ⟨op, x⟩ := x
    rw [List.map_cons, Builder.tail, ih, pure_bind]
    apply construct_eq_pure
    cases op <;> rfl

theorem tail_of_terms (xs : List (AddOp × Term)) :
    Builder.tail .sum (xs.map fun x => (.symbol x.1.symbol, .term x.2)) =
      pure (.expressionTail (.ofList xs)) := by
  induction xs with
  | nil => rfl
  | cons x xs ih =>
    obtain ⟨op, x⟩ := x
    rw [List.map_cons, Builder.tail, ih, pure_bind]
    apply construct_eq_pure
    cases op <;> rfl

theorem Builds.turn {op? : Token → Option ω} {symbol : ω → Symbol} {kinds : List Kind}
    (hop : ∀ t op, op? t = some op → t = .symbol (symbol op))
    (hk : ∀ t, kinds.contains t.kind = (op? t).isSome)
    {loop : Builder (List (Token × β))} {loop' : Procedure (List (ω × α))}
    (h : ∀ c, Builds f b p c)
    (hl : ∀ c, Builds (List.map fun x => (.symbol (symbol x.1), f x.2)) loop loop' c) :
    Builds (List.map fun x => (.symbol (symbol x.1), f x.2)) (Builder.turn tokens kinds b loop)
      (Procedure.turn tokens op? p loop') c := by
  apply builds_check
  apply builds_of_current
  cases ht : tokens[c.pos]? with
  | none => exact builds_pure _ []
  | some t =>
    rw [Option.any_some, hk, Option.bind_some]
    cases ho : op? t with
    | none => exact builds_pure _ []
    | some op =>
      obtain rfl := hop t op ho
      rw [Option.isSome_some, if_pos rfl]
      apply builds_advance ht
      intro c
      apply (h c).bind
      intro a c
      apply (hl c).bind
      intro xs c
      exact builds_pure (List.map fun x => (Token.symbol (symbol x.1), f x.2)) ((op, a) :: xs)

/-- The nodes in an expression before it is put together. -/
def halves : Expression → Node × Node
  | .mk t r => (.term t, .expressionTail r)

theorem close_builds (e : Expression) : Builds Node.base
    (do
      if ← Builder.check tokens [.symbol .rightParen] then
        let _ ← advance tokens
        Builder.construct .base none fun _ => .node (.expression e)
      else
        Builder.reject tokens .expectedClosing)
    (close tokens e) c := by
  apply builds_check
  apply builds_of_current
  by_cases ht : tokens[c.pos]? = some (.symbol .rightParen)
  · rw [if_pos ht, if_pos (any_kind_iff.mpr ht)]
    apply (builds_lift _).bind
    intro _ c
    exact builds_pure Node.base (.group e)
  · rw [if_neg ht, if_neg (mt any_kind_iff.mp ht)]
    exact builds_of_current (builds_reject .expectedClosing rfl)

mutual

theorem expression_builds : ∀ (n : Nat) (c : Cursor), Builds Node.expression
    (Builder.expression tokens limit n) (Procedure.expression tokens limit n) c
  | 0, _ => rfl
  | n + 1, c => by
    have hn : ∀ c, Builds halves
        (do
          let t ← Builder.term tokens limit n
          let r ← Builder.expressionTail tokens limit n
          return (t, r))
        (do
          let t ← Procedure.term tokens limit n
          let r ← Procedure.expressionTail tokens limit n
          return .mk t r) c := by
      intro c
      apply (term_builds n c).bind
      intro t c
      apply (expressionTail_builds n c).bind
      intro r c
      exact builds_pure halves (.mk t r)
    rw [Procedure.expression, ← bind_pure (Procedure.nested _ _ _)]
    apply (Builds.nested hn).bind
    rintro ⟨t, r⟩ c
    exact builds_pure Node.expression (.mk t r)

theorem expressionTail_builds : ∀ (n : Nat) (c : Cursor), Builds Node.expressionTail
    (Builder.expressionTail tokens limit n) (Procedure.expressionTail tokens limit n) c
  | 0, _ => rfl
  | n + 1, c => by
    apply (addends_builds n c).bind
    intro xs c
    rw [tail_of_terms]
    exact builds_pure _ _

theorem addends_builds : ∀ (n : Nat) (c : Cursor),
    Builds (List.map fun x => (.symbol x.1.symbol, .term x.2)) (Builder.addends tokens limit n)
      (Procedure.addends tokens limit n) c
  | 0, _ => rfl
  | n + 1, c => by
    apply Builds.turn (fun _ _ => AddOp.ofToken?_eq_some_iff.mp) _ (term_builds n)
      (addends_builds n)
    rintro (_ | _ | _) <;> rfl

theorem term_builds : ∀ (n : Nat) (c : Cursor),
    Builds Node.term (Builder.term tokens limit n) (Procedure.term tokens limit n) c
  | 0, _ => rfl
  | n + 1, c => by
    apply (factor_builds n c).bind
    intro x c
    apply (termTail_builds n c).bind
    intro r c
    exact builds_pure Node.term (.mk x r)

theorem termTail_builds : ∀ (n : Nat) (c : Cursor), Builds Node.termTail
    (Builder.termTail tokens limit n) (Procedure.termTail tokens limit n) c
  | 0, _ => rfl
  | n + 1, c => by
    apply (multipliers_builds n c).bind
    intro xs c
    rw [tail_of_factors]
    exact builds_pure _ _

theorem multipliers_builds : ∀ (n : Nat) (c : Cursor),
    Builds (List.map fun x => (.symbol x.1.symbol, .factor x.2))
      (Builder.multipliers tokens limit n) (Procedure.multipliers tokens limit n) c
  | 0, _ => rfl
  | n + 1, c => by
    apply Builds.turn (fun _ _ => MulOp.ofToken?_eq_some_iff.mp) _ (factor_builds n)
      (multipliers_builds n)
    rintro (_ | _ | _) <;> rfl

theorem factor_builds : ∀ (n : Nat) (c : Cursor),
    Builds Node.factor (Builder.factor tokens limit n) (Procedure.factor tokens limit n) c
  | 0, _ => rfl
  | n + 1, c => by
    apply (base_builds n c).bind
    intro x c
    apply builds_check
    apply builds_of_current
    by_cases ht : tokens[c.pos]? = some (.symbol .power)
    · rw [if_pos ht, if_pos (any_kind_iff.mpr ht)]
      apply (builds_lift _).bind
      intro _ c
      apply (Builds.nested (factor_builds n)).bind
      intro e c
      exact builds_pure Node.factor (.power x e)
    · rw [if_neg ht, if_neg (mt any_kind_iff.mp ht)]
      exact builds_pure Node.factor (.base x)

theorem base_builds : ∀ (n : Nat) (c : Cursor),
    Builds Node.base (Builder.base tokens limit n) (Procedure.base tokens limit n) c
  | 0, _ => rfl
  | n + 1, c => by
    apply builds_current
    cases ht : tokens[c.pos]? with
    | none =>
      apply builds_check
      rw [ht]
      exact builds_reject .expectedOperand ht
    | some t =>
      cases t with
      | number m =>
        apply builds_advance ht
        intro c
        exact builds_pure Node.base (.literal m)
      | symbol s =>
        apply builds_check
        by_cases hs : s = .leftParen
        · subst hs
          rw [if_pos (any_kind_iff.mpr ht)]
          apply (builds_lift _).bind
          intro _ c
          apply (expression_builds n c).bind
          exact fun e c => close_builds e
        · rw [if_neg fun h => hs (by simpa [ht] using any_kind_iff.mp h)]
          cases s with
          | leftParen => exact absurd rfl hs
          | add | subtract | multiply | divide | power | rightParen =>
            exact builds_reject .expectedOperand ht

end

theorem document_builds (n : Nat) : Builds Node.expression (Builder.document tokens limit n)
    (Procedure.document tokens limit n) c := by
  apply (expression_builds n c).bind
  intro e c
  apply builds_current
  cases ht : tokens[c.pos]? with
  | none => exact builds_pure Node.expression e
  | some t => exact builds_reject .expectedEnd ht

/-- A procedure with nodes finishes as the one without them does, and refuses no node. -/
theorem builder_finishes_iff {o : Except Halt (Except Assembly.Error Node × Cursor)} :
    Finishes (fun n => (Builder.document tokens limit n).run) ⟨0, 0⟩ o ↔
      o = match document limit tokens with
        | .ok e => .ok (.ok (.expression e), ⟨tokens.length, 0⟩)
        | .error j => .error (.rejected j) := by
  have hd : Finishes (fun n => (Builder.document tokens limit n).run) ⟨0, 0⟩ o ↔
      ∃ x, Finishes (Procedure.document tokens limit) ⟨0, 0⟩ x ∧
        x.map (fun r => (.ok (.expression r.1), r.2)) = o := by
    constructor
    · rintro ⟨n, hn⟩
      obtain ⟨x, hx, rfl⟩ := Option.map_eq_some_iff.mp ((document_builds n).symm.trans hn)
      exact ⟨x, ⟨n, hx⟩, rfl⟩
    · rintro ⟨x, ⟨n, hx⟩, rfl⟩
      refine ⟨n, (document_builds n).trans ?_⟩
      rw [hx]
      rfl
  rw [hd]
  simp only [document_finishes_iff, exists_eq_left, eq_comm]
  cases document limit tokens <;> rfl

end Abacus.Parser
