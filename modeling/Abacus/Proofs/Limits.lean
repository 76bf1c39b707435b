import Abacus.Proofs.Calculation
import Abacus.Proofs.Escape

namespace Abacus

namespace Outcome

variable {ε ε' α β : Type} {cut cut' : ε → Prop} {x y : Except ε α}

/-- Of two computations the first is cut off, or both come to the same and the second is not cut
off. -/
inductive Sooner (cut cut' : ε → Prop) : Except ε α → Except ε α → Prop
  | cut {e : ε} (h : cut e) (y : Except ε α) : Sooner cut cut' (.error e) y
  | ok (a : α) : Sooner cut cut' (.ok a) (.ok a)
  | error {e : ε} (h : ¬ cut' e) : Sooner cut cut' (.error e) (.error e)

theorem sooner_bind {f g : α → Except ε β} (h : Sooner cut cut' x y)
    (hf : ∀ a, Sooner cut cut' (f a) (g a)) : Sooner cut cut' (x >>= f) (y >>= g) := by
  cases h with
  | cut h y => exact .cut h (y >>= g)
  | ok a => exact hf a
  | error h => exact .error h

theorem sooner_map (h : Sooner cut cut' x y) (f : α → β) :
    Sooner cut cut' (x.map f) (y.map f) := by
  cases h with
  | cut h y => exact .cut h (y.map f)
  | ok a => exact .ok (f a)
  | error h => exact .error h

theorem sooner_mapError {c c' : ε' → Prop} {f : ε → ε'} (h : Sooner cut cut' x y)
    (hc : ∀ e, cut e → c (f e)) (hc' : ∀ e, c' (f e) → cut' e) :
    Sooner c c' (x.mapError f) (y.mapError f) := by
  cases h with
  | cut h y => exact .cut (hc _ h) (y.mapError f)
  | ok a => exact .ok a
  | error h => exact .error fun hf => h (hc' _ hf)

end Outcome

open Outcome

namespace Parser

variable {α ω : Type} {d d' : Nat}

def Rejection.Exceeds (limit : Nat) (j : Rejection) : Prop := j.cause = .tooDeep limit

/-- The first rule gives up sooner than the second, and otherwise they read the same. -/
def GivesUp (d d' : Nat) (r r' : Rule α) : Prop :=
  ∀ ts, Sooner (Rejection.Exceeds d) (Rejection.Exceeds d') (r ts) (r' ts)

theorem givesUp_tooDeep (r : Rule α) : GivesUp d d' (tooDeep d) r := by
  intro ts
  have h : Rejection.Exceeds d ⟨.tooDeep d, ts.head?⟩ := rfl
  exact .cut h (r ts)

theorem givesUp_chain {operand operand' : Rule α} (h : GivesUp d d' operand operand')
    (op? : Token → Option ω) (n : Nat) :
    GivesUp d d' (chain op? operand n) (chain op? operand' n) := by
  induction n with
  | zero => exact fun ts => .ok ([], ts)
  | succ n ih =>
    intro ts
    cases ts with
    | nil => exact .ok ([], [])
    | cons t ts =>
      unfold chain
      cases op? t with
      | none => exact .ok ([], t :: ts)
      | some op =>
        refine sooner_bind (h ts) ?_
        rintro ⟨x, ts⟩
        refine sooner_bind (ih ts) ?_
        rintro ⟨xs, ts⟩
        exact .ok ((op, x) :: xs, ts)

theorem givesUp_term {factor factor' : Rule Factor} (h : GivesUp d d' factor factor') :
    GivesUp d d' (term factor) (term factor') := by
  intro ts
  refine sooner_bind (h ts) ?_
  rintro ⟨f, ts⟩
  refine sooner_bind (sooner_bind (givesUp_chain h MulOp.ofToken? ts.length ts) ?_) ?_
  · rintro ⟨xs, ts⟩
    exact .ok _
  · rintro ⟨tail, ts⟩
    exact .ok _

theorem givesUp_expressionOf {factor factor' : Rule Factor} (h : GivesUp d d' factor factor') :
    GivesUp d d' (expressionOf factor) (expressionOf factor') := by
  intro ts
  refine sooner_bind (givesUp_term h ts) ?_
  rintro ⟨t, ts⟩
  refine sooner_bind (sooner_bind (givesUp_chain (givesUp_term h) AddOp.ofToken? ts.length ts) ?_) ?_
  · rintro ⟨xs, ts⟩
    exact .ok _
  · rintro ⟨tail, ts⟩
    exact .ok _

theorem givesUp_base {nested nested' : Rule Expression} (h : GivesUp d d' nested nested') :
    GivesUp d d' (base nested) (base nested') := by
  have hc {c : Cause} (hc : c ≠ .tooDeep d') (ts : List Token) :
      ¬ Rejection.Exceeds d' ⟨c, ts.head?⟩ := hc
  intro ts
  unfold base
  split
  · next n ts => exact .ok _
  · next ts =>
    refine sooner_bind (h ts) ?_
    rintro ⟨e, ts⟩
    dsimp only
    split
    · next ts => exact .ok _
    · exact .error (hc (by simp) _)
  · exact .error (hc (by simp) _)

theorem givesUp_factorOf {nested nested' : Rule Expression} {exponent exponent' : Rule Factor}
    (hn : GivesUp d d' nested nested') (he : GivesUp d d' exponent exponent') :
    GivesUp d d' (factorOf nested exponent) (factorOf nested' exponent') := by
  intro ts
  refine sooner_bind (givesUp_base hn ts) ?_
  rintro ⟨b, ts⟩
  dsimp only
  split
  · next ts =>
    refine sooner_bind (he ts) ?_
    rintro ⟨e, ts⟩
    exact .ok _
  · exact .ok _

theorem factor_and_expression_give_up {room room' : Nat} (h : room ≤ room') :
    GivesUp d d' (factor d room) (factor d' room') ∧
      GivesUp d d' (expression d room) (expression d' room') := by
  induction room generalizing room' with
  | zero =>
    refine ⟨?_, givesUp_tooDeep _⟩
    cases room' with
    | zero => exact givesUp_factorOf (givesUp_tooDeep _) (givesUp_tooDeep _)
    | succ room' => exact givesUp_factorOf (givesUp_tooDeep _) (givesUp_tooDeep _)
  | succ room ih =>
    cases room' with
    | zero => exact absurd h (Nat.not_succ_le_zero room)
    | succ room' =>
      obtain ⟨hf, -⟩ := ih (Nat.le_of_succ_le_succ h)
      have hx := givesUp_expressionOf hf
      exact ⟨givesUp_factorOf hx hf, hx⟩

theorem document_gives_up (h : d ≤ d') (ts : List Token) :
    Sooner (Rejection.Exceeds d) (Rejection.Exceeds d') (document d ts) (document d' ts) := by
  refine sooner_bind ((factor_and_expression_give_up h).2 ts) ?_
  rintro ⟨e, rest⟩
  cases rest with
  | nil => exact .ok e
  | cons t rest => exact .error (by simp [Rejection.Exceeds])

end Parser

namespace Arithmetic

open Grammar Binary64

def Error.Exceeds (limit : Nat) : Error → Prop
  | overBudget _ _ k => k = limit
  | _ => False

abbrev RunsOut {α : Type} (k k' : Nat) (x y : Except Error α) : Prop :=
  Sooner (Error.Exceeds k) (Error.Exceeds k') x y

variable {k k' : Nat} {b e : Int} {x y z : Float} {op s : Symbol} {kind : Kind} {d : Datum}
  {l r : Operand}

theorem runsOut_truncate : RunsOut k k' (truncate x) (truncate x) := by
  unfold truncate
  split
  · exact .error id
  · split
    · exact .ok _
    · exact .error id

theorem runsOut_widen : RunsOut k k' (widen d) (widen d) := by
  simp only [widen_eq]
  cases d.number? with
  | none => exact .error id
  | some n =>
    simp only [Option.elim_some]
    split
    · exact .ok _
    · cases Parts.ofInt? _ with
      | none => exact .error id
      | some x => exact .ok x

theorem runsOut_whole : RunsOut k k' (whole d) (whole d) := by
  unfold whole
  split
  · exact .error id
  · exact .ok _
  · exact runsOut_truncate

theorem runsOut_finite : RunsOut k k' (finite x op y z) (finite x op y z) := by
  unfold finite
  split
  · exact .ok _
  · exact .error id

theorem runsOut_decimalBinary :
    RunsOut k k' (decimalBinary kind x y) (decimalBinary kind x y) := by
  unfold decimalBinary
  split
  iterate 4 exact runsOut_finite
  exact .error id

theorem runsOut_integerBinary :
    RunsOut k k' (integerBinary kind b e) (integerBinary kind b e) := by
  unfold integerBinary
  split
  iterate 3 exact .ok _
  · split
    · exact .error id
    · exact .ok _
  · exact .error id

theorem runsOut_binary : RunsOut k k' (binary kind l r) (binary kind l r) := by
  unfold binary
  split
  · exact .error id
  · split
    · exact sooner_bind runsOut_widen fun _ => sooner_bind runsOut_widen fun _ =>
        runsOut_decimalBinary
    · exact sooner_bind runsOut_whole fun _ => sooner_bind runsOut_whole fun _ =>
        runsOut_integerBinary

theorem runsOut_decimalPower : RunsOut k k' (decimalPower x y) (decimalPower x y) := by
  unfold decimalPower
  split
  · exact runsOut_finite
  all_goals exact .error id

theorem runsOut_estimate : RunsOut k k' (estimate x y) (estimate x y) := by
  unfold estimate
  split
  · exact sooner_map runsOut_truncate _
  · exact .error id

theorem runsOut_sizeEstimate : RunsOut k k' (sizeEstimate b e) (sizeEstimate b e) := by
  cases he : Parts.ofInt? e with
  | none =>
    rw [sizeEstimate_of_none he]
    exact .error id
  | some x =>
    rw [sizeEstimate_of_some he]
    exact runsOut_estimate

theorem runsOut_budget (h : k ≤ k') : RunsOut k k' (budget k b e) (budget k' b e) := by
  unfold budget
  by_cases he : (k : Int) ≤ e
  · rw [if_pos he]
    have hx : Error.Exceeds k (.overBudget b e k) := rfl
    exact .cut hx _
  · rw [if_neg he, if_neg (by omega)]
    refine sooner_bind runsOut_sizeEstimate fun size => ?_
    by_cases hs : (k : Int) < size
    · rw [if_pos hs]
      have hx : Error.Exceeds k (.overBudget b e k) := rfl
      exact .cut hx _
    · rw [if_neg hs, if_neg (by omega)]
      exact .ok _

theorem runsOut_integerPower (h : k ≤ k') :
    RunsOut k k' (integerPower (fixed k) b e) (integerPower (fixed k') b e) := by
  unfold integerPower
  split
  · exact .ok _
  · split
    · split
      · exact .error id
      · exact .ok _
    · split
      · exact .ok _
      · change RunsOut k k' (ofExcept (budget k b e) >>= _) (ofExcept (budget k' b e) >>= _)
        rw [ofExcept_eq, ofExcept_eq]
        exact sooner_bind (runsOut_budget h) fun _ => .ok _

theorem runsOut_power (h : k ≤ k') :
    RunsOut k k' (power (fixed k) l r) (power (fixed k') l r) := by
  unfold power
  split
  · rw [ofExcept_eq]
    exact sooner_bind runsOut_widen fun _ => sooner_bind runsOut_widen fun _ =>
      runsOut_decimalPower
  · rw [ofExcept_eq]
    refine sooner_bind (sooner_bind runsOut_whole fun _ => sooner_bind runsOut_whole fun _ =>
      .ok _) ?_
    rintro ⟨b, e⟩
    exact sooner_map (runsOut_integerPower h) _

theorem runsOut_operate (h : k ≤ k') (a b : Result) :
    RunsOut k k' (operate (fixed k) s a b) (operate (fixed k') s a b) := by
  unfold operate
  split
  · exact runsOut_power h
  · rw [ofExcept_eq]
    exact runsOut_binary

/-- With fewer bits allowed, the evaluation of a formula runs out of them sooner. -/
theorem runsOut_evaluate (h : k ≤ k') (f : Formula) :
    RunsOut k k' (f.evaluate k) (f.evaluate k') := by
  induction f with
  | literal n => exact .ok _
  | operation s l r ihl ihr =>
    rw [evaluate_operation, evaluate_operation]
    exact sooner_bind ihl fun a => sooner_bind ihr fun b => runsOut_operate h a b

end Arithmetic

def Failure.Exceeds (s : Settings) : Failure → Prop
  | parse (.rejected j) => j.Exceeds s.maxDepth
  | arithmetic e => e.Exceeds s.maxIntegerBits
  | _ => False

open Calculation

variable {s s' : Settings}

theorem toError_of_exceeds {j : Parser.Rejection} {d : Nat} (h : j.Exceeds d) :
    j.toError = .rejected j := by
  obtain ⟨c, found⟩ := j
  obtain rfl : c = .tooDeep d := h
  rfl

theorem exceeds_of_toError {j : Parser.Rejection} (h : (Failure.parse j.toError).Exceeds s) :
    j.Exceeds s.maxDepth := by
  unfold Parser.Rejection.toError at h
  split at h
  · exact h
  · exact h
  · split at h
    · exact h
    · exact h.elim

theorem ofTokens_sooner (hd : s.maxDepth ≤ s'.maxDepth) (ts : List Token) :
    Sooner (Failure.Exceeds s) (Failure.Exceeds s') (ofTokens s ts) (ofTokens s' ts) := by
  let c (s : Settings) (e : Parser.Error) : Prop := (Failure.parse e).Exceeds s
  have hp : Sooner (c s) (c s') (Parser.parse s.maxDepth ts) (Parser.parse s'.maxDepth ts) := by
    refine sooner_mapError (Parser.document_gives_up hd ts) (fun j hj => ?_)
      fun j => exceeds_of_toError
    change (Failure.parse j.toError).Exceeds s
    rw [toError_of_exceeds hj]
    exact hj
  exact sooner_mapError hp (fun _ h => h) fun _ h => h

theorem calculate_sooner (hd : s.maxDepth ≤ s'.maxDepth)
    (hb : s.maxIntegerBits ≤ s'.maxIntegerBits) (source : List Char) :
    Sooner (Failure.Exceeds s) (Failure.Exceeds s') (calculate s source)
      (calculate s' source) := by
  have ht : Sooner (Failure.Exceeds s) (Failure.Exceeds s') (tokenize source)
      (tokenize source) := by
    unfold tokenize
    cases (Lexer.scan source).result with
    | error e => exact .error id
    | ok ts => exact .ok ts
  refine sooner_bind (sooner_bind ht fun ts => ofTokens_sooner hd ts) fun e => ?_
  have he : Arithmetic.RunsOut s.maxIntegerBits s'.maxIntegerBits
      (e.evaluate s.maxIntegerBits) (e.evaluate s'.maxIntegerBits) := by
    have hf := Arithmetic.runsOut_evaluate hb e.derivation.formula
    rwa [Grammar.Formula.evaluate, Grammar.Formula.evaluate, e.eval_formula, e.eval_formula] at hf
  exact sooner_mapError he (fun _ h => h) fun _ h => h

/-- Larger limits change nothing but where a limit was passed: any other outcome stays the same, and
what passes the larger limits passes the smaller ones too. -/
theorem calculate_of_limits_le (hd : s.maxDepth ≤ s'.maxDepth)
    (hb : s.maxIntegerBits ≤ s'.maxIntegerBits) (source : List Char) :
    ((¬ ∃ f, calculate s source = .error f ∧ f.Exceeds s) →
      calculate s' source = calculate s source) ∧
    ((∃ f, calculate s' source = .error f ∧ f.Exceeds s') →
      ∃ f, calculate s source = .error f ∧ f.Exceeds s) := by
  have h := calculate_sooner hd hb source
  generalize calculate s source = x at h ⊢
  generalize calculate s' source = y at h ⊢
  cases h with
  | @cut f hf y => exact ⟨fun hn => absurd ⟨f, rfl, hf⟩ hn, fun _ => ⟨f, rfl, hf⟩⟩
  | ok a =>
    refine ⟨fun _ => rfl, ?_⟩
    rintro ⟨f, h, -⟩
    cases h
  | @error f hf =>
    refine ⟨fun _ => rfl, ?_⟩
    rintro ⟨f', h, hf'⟩
    cases h
    exact absurd hf' hf

theorem calculate_of_limits_le_powers :
    calculate ⟨100, 1000000⟩ ['2', '^', '2'] = .ok (.ofInt 4) ∧
      ∃ f, calculate ⟨3, 5⟩ ['9', '^', '9', '^', '9'] = .error f ∧ f.Exceeds ⟨3, 5⟩ := by
  have h : calculate ⟨2, 3⟩ ['2', '^', '2'] = .ok (.ofInt 4) := by decide +kernel
  have hl : calculate ⟨100, 1000000⟩ ['9', '^', '9', '^', '9'] =
      .error (.arithmetic (.overBudget 9 387420489 1000000)) := by decide +kernel
  refine ⟨((calculate_of_limits_le (by decide) (by decide) _).1 ?_).trans h,
    (calculate_of_limits_le (by decide) (by decide) _).2 ⟨_, hl, rfl⟩⟩
  rintro ⟨f, hf, -⟩
  cases h.symm.trans hf

end Abacus
