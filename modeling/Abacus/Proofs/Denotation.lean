import Abacus.Proofs.IntegerOperations

namespace Abacus

namespace Grammar

open Arithmetic Outcome

/-- The integer that a formula of integers stands for, whatever the limit on powers. -/
inductive Denotes : Formula → Int → Prop
  | literal (n : Int) : Denotes (.literal (.integer n)) n
  | operation {s : Symbol} {l r : Formula} {a b v : Int} (hl : Denotes l a) (hr : Denotes r b)
    (hv : Yields a b s v) : Denotes (.operation s l r) v

inductive Formula.IsRefused (limit : Nat) : Formula → Arithmetic.Error → Prop
  | operation {s : Symbol} {l r : Formula} {a b : Int} {err : Arithmetic.Error} (hl : Denotes l a)
    (hr : Denotes r b) (h : Refuses limit a b s err) : IsRefused limit (.operation s l r) err

inductive Formula.IsStopped (limit : Nat) : Formula → Arithmetic.Error → Prop
  | operation {s : Symbol} {l r : Formula} {a b : Int} {err : Arithmetic.Error} (hl : Denotes l a)
    (hr : Denotes r b) (h : Stops limit a b s err) : IsStopped limit (.operation s l r) err

inductive Formula.OfIntegers : Formula → Prop
  | literal (n : Int) : OfIntegers (.literal (.integer n))
  | operation {s : Symbol} {l r : Formula} (hp : s ≠ .leftParen) (hq : s ≠ .rightParen)
    (hl : l.OfIntegers) (hr : r.OfIntegers) : OfIntegers (.operation s l r)

variable {limit : Nat} {x y : Formula} {a b v w : Int} {c : Conversion} {err err' : Arithmetic.Error}
  {r : Result}

theorem denotes_functional (h : Denotes x v) (h' : Denotes x w) : v = w := by
  induction h generalizing w with
  | literal n =>
    cases h'
    rfl
  | operation hl hr hv ihl ihr =>
    cases h' with
    | operation hl' hr' hw =>
      obtain rfl := ihl hl'
      obtain rfl := ihr hr'
      exact yields_unique hv hw

theorem isStopped_of_isRefused (h : x.IsRefused limit err) : x.IsStopped limit err := by
  obtain ⟨hl, hr, h⟩ := h
  exact .operation hl hr (.refused h)

theorem isRefused_of_isStopped (h : x.IsStopped limit err)
    (hc : ∀ c, c.IsOverflow → err ≠ .conversion c) : x.IsRefused limit err := by
  obtain ⟨hl, hr, h⟩ := h
  cases h with
  | refused h => exact .operation hl hr h
  | overrun h => exact absurd rfl (hc _ (isOverflow_of_overruns h))

theorem isOverflow_of_isStopped (h : x.IsStopped limit (.conversion c)) : c.IsOverflow := by
  obtain ⟨-, -, h⟩ := h
  exact isOverflow_of_overruns (overruns_of_stops h)

theorem isStopped_unique (h : x.IsStopped limit err) (h' : x.IsStopped limit err') :
    err = err' := by
  cases h with
  | operation hl hr h =>
    cases h' with
    | operation hl' hr' h' =>
      obtain rfl := denotes_functional hl hl'
      obtain rfl := denotes_functional hr hr'
      exact stops_unique h h'

theorem ofIntegers_formula {u : Level} {d : Derivation u}
    (h : ∀ n, .number n ∈ d.tokens → n.type = .integer) : d.formula.OfIntegers := by
  have hop {s : Symbol} {ts us : List Token}
      (h : ∀ n, .number n ∈ ts ++ .symbol s :: us → n.type = .integer) :
      (∀ n, .number n ∈ ts → n.type = .integer) ∧ ∀ n, .number n ∈ us → n.type = .integer :=
    ⟨fun n hn => h n (List.mem_append_left _ hn),
      fun n hn => h n (List.mem_append_right _ (List.mem_cons_of_mem _ hn))⟩
  induction d with
  | sum l op r ihl ihr =>
    refine .operation ?_ ?_ (ihl (hop h).1) (ihr (hop h).2) <;> cases op <;> decide
  | product l op r ihl ihr =>
    refine .operation ?_ ?_ (ihl (hop h).1) (ihr (hop h).2) <;> cases op <;> decide
  | power b e ihb ihe =>
    exact .operation (by decide) (by decide) (ihb (hop h).1) (ihe (hop h).2)
  | term t ih => exact ih h
  | factor f ih => exact ih h
  | base b ih => exact ih h
  | literal n =>
    cases n with
    | integer n => exact .literal n
    | decimal x => cases h _ (List.mem_singleton.mpr rfl)
  | group e ih =>
    exact ih fun n hn => h n (List.mem_cons_of_mem _ (List.mem_append_left _ hn))

theorem ofIntegers_of_mem_postorder (h : x.OfIntegers) (hy : y ∈ x.postorder) : y.OfIntegers := by
  induction h with
  | literal n =>
    obtain rfl := List.mem_singleton.mp hy
    exact .literal n
  | operation hp hq hl hr ihl ihr =>
    simp only [Formula.postorder, List.mem_append, List.mem_singleton] at hy
    obtain (hy | hy) | rfl := hy
    · exact ihl hy
    · exact ihr hy
    · exact .operation hp hq hl hr

/-- A formula of integers evaluates to nothing but what it stands for. -/
theorem denotes_of_evaluate (h : x.OfIntegers) (hx : x.evaluate limit = .ok r) :
    ∃ v, r = .ofInt v ∧ Denotes x v := by
  induction h generalizing r with
  | literal n =>
    cases hx
    exact ⟨n, rfl, .literal n⟩
  | operation hp hq hl hr ihl ihr =>
    rw [evaluate_operation] at hx
    obtain ⟨_, ha, hx⟩ := bind_eq_ok_iff.mp hx
    obtain ⟨_, hb, hx⟩ := bind_eq_ok_iff.mp hx
    obtain ⟨a, rfl, hda⟩ := ihl ha
    obtain ⟨b, rfl, hdb⟩ := ihr hb
    obtain ⟨v, hv, hy⟩ | ⟨err, he, -⟩ := operate_cases limit a b hp hq
    · cases hv.symm.trans hx
      exact ⟨v, rfl, .operation hda hdb hy⟩
    · cases he.symm.trans hx

theorem not_isStopped_of_evaluate (h : x.OfIntegers) (hx : x.evaluate limit = .ok r) :
    ¬ x.IsStopped limit err := by
  rintro ⟨hl, hr, hs⟩
  obtain - | ⟨-, -, hil, hir⟩ := h
  rw [evaluate_operation] at hx
  obtain ⟨_, ha, hx⟩ := bind_eq_ok_iff.mp hx
  obtain ⟨_, hb, hx⟩ := bind_eq_ok_iff.mp hx
  obtain ⟨a, rfl, hda⟩ := denotes_of_evaluate hil ha
  obtain ⟨b, rfl, hdb⟩ := denotes_of_evaluate hir hb
  obtain rfl := denotes_functional hl hda
  obtain rfl := denotes_functional hr hdb
  cases (operate_of_stops hs).symm.trans hx

/-- The error of the part of the formula that has one before every other, in the order of
evaluation. -/
def Formula.First (p : Formula → Arithmetic.Error → Prop) (x : Formula)
    (err : Arithmetic.Error) : Prop :=
  ∃ before y after, x.postorder = before ++ y :: after ∧ (∀ z ∈ before, ∀ err', ¬ p z err') ∧
    p y err

def Formula.FirstRefused (limit : Nat) : Formula → Arithmetic.Error → Prop :=
  First (IsRefused limit)

def Formula.FirstStopped (limit : Nat) : Formula → Arithmetic.Error → Prop :=
  First (IsStopped limit)

theorem first_unique {p : Formula → Arithmetic.Error → Prop}
    (hp : ∀ {y err err'}, p y err → p y err' → err = err') (h : x.First p err)
    (h' : x.First p err') : err = err' := by
  classical
  let q (z : Formula) : Bool := ∃ err, p z err
  have hf {err : Arithmetic.Error} (h : x.First p err) :
      ∃ y, x.postorder.find? q = some y ∧ p y err := by
    obtain ⟨before, y, after, hx, hb, hy⟩ := h
    refine ⟨y, List.find?_eq_some_iff_append.mpr ⟨?_, before, after, hx, fun z hz => ?_⟩, hy⟩
    · exact decide_eq_true ⟨err, hy⟩
    · simpa [q] using hb z hz
  obtain ⟨y, hy, hr⟩ := hf h
  obtain ⟨y', hy', hr'⟩ := hf h'
  cases hy.symm.trans hy'
  exact hp hr hr'

theorem firstStopped_of_evaluate (h : x.OfIntegers) (hx : x.evaluate limit = .error err) :
    x.FirstStopped limit err := by
  obtain ⟨before, s, l, r, after, _, _, hp, hv, ha, hb, ho⟩ := first_failed_of_evaluate hx
  have hmem : ∀ z ∈ before ++ .operation s l r :: after, z.OfIntegers :=
    fun z hz => ofIntegers_of_mem_postorder h (hp ▸ hz)
  obtain - | ⟨hsl, hsr, hil, hir⟩ := hmem (.operation s l r) (by simp)
  obtain ⟨a, rfl, hda⟩ := denotes_of_evaluate hil ha
  obtain ⟨b, rfl, hdb⟩ := denotes_of_evaluate hir hb
  refine ⟨before, .operation s l r, after, hp, fun z hz err' => ?_, ?_⟩
  · obtain ⟨v, hv⟩ := hv z hz
    exact not_isStopped_of_evaluate (hmem z (List.mem_append_left _ hz)) hv
  · obtain ⟨v, hv, -⟩ | ⟨err', he, hs⟩ := operate_cases limit a b hsl hsr
    · cases hv.symm.trans ho
    · cases he.symm.trans ho
      exact .operation hda hdb hs

theorem evaluate_eq_error_iff_first {p : Formula → Arithmetic.Error → Prop} (h : x.OfIntegers)
    (hp : ∀ {y err}, p y err → y.IsStopped limit err)
    (hf : ∀ {err}, x.evaluate limit = .error err → x.First p err) :
    x.evaluate limit = .error err ↔ x.First p err := by
  refine ⟨hf, fun hx => ?_⟩
  cases he : x.evaluate limit with
  | error err' =>
    have hu : err' = err :=
      first_unique (p := p) (fun h h' => isStopped_unique (hp h) (hp h')) (hf he) hx
    rw [hu]
  | ok v =>
    obtain ⟨before, y, after, hxy, -, hy⟩ := hx
    have hmem : y ∈ x.postorder := by
      rw [hxy]
      exact List.mem_append_right _ List.mem_cons_self
    obtain ⟨w, hw⟩ := ok_of_mem_postorder he hmem
    exact absurd (hp hy) (not_isStopped_of_evaluate (ofIntegers_of_mem_postorder h hmem) hw)

theorem evaluate_eq_error_iff (h : x.OfIntegers) :
    x.evaluate limit = .error err ↔ x.FirstStopped limit err :=
  evaluate_eq_error_iff_first h id (firstStopped_of_evaluate h)

theorem firstRefused_of_firstStopped (h : x.FirstStopped limit err)
    (hc : ∀ c, c.IsOverflow → err ≠ .conversion c) : x.FirstRefused limit err := by
  obtain ⟨before, y, after, hp, hb, hy⟩ := h
  refine ⟨before, y, after, hp, fun z hz err' hz' => ?_, isRefused_of_isStopped hy hc⟩
  exact hb z hz err' (isStopped_of_isRefused hz')

theorem evaluate_eq_error_iff_firstRefused (h : x.OfIntegers)
    (hc : ∀ c, c.IsOverflow → x.evaluate limit ≠ .error (.conversion c)) :
    x.evaluate limit = .error err ↔ x.FirstRefused limit err := by
  apply evaluate_eq_error_iff_first h isStopped_of_isRefused
  intro err hx
  apply firstRefused_of_firstStopped (firstStopped_of_evaluate h hx)
  intro c hcf he
  exact hc c hcf (he ▸ hx)

end Grammar

open Grammar

/-- Whatever an expression of integers evaluates to is the one integer that it denotes. It fails with
the error of the first operation in it that stops. Barring numbers that are too large for the size of a
power to be estimated, that is the first operation that is refused, and without one the expression has
a value. -/
theorem evaluate_of_integers {e : Expression}
    (h : ∀ n, .number n ∈ e.flatten → n.type = .integer) (limit : Nat) :
    (∀ r, e.evaluate limit = .ok r → r.type = .integer ∧
      ∃ v, r.value = .integer v ∧ ∀ w, Denotes e.derivation.formula w ↔ w = v) ∧
    (∀ err, e.evaluate limit = .error err ↔ e.derivation.formula.FirstStopped limit err) ∧
    (∀ c, e.evaluate limit = .error (.conversion c) → c.IsOverflow) ∧
    ((∀ c, c.IsOverflow → e.evaluate limit ≠ .error (.conversion c)) →
      (∀ err, e.evaluate limit = .error err ↔ e.derivation.formula.FirstRefused limit err) ∧
      ((∀ err, ¬ e.derivation.formula.FirstRefused limit err) → ∃ r, e.evaluate limit = .ok r)) := by
  have hi : e.derivation.formula.OfIntegers := by
    apply ofIntegers_formula
    rwa [e.tokens_derivation]
  have he : e.evaluate limit = e.derivation.formula.evaluate limit :=
    (e.eval_formula (fixed limit)).symm
  rw [he]
  refine ⟨?_, fun err => evaluate_eq_error_iff hi, ?_, ?_⟩
  · intro r hr
    obtain ⟨v, rfl, hv⟩ := denotes_of_evaluate hi hr
    refine ⟨rfl, v, rfl, fun w => ⟨fun hw => denotes_functional hw hv, ?_⟩⟩
    intro hw
    rwa [hw]
  · intro c hc
    obtain ⟨-, y, -, -, -, hy⟩ := (evaluate_eq_error_iff hi).mp hc
    exact isOverflow_of_isStopped hy
  · intro hc
    have hr (err : Arithmetic.Error) : e.derivation.formula.evaluate limit = .error err ↔
        e.derivation.formula.FirstRefused limit err := evaluate_eq_error_iff_firstRefused hi hc
    refine ⟨hr, fun hn => ?_⟩
    cases hx : e.derivation.formula.evaluate limit with
    | ok r => exact ⟨r, rfl⟩
    | error err => exact absurd ((hr err).mp hx) (hn err)

/-- A quotient and a negative power of negative numbers, and a division by zero before a power that is
too large. -/
theorem evaluate_of_integers_negative :
    ∃ e e' : Expression,
      e.flatten = [.number (.integer (-7)), .symbol .divide, .number (.integer 2),
        .symbol .subtract, .number (.integer (-1)), .symbol .power, .number (.integer (-3))] ∧
      e.evaluate 64 = .ok (.ofInt (-2)) ∧
      (∀ w, Denotes e.derivation.formula w ↔ w = -2) ∧
      e'.flatten = [.number (.integer 1), .symbol .divide, .number (.integer 0), .symbol .add,
        .number (.integer 2), .symbol .power, .number (.integer 100)] ∧
      e'.evaluate 64 = .error .divisionByZero ∧
      e'.derivation.formula.FirstStopped 64 .divisionByZero ∧
      e'.derivation.formula.FirstRefused 64 .divisionByZero := by
  let literal (n : Int) : Base := .literal (.integer n)
  let quotient (m n : Int) : Term :=
    .mk (.base (literal m)) (.cons .divide (.base (literal n)) .nil)
  let power (m n : Int) : Term := .mk (.power (literal m) (.base (literal n))) .nil
  let e : Expression := .mk (quotient (-7) 2) (.cons .subtract (power (-1) (-3)) .nil)
  let e' : Expression := .mk (quotient 1 0) (.cons .add (power 2 100) .nil)
  have hf : ∀ t ∈ e.flatten ++ e'.flatten, t.kind ≠ .number .decimal := by decide
  have hi {ts : List Token} (hts : ∀ t ∈ ts, t.kind ≠ .number .decimal) :
      ∀ n, .number n ∈ ts → n.type = .integer := by
    intro n hn
    cases n with
    | integer n => rfl
    | decimal x => exact absurd rfl (hts _ hn)
  obtain ⟨he, he'⟩ := List.forall_mem_append.mp hf
  have hv : e.evaluate 64 = .ok (.ofInt (-2)) := by decide +kernel
  have hz : e'.evaluate 64 = .error .divisionByZero := by decide +kernel
  obtain ⟨hd, -⟩ := evaluate_of_integers (hi he) 64
  obtain ⟨-, v, hn, hd⟩ := hd _ hv
  cases hn
  obtain ⟨-, hs, -, hr⟩ := evaluate_of_integers (hi he') 64
  refine ⟨e, e', rfl, hv, hd, rfl, hz, (hs _).mp hz, ((hr ?_).1 _).mp hz⟩
  intro c _ hc
  cases hz.symm.trans hc

end Abacus
