import Abacus.Proofs.Node.Assembly
import Abacus.Proofs.Tree.Typing

namespace Abacus

open Arithmetic Outcome

namespace Node.Record

variable {limit : Nat} {layer : Layer}

/-- A loop over the segments of a tail, which breaks off where the segments do. -/
def along {α : Type} (f : α → Token.Parts × Record → Except Error α) (xs : Segments) (a : α) :
    Except Error α := do
  let a ← xs.1.foldlM f a
  match xs.2 with
  | none => .ok a
  | some e => .error e

theorem along_cons {α : Type} (f : α → Token.Parts × Record → Except Error α)
    (s : Token.Parts × Record) (xs : Segments) (a : α) :
    along f (s :: xs.1, xs.2) a = f a s >>= along f xs := by
  simp only [along, List.foldlM_cons, bind_assoc]
  rfl

theorem applyFrom_eq (x : Record) (acc : Result) : x.applyFrom limit layer acc =
    along (fun acc s => s.2.evaluate limit >>= binary s.1.kind acc) (segmentsFrom layer x) acc := by
  induction x generalizing acc with
  | tail l op operand rest _ ih =>
    cases op with
    | none => rfl
    | some op =>
      by_cases hl : l = layer
      · by_cases ho : operand.isNothing
        · simp [applyFrom, segmentsFrom, hl, ho, along]
        · simp [applyFrom, segmentsFrom, hl, ho, along_cons, ih]
      · simp [applyFrom, segmentsFrom, hl, along]
  | nothing | base | factor | chain => rfl

theorem typeFrom_eq (x : Record) (t : NumberType) : x.typeFrom layer t =
    along (fun t s => t.join <$> s.2.type) (segmentsFrom layer x) t := by
  induction x generalizing t with
  | tail l op operand rest _ ih =>
    cases op with
    | none => rfl
    | some op =>
      by_cases hl : l = layer
      · by_cases ho : operand.isNothing
        · simp [typeFrom, segmentsFrom, hl, ho, along]
        · simp [typeFrom, segmentsFrom, hl, ho, along_cons, ih]
      · simp [typeFrom, segmentsFrom, hl, along]
  | nothing | base | factor | chain => rfl

theorem decimalBinary_eq (k : Kind) (x y : Float) :
    decimalBinary k x y = (Arithmetic.decimalBinary k x y).mapError Error.arithmetic := by
  cases k with
  | number t => rfl
  | symbol s => cases s <;> rfl

theorem binary_eq (k : Kind) (l r : Result) : binary k l r =
    (Arithmetic.binary k (.ofResult l) (.ofResult r)).mapError Error.arithmetic := by
  have hr : (Operand.ofResult r).value.isZero = r.value.isZero := rfl
  rw [binary, Arithmetic.binary, hr]
  by_cases hz : k = .symbol .divide ∧ r.value.isZero
  · rw [if_pos hz, if_pos hz]
    rfl
  · rw [if_neg hz, if_neg hz]
    cases ht : l.type.join r.type with
    | decimal => simp [Operand.ofResult, ht, mapError_bind, decimalBinary_eq]
    | integer => simp [Operand.ofResult, ht, mapError_bind]

theorem literal_parts (n : Number) : literal (some (Token.number n).parts) = .ok (.ofNumber n) := by
  cases n <;> rfl

theorem isNothing_record (n : Node) : n.record.isNothing = false := by
  rcases n with (_ | _) | (_ | _) | (_ | _) | (_ | _) | (_ | _) | (_ | _) <;> rfl

end Node.Record

open Node Node.Record

section

variable (limit : Nat)

mutual

theorem Base.evaluate_record : ∀ b : Base,
    b.record.evaluate limit = (b.eval (fixed limit)).mapError .arithmetic
  | .literal n => literal_parts n
  | .group e => by
    have he : e.record.isNothing = false := isNothing_record (.expression e)
    rw [Base.record, Record.evaluate, he]
    exact e.evaluate_record

theorem Factor.evaluate_record : ∀ f : Factor,
    f.record.evaluate limit = (f.eval (fixed limit)).mapError .arithmetic
  | .base b => by
    rw [Factor.record, Record.evaluate, b.evaluate_record, Factor.eval]
    exact bind_pure _
  | .power b e => by
    have he : e.record.isNothing = false := isNothing_record (.factor e)
    rw [Factor.record, Record.evaluate, b.evaluate_record, he, e.evaluate_record, Factor.eval]
    simp only [mapError_bind]
    rfl

theorem TermTail.applyFrom_record : ∀ (t : TermTail) (acc : Result),
    t.record.applyFrom limit .product acc = (t.apply (fixed limit) acc).mapError .arithmetic
  | .nil, _ => rfl
  | .cons op f t, acc => by
    have hf : f.record.isNothing = false := isNothing_record (.factor f)
    rw [TermTail.record, Record.applyFrom, hf, f.evaluate_record, TermTail.apply]
    simp only [mapError_bind, binary_eq, t.applyFrom_record, ofExcept_eq]
    rfl

theorem Term.evaluate_record : ∀ t : Term,
    t.record.evaluate limit = (t.eval (fixed limit)).mapError .arithmetic
  | .mk f t => by
    have ht : t.record.tailLayer? = some .product := by cases t <;> rfl
    rw [Term.record, Record.evaluate, f.evaluate_record, ht, Term.eval]
    simp only [mapError_bind, t.applyFrom_record]

theorem ExpressionTail.applyFrom_record : ∀ (t : ExpressionTail) (acc : Result),
    t.record.applyFrom limit .sum acc = (t.apply (fixed limit) acc).mapError .arithmetic
  | .nil, _ => rfl
  | .cons op x r, acc => by
    have hx : x.record.isNothing = false := isNothing_record (.term x)
    rw [ExpressionTail.record, Record.applyFrom, hx, x.evaluate_record, ExpressionTail.apply]
    simp only [mapError_bind, binary_eq, r.applyFrom_record, ofExcept_eq]
    rfl

theorem Expression.evaluate_record : ∀ e : Expression,
    e.record.evaluate limit = (e.eval (fixed limit)).mapError .arithmetic
  | .mk t r => by
    have hr : r.record.tailLayer? = some .sum := by cases r <;> rfl
    rw [Expression.record, Record.evaluate, t.evaluate_record, hr, Expression.eval]
    simp only [mapError_bind, r.applyFrom_record]

end

end

mutual

theorem Base.type_record : ∀ b : Base, b.record.type = .ok b.type
  | .literal n => by cases n <;> rfl
  | .group e => by
    have he : e.record.isNothing = false := isNothing_record (.expression e)
    rw [Base.record, Record.type, he]
    exact e.type_record

theorem Factor.type_record : ∀ f : Factor, f.record.type = .ok f.type
  | .base b => b.type_record
  | .power b e => by
    have he : e.record.isNothing = false := isNothing_record (.factor e)
    rw [Factor.record, Record.type, b.type_record, he, e.type_record]
    rfl

theorem TermTail.typeFrom_record : ∀ (t : TermTail) (acc : NumberType),
    t.record.typeFrom .product acc = .ok (acc.join t.type)
  | .nil, acc => by
    rw [TermTail.type, join_integer]
    rfl
  | .cons op f t, acc => by
    have hf : f.record.isNothing = false := isNothing_record (.factor f)
    rw [TermTail.record, Record.typeFrom, hf, f.type_record, TermTail.type, ← join_assoc]
    exact t.typeFrom_record _

theorem Term.type_record : ∀ t : Term, t.record.type = .ok t.type
  | .mk f t => by
    have ht : t.record.tailLayer? = some .product := by cases t <;> rfl
    rw [Term.record, Record.type, f.type_record, ht, Term.type]
    simp only [t.typeFrom_record]
    cases t.type <;> rfl

theorem ExpressionTail.typeFrom_record : ∀ (t : ExpressionTail) (acc : NumberType),
    t.record.typeFrom .sum acc = .ok (acc.join t.type)
  | .nil, acc => by
    rw [ExpressionTail.type, join_integer]
    rfl
  | .cons op x r, acc => by
    have hx : x.record.isNothing = false := isNothing_record (.term x)
    rw [ExpressionTail.record, Record.typeFrom, hx, x.type_record, ExpressionTail.type, ← join_assoc]
    exact r.typeFrom_record _

theorem Expression.type_record : ∀ e : Expression, e.record.type = .ok e.type
  | .mk t r => by
    have hr : r.record.tailLayer? = some .sum := by cases r <;> rfl
    rw [Expression.record, Record.type, t.type_record, hr, Expression.type]
    simp only [r.typeFrom_record]
    cases r.type <;> rfl

end

theorem segmentsFrom_factors (xs : List (MulOp × Factor)) :
    segmentsFrom .product (TermTail.ofList xs).record =
      (xs.map fun s => ((Token.symbol s.1.symbol).parts, s.2.record), none) := by
  induction xs with
  | nil => rfl
  | cons s xs ih =>
    have hs : s.2.record.isNothing = false := isNothing_record (.factor s.2)
    rw [TermTail.ofList, TermTail.record, segmentsFrom, hs, ih]
    rfl

theorem segmentsFrom_terms (xs : List (AddOp × Term)) :
    segmentsFrom .sum (ExpressionTail.ofList xs).record =
      (xs.map fun s => ((Token.symbol s.1.symbol).parts, s.2.record), none) := by
  induction xs with
  | nil => rfl
  | cons s xs ih =>
    have hs : s.2.record.isNothing = false := isNothing_record (.term s.2)
    rw [ExpressionTail.ofList, ExpressionTail.record, segmentsFrom, hs, ih]
    rfl

namespace Node

theorem tailLayer?_record (n : Node) : n.record.tailLayer? =
    match n.form with
    | .termTail => some .product
    | .expressionTail => some .sum
    | _ => none := by
  rcases n with (_ | _) | (_ | _) | (_ | _) | (_ | _) | (_ | _) | (_ | _) <;> rfl

theorem segments_record {n : Node} {xs : List (Symbol × Node)} (h : n.segments? = some xs) :
    n.record.segments = (xs.map fun s => ((Token.symbol s.1).parts, s.2.record), none) := by
  rw [Record.segments, tailLayer?_record]
  cases n with
  | termTail t =>
    cases h
    have ht := segmentsFrom_factors t.toList
    rw [t.ofList_toList] at ht
    rw [List.map_map]
    exact ht
  | expressionTail t =>
    cases h
    have ht := segmentsFrom_terms t.toList
    rw [t.ofList_toList] at ht
    rw [List.map_map]
    exact ht
  | base | factor | term | expression => cases h

/-- The object of a node has the value of the node, or breaks off with its error. -/
theorem evaluate_record (limit : Nat) (n : Node) :
    n.record.evaluate limit = (n.evaluate limit).mapError .node := by
  cases n with
  | base b =>
    rw [evaluate, mapError_mapError]
    exact b.evaluate_record limit
  | factor f =>
    rw [evaluate, mapError_mapError]
    exact f.evaluate_record limit
  | term t =>
    rw [evaluate, mapError_mapError]
    exact t.evaluate_record limit
  | expression e =>
    rw [evaluate, mapError_mapError]
    exact e.evaluate_record limit
  | termTail t => cases t <;> rfl
  | expressionTail t => cases t <;> rfl

theorem type_record (n : Node) : n.record.type = n.type.mapError .node := by
  cases n with
  | base b => exact b.type_record
  | factor f => exact f.type_record
  | term t => exact t.type_record
  | expression e => exact e.type_record
  | termTail t => cases t <;> rfl
  | expressionTail t => cases t <;> rfl

end Node

end Abacus
