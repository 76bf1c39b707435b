import Abacus.Node.Record
import Abacus.Proofs.Outcome

namespace Abacus

open Node Node.Assembly Node.Record Outcome

mutual

def Base.record : Base → Record
  | .literal n => .base (some (Token.number n).parts) .nothing
  | .group e => .base none e.record

def Factor.record : Factor → Record
  | .base b => .factor b.record .nothing
  | .power b e => .factor b.record e.record

def TermTail.record : TermTail → Record
  | .nil => .tail .product none .nothing .nothing
  | .cons op f t => .tail .product (some (Token.symbol op.symbol).parts) f.record t.record

def Term.record : Term → Record
  | .mk f t => .chain .product f.record t.record

def ExpressionTail.record : ExpressionTail → Record
  | .nil => .tail .sum none .nothing .nothing
  | .cons op t r => .tail .sum (some (Token.symbol op.symbol).parts) t.record r.record

def Expression.record : Expression → Record
  | .mk t r => .chain .sum t.record r.record

end

namespace Node

def record : Node → Record
  | base b => b.record
  | factor f => f.record
  | termTail t => t.record
  | term t => t.record
  | expressionTail t => t.record
  | expression e => e.record

def recordOf : Option Node → Record
  | none => .nothing
  | some n => n.record

end Node

theorem Token.ofParts_parts (t : Token) : Token.ofParts t.parts.kind t.parts.value = .ok t := by
  cases t with
  | number n => exact Token.ofParts_kind n
  | symbol s => rfl

theorem Token.parts_of_ofParts {k : Kind} {v : Option Number} {t : Token}
    (h : Token.ofParts k v = .ok t) : t.parts = ⟨k, v⟩ := by
  cases k with
  | symbol s =>
    cases v with
    | none => cases h; rfl
    | some n => cases h
  | number u =>
    cases v with
    | none => cases h
    | some n =>
      by_cases hn : n.type = u
      · subst hn
        rw [Token.ofParts, if_pos rfl] at h
        cases h
        rfl
      · rw [Token.ofParts, if_neg hn] at h
        cases h

namespace Node.Record

theorem checkToken_parts (t : Option Token) : checkToken (t.map Token.parts) = .ok t := by
  cases t with
  | none => rfl
  | some t =>
    rw [Option.map_some, checkToken, Token.ofParts_parts]
    rfl

theorem parts_of_checkToken {p : Option Token.Parts} {t : Option Token}
    (h : checkToken p = .ok t) : t.map Token.parts = p := by
  cases p with
  | none => cases h; rfl
  | some p =>
    obtain ⟨u, hu, rfl⟩ := map_eq_ok_iff.mp h
    rw [Option.map_some, Token.parts_of_ofParts (mapError_eq_ok_iff.mp hu)]

section

variable {α β : Type} {as? : Node → Option α} {inj : α → Node} {p : Option Node}

theorem required_partOf (h : ∀ n a, as? n = some a → n = inj a) {a : α}
    (hp : required as? (partOf p) = .ok a) : p = some (inj a) := by
  cases p with
  | none => cases hp
  | some n =>
    cases ha : as? n with
    | none => simp [required, partOf, ha] at hp
    | some b =>
      obtain rfl := h n b ha
      simp only [required, partOf, ha] at hp
      obtain rfl := Except.ok.inj hp
      rfl

theorem optional_partOf (h : ∀ n a, as? n = some a → n = inj a) {a : Option α}
    (hp : Assembly.optional as? (partOf p) = .ok a) : p = a.map inj := by
  cases p with
  | none =>
    cases hp
    rfl
  | some n =>
    cases ha : as? n with
    | none => simp [Assembly.optional, partOf, ha] at hp
    | some b =>
      obtain rfl := h n b ha
      simp only [Assembly.optional, partOf, ha] at hp
      obtain rfl := Except.ok.inj hp
      rfl

theorem defaulted_partOf (default : α) :
    defaulted as? default (partOf p) = required as? (partOf p) := by
  cases p <;> rfl

theorem both_eq_ok {f g : Field} {x : Except Problem α} {y : Except Problem β} {r : α × β}
    (h : both f x g y = .ok r) : x = .ok r.1 ∧ y = .ok r.2 := by
  cases x with
  | error e => cases y <;> cases h
  | ok a =>
    cases y with
    | error e => cases h
    | ok b =>
      cases h
      exact ⟨rfl, rfl⟩

end

theorem eq_of_asBase? (n : Node) (b : Base) (h : asBase? n = some b) : n = .base b := by
  cases n <;> cases h
  rfl

theorem eq_of_asFactor? (n : Node) (f : Factor) (h : asFactor? n = some f) : n = .factor f := by
  cases n <;> cases h
  rfl

theorem eq_of_asTermTail? (n : Node) (t : TermTail) (h : asTermTail? n = some t) :
    n = .termTail t := by
  cases n <;> cases h
  rfl

theorem eq_of_asTerm? (n : Node) (t : Term) (h : asTerm? n = some t) : n = .term t := by
  cases n <;> cases h
  rfl

theorem eq_of_asExpressionTail? (n : Node) (t : ExpressionTail)
    (h : asExpressionTail? n = some t) : n = .expressionTail t := by
  cases n <;> cases h
  rfl

theorem eq_of_asExpression? (n : Node) (e : Expression) (h : asExpression? n = some e) :
    n = .expression e := by
  cases n <;> cases h
  rfl

variable {t : Option Token} {p q : Option Node}

theorem record_of_makeBase {b : Base} (h : makeBase t (partOf p) = .ok b) :
    b.record = .base (t.map Token.parts) (recordOf p) := by
  unfold makeBase at h
  cases hp : optional asExpression? (partOf p) with
  | error e =>
    rw [hp] at h
    cases h
  | ok e =>
    rw [hp] at h
    obtain rfl := optional_partOf eq_of_asExpression? hp
    cases e with
    | none =>
      cases t with
      | none => cases h
      | some t => cases t <;> cases h; rfl
    | some e =>
      cases t with
      | none => cases h; rfl
      | some t => cases t <;> cases h

theorem record_of_makeFactor {f : Factor} (h : makeFactor (partOf p) (partOf q) = .ok f) :
    f.record = .factor (recordOf p) (recordOf q) := by
  obtain ⟨⟨b, e⟩, hr, h⟩ := bind_eq_ok_iff.mp h
  obtain ⟨hb, he⟩ := both_eq_ok hr
  obtain rfl := required_partOf eq_of_asBase? hb
  obtain rfl := optional_partOf eq_of_asFactor? he
  cases e <;> cases h <;> rfl

theorem record_of_makeTermTail {r : TermTail} (h : makeTermTail t (partOf p) (partOf q) = .ok r) :
    r.record = .tail .product (t.map Token.parts) (recordOf p) (recordOf q) := by
  obtain ⟨⟨f, rest⟩, hb, hr⟩ := bind_eq_ok_iff.mp h
  obtain ⟨hf, hrest⟩ := both_eq_ok hb
  obtain rfl := optional_partOf eq_of_asFactor? hf
  obtain rfl := optional_partOf eq_of_asTermTail? hrest
  split at hr
  · next he =>
    cases he
    cases hr
    rfl
  · next u a b he =>
    cases he
    split at hr
    · next op ho =>
      obtain rfl := MulOp.ofToken?_eq_some_iff.mp ho
      cases hr
      rfl
    · cases hr
  · cases hr

theorem record_of_makeTerm {x : Term} (h : makeTerm (partOf p) (partOf q) = .ok x) :
    x.record = .chain .product (recordOf p) (recordOf q) := by
  obtain ⟨⟨f, rest⟩, hb, hr⟩ := bind_eq_ok_iff.mp h
  obtain ⟨hf, hrest⟩ := both_eq_ok hb
  rw [defaulted_partOf] at hrest
  obtain rfl := required_partOf eq_of_asFactor? hf
  obtain rfl := required_partOf eq_of_asTermTail? hrest
  cases hr
  rfl

theorem record_of_makeExpressionTail {r : ExpressionTail}
    (h : makeExpressionTail t (partOf p) (partOf q) = .ok r) :
    r.record = .tail .sum (t.map Token.parts) (recordOf p) (recordOf q) := by
  obtain ⟨⟨x, rest⟩, hb, hr⟩ := bind_eq_ok_iff.mp h
  obtain ⟨hx, hrest⟩ := both_eq_ok hb
  obtain rfl := optional_partOf eq_of_asTerm? hx
  obtain rfl := optional_partOf eq_of_asExpressionTail? hrest
  split at hr
  · next he =>
    cases he
    cases hr
    rfl
  · next u a b he =>
    cases he
    split at hr
    · next op ho =>
      obtain rfl := AddOp.ofToken?_eq_some_iff.mp ho
      cases hr
      rfl
    · cases hr
  · cases hr

theorem record_of_makeExpression {e : Expression}
    (h : makeExpression (partOf p) (partOf q) = .ok e) :
    e.record = .chain .sum (recordOf p) (recordOf q) := by
  obtain ⟨⟨x, rest⟩, hb, hr⟩ := bind_eq_ok_iff.mp h
  obtain ⟨hx, hrest⟩ := both_eq_ok hb
  rw [defaulted_partOf] at hrest
  obtain rfl := required_partOf eq_of_asTerm? hx
  obtain rfl := required_partOf eq_of_asExpressionTail? hrest
  cases hr
  rfl

theorem eq_recordOf_of_check {x : Record} (h : x.check = .ok p) : x = recordOf p := by
  induction x generalizing p with
  | nothing =>
    cases h
    rfl
  | base number e ih =>
    obtain ⟨t, ht, h⟩ := bind_eq_ok_iff.mp h
    obtain ⟨q, hq, h⟩ := bind_eq_ok_iff.mp h
    obtain ⟨n, hn, rfl⟩ := map_eq_ok_iff.mp h
    obtain ⟨b, hb, rfl⟩ := map_eq_ok_iff.mp (mapError_eq_ok_iff.mp hn)
    rw [ih hq, ← parts_of_checkToken ht]
    exact (record_of_makeBase hb).symm
  | factor b e ihb ihe =>
    obtain ⟨p', hp, h⟩ := bind_eq_ok_iff.mp h
    obtain ⟨q, hq, h⟩ := bind_eq_ok_iff.mp h
    obtain ⟨n, hn, rfl⟩ := map_eq_ok_iff.mp h
    obtain ⟨f, hf, rfl⟩ := map_eq_ok_iff.mp (mapError_eq_ok_iff.mp hn)
    rw [ihb hp, ihe hq]
    exact (record_of_makeFactor hf).symm
  | tail l op x rest ihx ihr =>
    obtain ⟨t, ht, h⟩ := bind_eq_ok_iff.mp h
    obtain ⟨p', hp, h⟩ := bind_eq_ok_iff.mp h
    obtain ⟨q, hq, h⟩ := bind_eq_ok_iff.mp h
    obtain ⟨n, hn, rfl⟩ := map_eq_ok_iff.mp h
    rw [ihx hp, ihr hq, ← parts_of_checkToken ht]
    cases l with
    | product =>
      obtain ⟨r, hr, rfl⟩ := map_eq_ok_iff.mp (mapError_eq_ok_iff.mp hn)
      exact (record_of_makeTermTail hr).symm
    | sum =>
      obtain ⟨r, hr, rfl⟩ := map_eq_ok_iff.mp (mapError_eq_ok_iff.mp hn)
      exact (record_of_makeExpressionTail hr).symm
  | chain l x rest ihx ihr =>
    obtain ⟨p', hp, h⟩ := bind_eq_ok_iff.mp h
    obtain ⟨q, hq, h⟩ := bind_eq_ok_iff.mp h
    obtain ⟨n, hn, rfl⟩ := map_eq_ok_iff.mp h
    rw [ihx hp, ihr hq]
    cases l with
    | product =>
      obtain ⟨t, ht, rfl⟩ := map_eq_ok_iff.mp (mapError_eq_ok_iff.mp hn)
      exact (record_of_makeTerm ht).symm
    | sum =>
      obtain ⟨e, he, rfl⟩ := map_eq_ok_iff.mp (mapError_eq_ok_iff.mp hn)
      exact (record_of_makeExpression he).symm

end Node.Record

mutual

theorem Base.check_record : ∀ b : Base, b.record.check = .ok (some (.base b))
  | .literal n => by
    rw [Base.record, check, ← Option.map_some, checkToken_parts]
    rfl
  | .group e => by
    rw [Base.record, check, e.check_record]
    rfl

theorem Factor.check_record : ∀ f : Factor, f.record.check = .ok (some (.factor f))
  | .base b => by
    rw [Factor.record, check, b.check_record]
    rfl
  | .power b e => by
    rw [Factor.record, check, b.check_record, e.check_record]
    rfl

theorem TermTail.check_record : ∀ t : TermTail, t.record.check = .ok (some (.termTail t))
  | .nil => rfl
  | .cons op f t => by
    rw [TermTail.record, check, f.check_record, t.check_record]
    cases op <;> rfl

theorem Term.check_record : ∀ t : Term, t.record.check = .ok (some (.term t))
  | .mk f t => by
    rw [Term.record, check, f.check_record, t.check_record]
    rfl

theorem ExpressionTail.check_record :
    ∀ t : ExpressionTail, t.record.check = .ok (some (.expressionTail t))
  | .nil => rfl
  | .cons op t r => by
    rw [ExpressionTail.record, check, t.check_record, r.check_record]
    cases op <;> rfl

theorem Expression.check_record : ∀ e : Expression, e.record.check = .ok (some (.expression e))
  | .mk t r => by
    rw [Expression.record, check, t.check_record, r.check_record]
    rfl

end

/-- The constructors accept trees, with nothing where a part may be left out, and accept no other
object. -/
theorem Node.Record.check_eq_ok_iff {x : Record} {p : Option Node} :
    x.check = .ok p ↔ x = recordOf p := by
  constructor
  · exact eq_recordOf_of_check
  · rintro rfl
    cases p with
    | none => rfl
    | some n =>
      cases n with
      | base b => exact b.check_record
      | factor f => exact f.check_record
      | termTail t => exact t.check_record
      | term t => exact t.check_record
      | expressionTail t => exact t.check_record
      | expression e => exact e.check_record

end Abacus
