import Abacus.Proofs.Calculation
import Abacus.Proofs.Tree.Spacing

namespace Abacus

namespace Lexer

/-- The tokens that are due in a state between two lexemes. The flag tells whether a number is. -/
inductive Awaits : State → List Token → Bool → Prop
  | start : Awaits .start [] false
  | literal {l : Numeral.Literal} {n : Number}
    (h : (literalState l).settled = .ok [.number n]) : Awaits (literalState l) [.number n] true

variable {s : State} {due ts front back : List Token} {a b : Bool} {n : Number}

theorem settled_of_awaits (h : Awaits s due a) : s.settled = .ok due := by
  cases h with
  | start => rfl
  | literal h => exact h

theorem passes_hyphen : Passes .start ['-', ' '] .start [.symbol .subtract] := by
  have hm (offset : Nat) : read .start offset '-' = .ok (.hyphen, []) := rfl
  have hb (offset : Nat) : read .hyphen offset ' ' = .ok (.start, [.symbol .subtract]) := rfl
  exact .cons hm (passes_singleton hb)

theorem passes_symbol (h : Awaits s due a) (x : Symbol) :
    Passes s (Token.spaced (.symbol x)) .start (due ++ [.symbol x]) := by
  have hv := settled_of_awaits h
  have hs : State.start.settled = .ok [] := rfl
  have hop {c : Char} {y : Symbol} (hc : CharClass.ofChar? c = some .operator)
      (hy : Symbol.ofChar? c = some y) : Passes s [' ', c, ' '] .start (due ++ [.symbol y]) :=
    passes_append (passes_space hv) (passes_append (passes_of_ofChar? hs hc hy) (passes_space hs))
  cases x with
  | add | multiply | divide | power => exact hop rfl rfl
  | subtract => exact passes_append (passes_space hv) passes_hyphen
  | leftParen | rightParen => exact passes_of_ofChar? hv rfl rfl

theorem passes_spaced (h : Apart a ts b) (hs : Awaits s due a)
    (hn : ∀ n, .number n ∈ ts → n.IsRead ∧ n.isFinite = true) :
    ∃ s' due' us, Passes s (ts.flatMap Token.spaced) s' us ∧ Awaits s' due' b ∧
      us ++ due' = due ++ ts := by
  -- A number has nothing after it that ends it, so it is left to the tokens that follow.
  induction h generalizing s due with
  | nil a => exact ⟨s, due, [], .nil s, hs, (List.append_nil due).symm⟩
  | @number b n ts h ih =>
    cases hs
    obtain ⟨hr, hf⟩ := hn n List.mem_cons_self
    obtain ⟨l, hl, hx⟩ := exists_literal_lexeme hr hf
    obtain ⟨s', due', us, hp, ha, he⟩ :=
      ih (.literal hx) fun m hm => hn m (List.mem_cons_of_mem _ hm)
    refine ⟨s', due', us, ?_, ha, he⟩
    rw [List.flatMap_cons]
    exact passes_append (hl ▸ passes_text l) hp
  | @symbol a b x ts h ih =>
    obtain ⟨s', due', us, hp, ha, he⟩ := ih .start fun m hm => hn m (List.mem_cons_of_mem _ hm)
    refine ⟨s', due', due ++ [.symbol x] ++ us, ?_, ha, ?_⟩
    · rw [List.flatMap_cons]
      exact passes_append (passes_symbol hs x) hp
    · rw [List.append_assoc, he]
      simp only [List.nil_append, List.append_assoc, List.cons_append]

theorem scan_spaced (h : Apart false ts b)
    (hn : ∀ n, .number n ∈ ts → n.IsRead ∧ n.isFinite = true) :
    (scan (ts.flatMap Token.spaced)).result = .ok ts := by
  obtain ⟨s', due', us, hp, ha, he⟩ := passes_spaced h .start hn
  rw [scan_of_passes hp (settled_of_awaits ha), he]
  rfl

theorem scan_spaced_not_finite (h : Apart false (front ++ .number n :: back) b)
    (hfront : ∀ m, .number m ∈ front → m.IsRead ∧ m.isFinite = true) (hr : n.IsRead)
    (hf : n.isFinite = false) :
    ∃ i, n.lexeme[i]? = some 'i' ∧
      (scan ((front ++ .number n :: back).flatMap Token.spaced)).result =
        .error ⟨.unrecognized, (front.flatMap Token.spaced).length + i, some 'i'⟩ := by
  obtain ⟨a, hfr, hb⟩ := exists_apart_of_append h
  cases hb
  obtain ⟨s', due', us, hp, ha, -⟩ := passes_spaced hfr .start hfront
  cases ha
  have hi : CharClass.ofChar? 'i' = none := by decide
  have ht : (front ++ .number n :: back).flatMap Token.spaced =
      front.flatMap Token.spaced ++ (n.lexeme ++ back.flatMap Token.spaced) := by
    rw [List.flatMap_append, List.flatMap_cons]
    rfl
  rw [ht]
  obtain hl | hl := lexeme_of_not_isFinite hr hf
  · rw [hl]
    exact ⟨0, rfl, scan_stranger hp hi _⟩
  · have hm (offset : Nat) : read .start offset '-' = .ok (.hyphen, []) := rfl
    have hs := scan_stranger (passes_append hp (passes_singleton hm)) hi
      (['n', 'f'] ++ back.flatMap Token.spaced)
    rw [List.append_assoc, List.length_append] at hs
    rw [hl]
    exact ⟨1, rfl, hs⟩

end Lexer

open Lexer

variable {s : Settings} {source : List Char} {t : Expression}

/-- The text of a tree reads back as that tree if all its numbers are finite. If not, the letters of
the first one that is not are no characters of an expression. -/
theorem tree_text_of_tree (h : Calculation.tree s source = .ok t) :
    ((∀ n, .number n ∈ t.flatten → n.isFinite = true) → Calculation.tree s t.text = .ok t) ∧
    ((∃ n, .number n ∈ t.flatten ∧ n.isFinite = false) →
      ∃ front n back i, t.flatten = front ++ .number n :: back ∧
        (∀ m, .number m ∈ front → m.isFinite = true) ∧ n.isFinite = false ∧
        t.text = front.flatMap Token.spaced ++ (n.lexeme ++ back.flatMap Token.spaced) ∧
        n.lexeme[i]? = some 'i' ∧
        Calculation.tree s t.text = .error (.lexical t.text
          ⟨.unrecognized, (front.flatMap Token.spaced).length + i, some 'i'⟩)) := by
  obtain ⟨b, hb⟩ := t.exists_apart_flatten
  have hr {n : Number} (hn : .number n ∈ t.flatten) : n.IsRead := isRead_of_tree h hn
  constructor
  · intro hf
    refine tree_eq_ok_iff.mpr ⟨?_, (tree_eq_ok_iff.mp h).2⟩
    rw [t.text_eq]
    exact scan_spaced hb fun n hn => ⟨hr hn, hf n hn⟩
  · intro hn
    obtain ⟨front, n, back, ht, hfront, hf⟩ := exists_first_not_finite hn
    rw [ht] at hb
    have hin : .number n ∈ t.flatten := by
      rw [ht]
      exact List.mem_append_right front List.mem_cons_self
    have hm : ∀ m, .number m ∈ front → m.IsRead ∧ m.isFinite = true := by
      intro m hm
      refine ⟨hr ?_, hfront m hm⟩
      rw [ht]
      exact List.mem_append_left _ hm
    obtain ⟨i, hi, hs⟩ := scan_spaced_not_finite hb hm (hr hin) hf
    have htext :
        t.text = front.flatMap Token.spaced ++ (n.lexeme ++ back.flatMap Token.spaced) := by
      rw [t.text_eq, ht, List.flatMap_append, List.flatMap_cons]
      rfl
    refine ⟨front, n, back, i, ht, hfront, hf, htext, hi, tree_eq_lexical ?_⟩
    rw [t.text_eq, ht]
    exact hs

theorem tree_text_of_tree_difference :
    ∃ t : Expression,
      Calculation.tree ⟨2, 64⟩ ['-', '0', '.', '0', '-', '(', '2', ')'] = .ok t ∧
      t.text = ['-', '0', '.', '0', ' ', '-', ' ', '(', '2', ')'] ∧
      Calculation.tree ⟨2, 64⟩ t.text = .ok t := by
  let zero : Term := .mk (.base (.literal (.decimal (.ofBits (2 ^ 63))))) .nil
  let two : Expression := .mk (.mk (.base (.literal (.integer 2))) .nil) .nil
  let t : Expression := .mk zero (.cons .subtract (.mk (.base (.group two)) .nil) .nil)
  have h : Calculation.tree ⟨2, 64⟩ ['-', '0', '.', '0', '-', '(', '2', ')'] = .ok t :=
    tree_eq_ok_iff.mpr ⟨by decide +kernel, by decide⟩
  refine ⟨t, h, by decide +kernel, (tree_text_of_tree h).1 ?_⟩
  intro n hn
  have ht : t.flatten = [.number (.decimal (.ofBits (2 ^ 63))), .symbol .subtract,
      .symbol .leftParen, .number (.integer 2), .symbol .rightParen] := rfl
  rw [ht] at hn
  simp only [List.mem_cons, Token.number.injEq, reduceCtorEq, List.not_mem_nil, false_or,
    or_false] at hn
  obtain rfl | rfl := hn
  · decide +kernel
  · rfl

end Abacus
