import Abacus.Text.Printable

namespace Abacus.Text.Quoted

open Printable

def hex (width n : Nat) : List Char :=
  (List.range width).reverse.map fun i => (n / Nat.pow 16 i % 16).digitChar

/-- A character as it stands between the quotes `q`. What cannot be seen is spelled by its code, in
the shortest of the three widths that holds it. -/
def escape (q c : Char) : List Char :=
  if c = q ∨ c = '\\' then ['\\', c]
  else if c = '\n' then ['\\', 'n']
  else if c = '\r' then ['\\', 'r']
  else if c = '\t' then ['\\', 't']
  else if isPrintable c then [c]
  else if c.toNat < 0x100 then '\\' :: 'x' :: hex 2 c.toNat
  else if c.toNat < 0x10000 then '\\' :: 'u' :: hex 4 c.toNat
  else '\\' :: 'U' :: hex 8 c.toNat

/-- Single quotes, unless that would force an escape which double quotes avoid. -/
def mark (s : List Char) : Char :=
  if s.contains '\'' && !s.contains '"' then '"' else '\''

def quote (s : List Char) : List Char :=
  mark s :: s.flatMap (escape (mark s)) ++ [mark s]

def quoteString (s : String) : String := String.ofList (quote s.toList)

theorem newline_notMem_hex (width n : Nat) : '\n' ∉ hex width n := by
  have hd : ∀ m < 16, m.digitChar ≠ '\n' := by decide
  simp only [hex, List.mem_map, not_exists, not_and]
  exact fun i _ => hd _ (Nat.mod_lt _ (by decide))

theorem newline_notMem_escape {q : Char} (hq : q ≠ '\n') (c : Char) : '\n' ∉ escape q c := by
  unfold escape
  split
  · next h =>
    have hc : c ≠ '\n' := by
      rintro rfl
      obtain h | h := h
      · exact hq h.symm
      · cases h
    simp [hc.symm]
  · split
    · decide
    · next hc =>
      have hc : '\n' ≠ c := Ne.symm hc
      repeat' split
      all_goals simp [newline_notMem_hex, hc]

theorem newline_notMem_quote (s : List Char) : '\n' ∉ quote s := by
  have hm : mark s ≠ '\n' := by
    unfold mark
    split <;> decide
  simp only [quote, List.cons_append, List.mem_cons, List.mem_append, List.mem_flatMap,
    List.not_mem_nil, or_false, not_or, not_exists, not_and]
  exact ⟨hm.symm, fun c _ => newline_notMem_escape hm c, hm.symm⟩

end Abacus.Text.Quoted
