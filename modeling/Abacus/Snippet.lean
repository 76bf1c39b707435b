namespace Abacus

structure Snippet where
  source : List Char
  offset : Int
  deriving DecidableEq, Repr

namespace Snippet

def line (s : Snippet) : List Char := s.source.map fun c => if c = '\n' ∨ c = '\t' then ' ' else c

/-- A mark under the place, at the margin if the place is before the text. -/
def marker (s : Snippet) : List Char := List.replicate s.offset.toNat ' ' ++ ['^']

def report (s : Snippet) (message : String) : String :=
  .ofList (s.line ++ '\n' :: s.marker ++ ['\n']) ++ message

theorem newline_notMem_line (s : Snippet) : '\n' ∉ s.line := by
  intro h
  obtain ⟨c, _, hc⟩ := List.mem_map.mp h
  split at hc
  · exact absurd hc (by decide)
  · next hn => exact hn (.inl hc)

theorem newline_notMem_marker (s : Snippet) : '\n' ∉ s.marker := by
  simp [marker, List.mem_replicate]

theorem splitOn_report (s : Snippet) {message : String} (h : '\n' ∉ message.toList) :
    (s.report message).toList.splitOn '\n' = [s.line, s.marker, message.toList] := by
  have hr : (s.report message).toList = ['\n'].intercalate [s.line, s.marker, message.toList] := by
    simp [report, List.intercalate]
  rw [hr]
  apply List.splitOn_intercalate
  · simp [newline_notMem_line, newline_notMem_marker, h]
  · simp

end Snippet

end Abacus
