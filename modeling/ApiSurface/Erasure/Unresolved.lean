import ApiSurface.Sorted.Set
import ApiSurface.Text.Basic

/-!
# Unresolved placeholders

The set of the placeholders that were reported while types were erased.
-/

namespace ApiSurface

/-- The placeholders reported so far. -/
abbrev Unresolved := SortedSet Text

namespace Unresolved

/-- The set with one placeholder more, and whether it is new. -/
def report (s : Unresolved) (p : Text) : Unresolved × Bool := (s.insert p, p ∉ s)

/-- The set with all placeholders of a log. -/
def reportAll (s : Unresolved) (log : List Text) : Unresolved := s.union (.ofList log)

theorem mem_reportAll_iff {s : Unresolved} {log : List Text} {p : Text} :
    p ∈ s.reportAll log ↔ p ∈ s ∨ p ∈ log := by
  rw [reportAll, SortedSet.mem_union_iff, SortedSet.mem_ofList_iff]

end Unresolved

end ApiSurface
