/-!
# Ranges of code points

A character property is given by the closed ranges of code points that have it, in ascending order.
-/

namespace Schemata.Text

/-- A table of closed ranges of code points. -/
abbrev Ranges := List (Nat × Nat)

def Ranges.contains (table : Ranges) (code : Nat) : Bool :=
  table.any fun range => range.1 ≤ code && code ≤ range.2

theorem Ranges.contains_iff (table : Ranges) (code : Nat) :
    table.contains code = true ↔ ∃ range ∈ table, range.1 ≤ code ∧ code ≤ range.2 := by
  simp [Ranges.contains]

end Schemata.Text
