import Reckoner.Text

/-!
# Ranges of code points

A class of characters beyond the first hundred or so is given by a table: pairs of a first and a
last code point, both included.

* `Text.inRanges` -- whether a code point lies in one of the ranges of a table.
-/

namespace Reckoner

namespace Text

/-- Whether a code point lies in one of the ranges of a table. -/
def inRanges (table : List (Nat × Nat)) (n : Nat) : Bool :=
  table.any fun range => range.1 ≤ n && n ≤ range.2

theorem inRanges_eq_true {table : List (Nat × Nat)} {n : Nat} :
    inRanges table n = true ↔ ∃ range ∈ table, range.1 ≤ n ∧ n ≤ range.2 := by
  simp [inRanges]

end Text

end Reckoner
