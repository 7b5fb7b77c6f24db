/-!
# `inRanges` — sets of characters as ranges of code points
-/

set_option autoImplicit false

namespace RowQuery

/-- Whether the character lies in one of the ranges, whose ends belong to them. -/
def inRanges (ranges : List (Nat × Nat)) (c : Char) : Bool :=
  ranges.any fun (first, last) => first ≤ c.toNat && c.toNat ≤ last

end RowQuery
