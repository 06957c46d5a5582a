/-!
# Sets of characters given by ranges

A character class of a standard is a sorted table of ranges of code points. The classes of this
library are ASCII tests together with such a table for the rest.
-/

namespace RegisterAllocation

/-- A set of code points as inclusive ranges in ascending order. -/
abbrev CodeRanges := Array (Nat × Nat)

/-- A character belongs to the set when one of the ranges covers it. -/
def CodeRanges.contains (table : CodeRanges) (c : Char) : Bool :=
  table.any fun range => range.1 ≤ c.toNat && c.toNat ≤ range.2

end RegisterAllocation
