/-!
# Stable insertion

Inserting from the right keeps equal elements in order of arrival, so that sorting by insertion
is stable. The comparison `before` need not be an order: an element moves left exactly as long as
it comes before its left neighbour.
-/

namespace RegisterAllocation
namespace Sorting

variable {α : Type}

/-- Inserts `x` into a list that is given in descending order, stopping at the first element that
`x` does not come before. -/
def insertDescending (before : α → α → Bool) (x : α) : List α → List α
  | [] => [x]
  | y :: ys => if before x y then y :: insertDescending before x ys else x :: y :: ys

def sort (before : α → α → Bool) (xs : List α) : List α :=
  (xs.foldl (fun sorted x => insertDescending before x sorted) []).reverse

end Sorting
end RegisterAllocation
