/-!
# Bisection

Looking for the place in a range of numbers where a condition stops to hold.
-/

namespace RegisterAllocation

/-- Halves the range from `low` up to but not including `high` until it is empty: above a number
that satisfies `p`, else below it. If `p` holds up to some number and not from there on, the result
is that number. -/
def bisect (p : Nat → Bool) (low high : Nat) : Nat :=
  if low < high then
    let middle := (low + high) / 2
    if p middle then bisect p (middle + 1) high else bisect p low middle
  else low
termination_by high - low

end RegisterAllocation
