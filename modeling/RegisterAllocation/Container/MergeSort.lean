import RegisterAllocation.Container.Bisection
import RegisterAllocation.Container.Sorting

/-!
# Merge sort

A stable sort: blocks of a list are sorted by insertion and then merged, neighbours with neighbours,
until one is left.

Two runs are merged by halves. If `middle` elements belong into the first half, `cut` of them are
from the left run and the others from the right one. The two halves are then merged on their own.

The comparison `before` need not be an order. Then the result depends on which elements are
compared, and that is what the definitions below fix.
-/

namespace RegisterAllocation
namespace MergeSort

variable {α : Type}

/-- The number of elements that are sorted by insertion. -/
def blockLength : Nat := 20

/-- How many elements of the left run belong into the first `middle` ones of both. An element of the
left run stays unless the one that would take its place comes before it. -/
def cut (before : α → α → Bool) (middle : Nat) (left right : List α) : Nat :=
  bisect
    (fun i =>
      match left[i]?, right[middle - 1 - i]? with
      | some x, some y => !before y x
      | _, _ => true)
    (middle - right.length) (min middle left.length)

/-- Puts an element in front of those in a run that do not come before it. -/
def insertFront (before : α → α → Bool) (x : α) (run : List α) : List α :=
  let i := bisect (fun i => (run[i]?.map (before · x)).getD false) 0 run.length
  run.take i ++ x :: run.drop i

/-- Puts an element behind those in a run that it does not come before. -/
def insertBack (before : α → α → Bool) (y : α) (run : List α) : List α :=
  let i := bisect (fun i => (run[i]?.map (!before y ·)).getD false) 0 run.length
  run.take i ++ y :: run.drop i

/-- Merges two runs. -/
def merge (before : α → α → Bool) (left right : List α) : List α :=
  match left, right with
  | [], right => right
  | left, [] => left
  | [x], right => insertFront before x right
  | left, [y] => insertBack before y left
  | x :: x' :: left, y :: y' :: right =>
    let middle := (left.length + right.length + 4) / 2
    let i := cut before middle (x :: x' :: left) (y :: y' :: right)
    merge before ((x :: x' :: left).take i) ((y :: y' :: right).take (middle - i))
      ++ merge before ((x :: x' :: left).drop i) ((y :: y' :: right).drop (middle - i))
termination_by left.length + right.length
decreasing_by
  · simp only [List.length_take, List.length_cons]
    omega
  · simp only [List.length_drop, List.length_cons]
    omega

/-- Cuts a list into blocks of `length + 1` elements. -/
def blocks (length : Nat) (xs : List α) : List (List α) :=
  match xs with
  | [] => []
  | x :: xs => (x :: xs.take length) :: blocks length (xs.drop length)
termination_by xs.length
decreasing_by simp only [List.length_drop, List.length_cons]; omega

/-- Merges neighbouring runs. -/
def mergePairs (before : α → α → Bool) : List (List α) → List (List α)
  | left :: right :: runs => merge before left right :: mergePairs before runs
  | runs => runs

theorem length_mergePairs_le (before : α → α → Bool) (runs : List (List α)) :
    (mergePairs before runs).length ≤ runs.length := by
  fun_induction mergePairs before runs with
  | case1 left right runs ih => simp only [List.length_cons]; omega
  | case2 => exact Nat.le_refl _

/-- Merges neighbouring runs until one is left. -/
def mergeAll (before : α → α → Bool) (runs : List (List α)) : List α :=
  match runs with
  | [] => []
  | [run] => run
  | left :: right :: runs => mergeAll before (merge before left right :: mergePairs before runs)
termination_by runs.length
decreasing_by
  have := length_mergePairs_le before runs
  simp only [List.length_cons]
  omega

def sort (before : α → α → Bool) (xs : List α) : List α :=
  mergeAll before ((blocks (blockLength - 1) xs).map (Sorting.sort before))

end MergeSort
end RegisterAllocation
