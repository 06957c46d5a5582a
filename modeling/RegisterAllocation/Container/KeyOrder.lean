import RegisterAllocation.Container.MergeSort
import RegisterAllocation.Container.Quicksort

/-!
# Sorting by words

Things that have a word as their key are compared by the sign of the difference of their keys. As
long as no difference wraps this is the order of the keys, so that all stable sorts agree and
insertion will do. Otherwise it is no order at all, since it goes round in circles, and the result
is what a particular sort makes of it.
-/

namespace RegisterAllocation

variable {α : Type}

/-- Whether the key of `x` minus the key of `y` is negative. -/
def keyBefore (key : α → Int64) (x y : α) : Bool := key x - key y < 0

/-- Whether no difference of keys wraps. -/
def keysClose (key : α → Int64) (xs : List α) : Bool :=
  xs.all fun x => xs.all fun y => (key x).toInt - (key y).toInt < 0x8000000000000000

/-- Sorts a list in which no two keys are equal. -/
def sortByKey (key : α → Int64) (xs : List α) : List α :=
  if keysClose key xs then Sorting.sort (keyBefore key) xs else Quicksort.sort (keyBefore key) xs

/-- Sorts a list and keeps the order of elements with equal keys. -/
def stableSortByKey (key : α → Int64) (xs : List α) : List α :=
  if keysClose key xs then Sorting.sort (keyBefore key) xs else MergeSort.sort (keyBefore key) xs

end RegisterAllocation
