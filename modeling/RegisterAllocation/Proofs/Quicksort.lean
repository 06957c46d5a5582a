import RegisterAllocation.Container.KeyOrder
import RegisterAllocation.Proofs.Sorting

/-!
# Quicksort exchanges elements

Whatever the comparison, a quicksort only exchanges elements of its array, so that none is lost and
none added. One lemma follows each of its parts, and sorting by words keeps the elements of its list
(`sortByKey_perm`).
-/

namespace RegisterAllocation
namespace Quicksort

open Sorting (swapIfInBounds_perm)

variable {α : Type} (before : α → α → Bool)

/-- Steps that rearrange the array do so together. -/
theorem foldl_perm {β : Type} {f : Array α → β → Array α} (h : ∀ xs b, (f xs b).Perm xs)
    (bs : List β) (xs : Array α) : (bs.foldl f xs).Perm xs := by
  induction bs generalizing xs with
  | nil => exact .refl _
  | cons b bs ih => exact (ih _).trans (h xs b)

theorem foldr_perm {β : Type} {f : β → Array α → Array α} (h : ∀ b xs, (f b xs).Perm xs)
    (bs : List β) (xs : Array α) : (bs.foldr f xs).Perm xs := by
  induction bs with
  | nil => exact .refl _
  | cons b bs ih => exact (h b _).trans ih

/-! ## Insertion -/

/-- Shifting an element down rearranges the array. -/
theorem shiftLeft_perm (low i : Nat) (xs : Array α) : (shiftLeft before low i xs).Perm xs := by
  fun_induction shiftLeft before low i xs with
  | case1 xs => exact .refl _
  | case2 i xs hbefore ih => exact ih.trans (swapIfInBounds_perm _ _ _)
  | case3 i xs hbefore => exact .refl _

/-- Shifting an element up rearranges the array. -/
theorem shiftRight_perm (high i : Nat) (xs : Array α) : (shiftRight before high i xs).Perm xs := by
  fun_induction shiftRight before high i xs with
  | case1 i xs hbefore ih => exact ih.trans (swapIfInBounds_perm _ _ _)
  | case2 i xs hbefore => exact .refl _

/-- Insertion sort rearranges the array. -/
theorem insertion_perm (low high : Nat) (xs : Array α) : (insertion before low high xs).Perm xs :=
  foldl_perm (fun xs i => shiftLeft_perm before low i xs) _ xs

/-- Mending a few places that are out of order rearranges the array. -/
theorem mend_perm (low high shifts i : Nat) (xs : Array α) :
    (mend before low high shifts i xs).1.Perm xs := by
  fun_induction mend before low high shifts i xs with
  | case1 i xs => exact .refl _
  | case2 => exact .refl _
  | case3 => exact .refl _
  | case4 shifts i xs index hindex hlong swapped left right ih =>
    have hleft : left.Perm swapped := by
      simp only [left]
      split
      · exact shiftLeft_perm before _ _ _
      · exact .refl _
    have hright : right.Perm left := by
      simp only [right]
      split
      · exact shiftRight_perm before _ _ _
      · exact .refl _
    exact ih.trans (hright.trans (hleft.trans (swapIfInBounds_perm _ _ _)))

/-! ## Heaps -/

/-- Sinking into a heap rearranges the array. -/
theorem siftDown_perm (low size root : Nat) (xs : Array α) :
    (siftDown before low size root xs).Perm xs := by
  fun_induction siftDown before low size root xs with
  | case1 root xs left hleft child hbefore ih => exact ih.trans (swapIfInBounds_perm _ _ _)
  | case2 => exact .refl _
  | case3 => exact .refl _

/-- Heap sort rearranges the array. -/
theorem heapSort_perm (low high : Nat) (xs : Array α) : (heapSort before low high xs).Perm xs :=
  (foldr_perm
    (fun _ xs => (siftDown_perm before _ _ _ _).trans (swapIfInBounds_perm xs _ _)) _ _).trans
    (foldr_perm (fun _ xs => siftDown_perm before _ _ _ xs) _ xs)

/-! ## Patterns and partitions -/

/-- Reversing a part rearranges the array. -/
theorem reverse_perm (low high : Nat) (xs : Array α) : (reverse low high xs).Perm xs :=
  foldl_perm (fun xs _ => swapIfInBounds_perm xs _ _) _ xs

/-- Swapping elements at random rearranges the array. -/
theorem scatterFrom_perm (low length count index : Nat) (random : UInt64) (xs : Array α) :
    (scatterFrom low length count index random xs).Perm xs := by
  induction count generalizing index random xs with
  | zero => exact .refl _
  | succ count ih => exact (ih _ _ _).trans (swapIfInBounds_perm _ _ _)

theorem scatter_perm (low high : Nat) (xs : Array α) : (scatter low high xs).Perm xs :=
  scatterFrom_perm _ _ _ _ _ xs

/-- Splitting by a condition rearranges the array. -/
theorem split_perm (left : α → Bool) (fuel i stop : Nat) (xs : Array α) :
    (split left fuel i stop xs).2.2.Perm xs := by
  induction fuel generalizing i stop xs with
  | zero => exact .refl _
  | succ fuel ih =>
    rw [split]
    dsimp only
    split
    · exact .refl _
    · exact (ih _ _ _).trans (swapIfInBounds_perm _ _ _)

/-- Splitting a range by its pivot rearranges the array. -/
theorem splitRange_perm (left : α → α → Bool) (low high pivot : Nat) (xs : Array α) :
    (splitRange left low high pivot xs).2.2.Perm xs := by
  rw [splitRange]
  split
  · exact (split_perm _ _ _ _ _).trans (swapIfInBounds_perm _ _ _)
  · exact swapIfInBounds_perm _ _ _

/-- Partitioning rearranges the array. -/
theorem partition_perm (low high pivot : Nat) (xs : Array α) :
    (partition before low high pivot xs).2.2.Perm xs :=
  (swapIfInBounds_perm _ _ _).trans (splitRange_perm _ _ _ _ xs)

/-- Setting equal elements apart rearranges the array. -/
theorem partitionEqual_perm (low high pivot : Nat) (xs : Array α) :
    (partitionEqual before low high pivot xs).2.Perm xs := splitRange_perm _ _ _ _ xs

/-! ## Sorting -/

/-- What is done about patterns before a range is partitioned: it may be scattered, turned round and
mended. -/
theorem patterns_perm {scattered turned mended : Prop} [Decidable scattered] [Decidable turned]
    [Decidable mended] {low high shifts i : Nat} {xs ys : Array α} {sorted : Bool}
    (h : (let xs := if scattered then xs else scatter low high xs
      let xs := if turned then reverse low high xs else xs
      if mended then mend before low high shifts i xs else (xs, false)) = (ys, sorted)) :
    ys.Perm xs := by
  have hscatter : (if scattered then xs else scatter low high xs).Perm xs := by
    split
    · exact .refl _
    · exact scatter_perm _ _ _
  dsimp only at h
  generalize (if scattered then xs else scatter low high xs) = xs' at h hscatter
  have hturn : (if turned then reverse low high xs' else xs').Perm xs := by
    split
    · exact (reverse_perm _ _ _).trans hscatter
    · exact hscatter
  generalize (if turned then reverse low high xs' else xs') = xs'' at h hturn
  split at h
  · rw [show ys = (mend before low high shifts i xs'').1 by rw [h]]
    exact (mend_perm before _ _ _ _ _).trans hturn
  · cases h
    exact hturn

/-- Whatever way is chosen for a range, sorting it rearranges the array. -/
theorem sortRange_perm (fuel low high limit : Nat) (balanced partitioned : Bool) (xs : Array α) :
    (sortRange before fuel low high limit balanced partitioned xs).Perm xs := by
  fun_induction sortRange before fuel low high limit balanced partitioned xs with
  | case1 => exact .refl _
  | case2 => exact insertion_perm before _ _ _
  | case3 => exact heapSort_perm before _ _ _
  | case4 fuel low high limit balanced partitioned xs length _ _ xs' found exchanges _ descending
      xs'' ascending ys hmend => exact patterns_perm before hmend
  | case5 fuel low high limit balanced partitioned xs length _ _ xs' limit' found exchanges _
      descending xs'' pivot ascending ys sorted hmend _ _ border zs hpartition ih =>
    have hzs := partitionEqual_perm before low high pivot ys
    rw [hpartition] at hzs
    exact ih.trans (hzs.trans (patterns_perm before hmend))
  | case6 fuel low high limit balanced partitioned xs length _ _ xs' limit' found exchanges _
      descending xs'' pivot ascending ys sorted hmend _ _ border done zs hpartition _ first
      ih ih' =>
    have hzs := partition_perm before low high pivot ys
    rw [hpartition] at hzs
    exact ih'.trans (ih.trans (hzs.trans (patterns_perm before hmend)))
  | case7 fuel low high limit balanced partitioned xs length _ _ xs' limit' found exchanges _
      descending xs'' pivot ascending ys sorted hmend _ _ border done zs hpartition _ first
      ih ih' =>
    have hzs := partition_perm before low high pivot ys
    rw [hpartition] at hzs
    exact ih'.trans (ih.trans (hzs.trans (patterns_perm before hmend)))

/-- Sorting a list gives a permutation of it. -/
theorem sort_perm (xs : List α) : (sort before xs).Perm xs :=
  (sortRange_perm before _ _ _ _ _ _ _).toList

end Quicksort

/-- Sorting by keys gives a permutation of the list. -/
theorem sortByKey_perm {α : Type} (key : α → Int64) (xs : List α) : (sortByKey key xs).Perm xs := by
  rw [sortByKey]
  split
  · exact Sorting.sort_perm _ xs
  · exact Quicksort.sort_perm _ xs

end RegisterAllocation
