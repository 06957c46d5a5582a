import RegisterAllocation.Container.KeyOrder
import RegisterAllocation.Container.Sorting
import RegisterAllocation.MoveType
import Mathlib.Algebra.Group.Int.Defs

/-!
# Sorting by insertion

Insertion neither loses nor adds elements, whatever the comparison. Where the comparison agrees with
an order, such as that of a key, the elements come out in that order. So do elements that are
compared by the difference of their keys, as long as no difference wraps.
-/

namespace RegisterAllocation
namespace Sorting

variable {α : Type} {before : α → α → Bool}

/-- Exchanging two elements loses none. -/
theorem swapIfInBounds_perm (xs : Array α) (i j : Nat) : (xs.swapIfInBounds i j).Perm xs := by
  rw [Array.swapIfInBounds_def]
  split
  · split
    · exact Array.swap_perm _ _
    · exact .refl _
  · exact .refl _

/-- Inserts `x` into an ascending list, behind every element it does not come before. -/
def insert (before : α → α → Bool) (x : α) (xs : List α) : List α :=
  (insertDescending before x xs.reverse).reverse

/-- Inserting adds one element and loses none. -/
theorem insertDescending_perm (before : α → α → Bool) (x : α) (xs : List α) :
    (insertDescending before x xs).Perm (x :: xs) := by
  fun_induction insertDescending before x xs with
  | case1 => exact .refl _
  | case2 y ys hbefore ih => exact (ih.cons y).trans (.swap x y ys)
  | case3 y ys hbefore => exact .refl _

theorem insert_perm (before : α → α → Bool) (x : α) (xs : List α) :
    (insert before x xs).Perm (x :: xs) := by
  refine (List.reverse_perm _).trans ((insertDescending_perm before x _).trans ?_)
  exact (List.reverse_perm xs).cons x

/-- Sorting loses no element. -/
theorem sort_perm (before : α → α → Bool) (xs : List α) : (sort before xs).Perm xs := by
  have hfold : ∀ sorted : List α,
      (xs.foldl (fun sorted x => insertDescending before x sorted) sorted).Perm (xs ++ sorted) := by
    induction xs with
    | nil => exact fun sorted => .refl _
    | cons x xs ih =>
      intro sorted
      refine (ih _).trans (((insertDescending_perm before x sorted).append_left xs).trans ?_)
      exact List.perm_middle
  refine (List.reverse_perm _).trans ((hfold []).trans ?_)
  rw [List.append_nil]

/-- A list in which no element comes before one on its left is sorted already. -/
theorem sort_eq_self {xs : List α} (h : xs.Pairwise fun x y => before y x = false) :
    sort before xs = xs := by
  have hfold : ∀ sorted : List α, (sorted.reverse ++ xs).Pairwise (fun x y => before y x = false) →
      xs.foldl (fun sorted x => insertDescending before x sorted) sorted =
        xs.reverse ++ sorted := by
    clear h
    induction xs with
    | nil => exact fun sorted _ => rfl
    | cons x xs ih =>
      intro sorted hsorted
      have hinsert : insertDescending before x sorted = x :: sorted := by
        cases sorted with
        | nil => rfl
        | cons y sorted =>
          have hxy : before x y = false :=
            (List.pairwise_append.mp hsorted).2.2 y (by simp) x (by simp)
          simp [insertDescending, hxy]
      rw [List.foldl_cons, hinsert, ih (x :: sorted) (by simpa using hsorted)]
      simp
  rw [sort, hfold [] (by simpa using h), List.append_nil, List.reverse_reverse]

/-- The comparison agrees with an order in which elements may be equivalent. -/
structure Agrees (before : α → α → Bool) (r : α → α → Prop) : Prop where
  trans : ∀ x y z, r x y → r y z → r x z
  le : ∀ x y, before x y = true → r x y
  ge : ∀ x y, before x y = false → r y x

/-- The comparison follows a key. -/
structure Follows (before : α → α → Bool) (key : α → Position) : Prop where
  le : ∀ x y, before x y = true → key x ≤ key y
  ge : ∀ x y, before x y = false → key y ≤ key x

/-- An order that follows a key agrees with the key. -/
theorem Follows.agrees {key : α → Position} (h : Follows before key) :
    Agrees before (key · ≤ key ·) :=
  ⟨fun _ _ _ => Int64.le_trans, h.le, h.ge⟩

section Ordered

variable {r : α → α → Prop} (h : Agrees before r)
include h

/-- Inserting from the end keeps the order. -/
theorem insertDescending_ordered {x : α} {xs : List α} (hxs : xs.Pairwise fun y z => r z y) :
    (insertDescending before x xs).Pairwise fun y z => r z y := by
  fun_induction insertDescending before x xs with
  | case1 => exact List.pairwise_singleton _ _
  | case2 y ys hbefore ih =>
    refine List.pairwise_cons.mpr ⟨fun z hz => ?_, ih hxs.of_cons⟩
    obtain rfl | hz := List.mem_cons.mp ((insertDescending_perm before x ys).subset hz)
    · exact h.le _ _ hbefore
    · exact List.rel_of_pairwise_cons hxs hz
  | case3 y ys hbefore =>
    have hle : r y x := h.ge _ _ (by simpa using hbefore)
    refine List.pairwise_cons.mpr ⟨fun z hz => ?_, hxs⟩
    obtain rfl | hz := List.mem_cons.mp hz
    · exact hle
    · exact h.trans _ _ _ (List.rel_of_pairwise_cons hxs hz) hle

/-- Inserting keeps the order. -/
theorem insert_ordered {x : α} {xs : List α} (hxs : xs.Pairwise r) :
    (insert before x xs).Pairwise r :=
  List.pairwise_reverse.mpr (insertDescending_ordered h (List.pairwise_reverse.mpr hxs))

/-- What is sorted is in order. -/
theorem sort_ordered (xs : List α) : (sort before xs).Pairwise r := by
  have hfold : ∀ sorted : List α, sorted.Pairwise (fun y z => r z y) →
      (xs.foldl (fun sorted x => insertDescending before x sorted) sorted).Pairwise
        fun y z => r z y := by
    induction xs with
    | nil => exact fun sorted hsorted => hsorted
    | cons x xs ih => exact fun sorted hsorted => ih _ (insertDescending_ordered h hsorted)
  exact List.pairwise_reverse.mpr (hfold [] .nil)

end Ordered

theorem insertDescending_congr {before' : α → α → Bool} {x : α} {xs : List α}
    (h : ∀ y ∈ xs, before x y = before' x y) :
    insertDescending before x xs = insertDescending before' x xs := by
  induction xs with
  | nil => rfl
  | cons y ys ih =>
    obtain ⟨hy, hys⟩ := List.forall_mem_cons.mp h
    rw [insertDescending, insertDescending, hy, ih hys]

/-- Only comparisons of elements of the list matter. -/
theorem sort_congr {before' : α → α → Bool} {xs : List α}
    (h : ∀ x ∈ xs, ∀ y ∈ xs, before x y = before' x y) : sort before xs = sort before' xs := by
  have hfold : ∀ ys sorted : List α, (∀ x ∈ ys, ∀ y ∈ ys ++ sorted, before x y = before' x y) →
      ys.foldl (fun sorted x => insertDescending before x sorted) sorted =
        ys.foldl (fun sorted x => insertDescending before' x sorted) sorted := by
    intro ys
    induction ys with
    | nil => exact fun sorted _ => rfl
    | cons x ys ih =>
      intro sorted hsorted
      have hinsert : insertDescending before x sorted = insertDescending before' x sorted :=
        insertDescending_congr fun y hy => hsorted x List.mem_cons_self y (by simp [hy])
      rw [List.foldl_cons, List.foldl_cons, hinsert]
      refine ih _ fun z hz y hy => hsorted z (List.mem_cons_of_mem _ hz) y ?_
      exact (((insertDescending_perm before' x sorted).append_left ys).trans
        List.perm_middle).mem_iff.mp hy
  rw [sort, sort, hfold xs [] (by simpa using h)]

end Sorting

/-! ## Sorting by words -/

section Keys

variable {α : Type} {key : α → Int64} {xs : List α}

/-- The sign of a difference that does not wrap is the order of the words. -/
theorem keyBefore_eq {x y : α} (h : (key x).toInt - (key y).toInt < 2 ^ 63)
    (h' : (key y).toInt - (key x).toInt < 2 ^ 63) : keyBefore key x y = decide (key x < key y) := by
  rw [keyBefore, decide_eq_decide, Int64.lt_iff_toInt_lt, Int64.lt_iff_toInt_lt, Int64.toInt_sub,
    Int.bmod_eq_of_le (by omega) (by omega), Int64.toInt_zero]
  omega

variable (hclose : ∀ x ∈ xs, ∀ y ∈ xs, (key x).toInt - (key y).toInt < 2 ^ 63)
include hclose

/-- The merge sort by keys is the stable sort. -/
theorem stableSortByKey_eq : stableSortByKey key xs = Sorting.sort (keyBefore key) xs := by
  have hkeys : keysClose key xs = true := by simpa [keysClose] using hclose
  rw [stableSortByKey, if_pos hkeys]

theorem stableSortByKey_perm : (stableSortByKey key xs).Perm xs := by
  rw [stableSortByKey_eq hclose]
  exact Sorting.sort_perm _ _

/-- The merge sort by keys gives ascending keys. -/
theorem stableSortByKey_ordered : (stableSortByKey key xs).Pairwise (key · ≤ key ·) := by
  rw [stableSortByKey_eq hclose, Sorting.sort_congr fun x hx y hy =>
    keyBefore_eq (hclose x hx y hy) (hclose y hy x hx)]
  have hfollows : Sorting.Follows (fun x y => decide (key x < key y)) key :=
    ⟨fun x y h => Int64.le_of_lt (of_decide_eq_true h),
      fun x y h => Int64.not_lt.mp (of_decide_eq_false h)⟩
  exact Sorting.sort_ordered hfollows.agrees xs

end Keys

end RegisterAllocation
