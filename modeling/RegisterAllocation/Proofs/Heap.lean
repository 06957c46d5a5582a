import RegisterAllocation.Container.Heap
import RegisterAllocation.Proofs.Sorting
import Mathlib.Data.List.Basic

/-!
# Heaps stay in order

Both sifts only exchange elements, so nothing is lost. They bring a tree in order that is in order
but for one element: one that may have to rise (`Heap.Rising`) or one that may have to sink
(`Heap.Sinking`). So adding an element and taking the root out keep the order, the root comes first,
and the elements are taken out in order (`Heap.drain_ordered`).
-/

namespace RegisterAllocation
namespace Heap

open Sorting (swapIfInBounds_perm)

variable {α : Type} {before : α → α → Bool} {xs rest : Array α} {i j : Nat} {x y : α}

/-! ## Places -/

theorem parent_lt (h : 0 < i) : parent i < i := by
  unfold parent
  omega

/-- An element has two children at most. -/
theorem eq_child_of_parent (hj : 0 < j) (h : parent j = i) : j = 2 * i + 1 ∨ j = 2 * i + 2 := by
  unfold parent at h
  omega

/-- The first child is a child. -/
theorem parent_firstChild (before : α → α → Bool) (xs : Array α) (i : Nat) :
    parent (firstChild before xs i) = i := by
  unfold firstChild parent
  split <;> omega

/-- Places are compared by their elements. -/
theorem beforeAt_eq (hx : xs[i]? = some x) (hy : xs[j]? = some y) :
    beforeAt before xs i j = before x y := by
  simp [beforeAt, hx, hy]

/-- Two elements change places, and the others stay. -/
theorem getElem?_swapIfInBounds (hi : i < xs.size) (hj : j < xs.size) (k : Nat) :
    (xs.swapIfInBounds i j)[k]? = if k = i then xs[j]? else if k = j then xs[i]? else xs[k]? := by
  rw [Array.swapIfInBounds_def, dif_pos hi, dif_pos hj, Array.getElem?_swap]
  grind

/-! ## Nothing is lost -/

/-- Rising loses no element. -/
theorem siftUp_perm (before : α → α → Bool) (xs : Array α) (i : Nat) :
    (siftUp before xs i).Perm xs := by
  fun_induction siftUp before xs i with
  | case1 => exact .refl _
  | case2 xs i hi hbefore ih => exact ih.trans (swapIfInBounds_perm xs _ _)
  | case3 => exact .refl _

/-- Sinking loses no element. -/
theorem siftDown_perm (before : α → α → Bool) (xs : Array α) (i : Nat) :
    (siftDown before xs i).Perm xs := by
  fun_induction siftDown before xs i with
  | case1 xs i hbefore hsize ih => exact ih.trans (swapIfInBounds_perm xs _ _)
  | case2 => exact .refl _

/-- Adding an element adds just this one. -/
theorem push_perm (before : α → α → Bool) (x : α) (xs : Array α) :
    (push before x xs).toList.Perm (x :: xs.toList) := by
  have hsift := Array.perm_iff_toList_perm.mp (siftUp_perm before (xs.push x) xs.size)
  rw [Array.toList_push] at hsift
  exact hsift.trans (List.perm_append_singleton x xs.toList)

/-- The element that is taken out was at the root. -/
theorem root_of_pop? (h : pop? before xs = some (x, rest)) : xs[0]? = some x := by
  obtain ⟨root, hroot, heq⟩ := Option.map_eq_some_iff.mp h
  cases heq
  exact hroot

/-- Taking an element out takes just this one out. -/
theorem perm_of_pop? (h : pop? before xs = some (x, rest)) : xs.toList.Perm (x :: rest.toList) := by
  have hroot := root_of_pop? h
  obtain ⟨_, -, heq⟩ := Option.map_eq_some_iff.mp h
  cases heq
  have hsize := (Array.getElem?_eq_some_iff.mp hroot).1
  -- the root is the last element for a moment
  have hlast : (xs.swapIfInBounds 0 (xs.size - 1)).toList.getLast? = some x := by
    rw [Array.getLast?_toList, Array.back?, Array.size_swapIfInBounds,
      getElem?_swapIfInBounds hsize (by omega)]
    grind
  obtain ⟨others, hothers⟩ := List.getLast?_eq_some_iff.mp hlast
  have hswap := Array.perm_iff_toList_perm.mp (swapIfInBounds_perm xs 0 (xs.size - 1))
  have hsift := Array.perm_iff_toList_perm.mp
    (siftDown_perm before (xs.swapIfInBounds 0 (xs.size - 1)).pop 0)
  rw [Array.toList_pop, hothers, List.dropLast_concat] at hsift
  rw [hothers] at hswap
  exact hswap.symm.trans ((List.perm_append_singleton x others).trans (hsift.symm.cons x))

/-- Taking all elements out loses none. -/
theorem drain_perm (before : α → α → Bool) (xs : Array α) : (drain before xs).Perm xs.toList := by
  fun_induction drain before xs with
  | case1 xs hnone =>
    obtain hempty := Option.map_eq_none_iff.mp hnone
    have hsize : xs.size ≤ 0 := Array.getElem?_eq_none_iff.mp hempty
    obtain rfl : xs = #[] := Array.eq_empty_of_size_eq_zero (by omega)
    exact .refl _
  | case2 xs x rest hpop hsize ih => exact (ih.cons x).trans (perm_of_pop? hpop).symm

/-! ## Order -/

/-- No element comes before its parent. -/
def Ordered (r : α → α → Prop) (xs : Array α) : Prop :=
  ∀ i x y, 0 < i → xs[parent i]? = some x → xs[i]? = some y → r x y

/-- The elements are in order but for the one at `i`, which may come before its parent. -/
structure Rising (r : α → α → Prop) (xs : Array α) (i : Nat) : Prop where
  others : ∀ j x y, 0 < j → j ≠ i → xs[parent j]? = some x → xs[j]? = some y → r x y
  across : ∀ j x y, 0 < i → 0 < j → parent j = i → xs[parent i]? = some x → xs[j]? = some y → r x y

/-- The elements are in order but for the one at `i`, which may come behind its children. -/
structure Sinking (r : α → α → Prop) (xs : Array α) (i : Nat) : Prop where
  others : ∀ j x y, 0 < j → parent j ≠ i → xs[parent j]? = some x → xs[j]? = some y → r x y
  across : ∀ j x y, 0 < i → 0 < j → parent j = i → xs[parent i]? = some x → xs[j]? = some y → r x y

section Agrees

variable {r : α → α → Prop} (h : Sorting.Agrees before r)
include h

theorem rel_self (x : α) : r x x := by
  cases hx : before x x with
  | true => exact h.le x x hx
  | false => exact h.ge x x hx

/-- In a tree in order the root comes first. -/
theorem Ordered.root (hxs : Ordered r xs) (hx : xs[0]? = some x)
    (hy : xs[i]? = some y) : r x y := by
  induction i using Nat.strongRecOn generalizing y with
  | ind i ih =>
    obtain rfl | hi := Nat.eq_zero_or_pos i
    · obtain rfl : x = y := Option.some.inj (hx.symm.trans hy)
      exact rel_self h x
    · have hlt := parent_lt hi
      have hsize := (Array.getElem?_eq_some_iff.mp hy).1
      have hparent : xs[parent i]? = some xs[parent i] := Array.getElem?_eq_getElem (by omega)
      exact h.trans _ _ _ (ih _ hlt hparent) (hxs i _ _ hi hparent hy)

/-! ## Rising -/

/-- Where an element rises, the rest stays in order. -/
theorem Rising.swap (hxs : Rising r xs i) (hi : 0 < i)
    (hbefore : beforeAt before xs i (parent i) = true) :
    Rising r (xs.swapIfInBounds (parent i) i) (parent i) := by
  obtain ⟨hsize, hsize'⟩ := lt_size_of_beforeAt hbefore
  have hlt := parent_lt hi
  have hchild : xs[i]? = some xs[i] := Array.getElem?_eq_getElem hsize
  have hparent : xs[parent i]? = some xs[parent i] := Array.getElem?_eq_getElem hsize'
  rw [beforeAt_eq hchild hparent] at hbefore
  have hle := h.le _ _ hbefore
  have hget := getElem?_swapIfInBounds hsize' hsize
  constructor
  · intro j x y hj hne hx hy
    rw [hget] at hx hy
    by_cases hji : j = i
    · -- the element itself and its old parent
      subst hji
      grind
    · rw [if_neg hne, if_neg hji] at hy
      by_cases hsibling : parent j = parent i
      · have hold := hxs.others j _ _ hj hji (by rw [hsibling, hparent]) hy
        have hnew := h.trans _ _ _ hle hold
        grind
      · by_cases hbelow : parent j = i
        · have hold := hxs.across j _ _ hi hj hbelow hparent hy
          grind
        · rw [if_neg hsibling, if_neg hbelow] at hx
          exact hxs.others j x y hj hji hx hy
  · intro j x y hp hj hjp hx hy
    have hlt' := parent_lt hp
    rw [hget] at hx hy
    rw [if_neg (by omega), if_neg (by omega)] at hx
    have hup := hxs.others _ _ _ hp (by omega) hx hparent
    by_cases hji : j = i
    · grind
    · have hne : j ≠ parent i := fun heq => by rw [heq] at hjp; omega
      rw [if_neg hne, if_neg hji] at hy
      exact h.trans _ _ _ hup (hxs.others j _ _ hj hji (by rw [hjp, hparent]) hy)

/-- A tree with one element that may have to rise is brought in order. -/
theorem Rising.siftUp (hxs : Rising r xs i) : Ordered r (siftUp before xs i) := by
  fun_induction Heap.siftUp before xs i with
  | case1 xs => exact fun j x y hj => hxs.others j x y hj (by omega)
  | case2 xs i hi hbefore ih => exact ih (hxs.swap h (by omega) hbefore)
  | case3 xs i hi hbefore =>
    intro j x y hj hx hy
    by_cases hji : j = i
    · subst hji
      rw [beforeAt_eq hy hx] at hbefore
      exact h.ge _ _ (by simpa using hbefore)
    · exact hxs.others j x y hj hji hx hy

/-- Adding an element keeps the order. -/
theorem Ordered.push (hxs : Ordered r xs) (x : α) : Ordered r (push before x xs) := by
  refine Rising.siftUp h ⟨fun j x' y hj hne hx' hy => ?_, fun j x' y hi hj hjp hx' hy => ?_⟩
  · have hlt := parent_lt hj
    have hsize := (Array.getElem?_eq_some_iff.mp hy).1
    rw [Array.size_push] at hsize
    rw [Array.getElem?_push, if_neg (by omega)] at hx' hy
    exact hxs j x' y hj hx' hy
  · -- the new element has no children
    have hlt := parent_lt hj
    have hsize := (Array.getElem?_eq_some_iff.mp hy).1
    rw [Array.size_push] at hsize
    omega

/-! ## Sinking -/

/-- The first child comes before every child. -/
theorem rel_firstChild (hj : 0 < j) (hjp : parent j = i) (hy : xs[j]? = some y) :
    ∃ x, xs[firstChild before xs i]? = some x ∧ r x y := by
  have hsize := (Array.getElem?_eq_some_iff.mp hy).1
  have hleft : 2 * i + 1 < xs.size := by
    obtain rfl | rfl := eq_child_of_parent hj hjp <;> omega
  have hget : xs[2 * i + 1]? = some xs[2 * i + 1] := Array.getElem?_eq_getElem hleft
  unfold firstChild
  split
  · next hbefore =>
    have hright := (lt_size_of_beforeAt hbefore).1
    have hget' : xs[2 * i + 2]? = some xs[2 * i + 2] := Array.getElem?_eq_getElem hright
    refine ⟨_, hget', ?_⟩
    rw [beforeAt_eq hget' hget] at hbefore
    obtain rfl | rfl := eq_child_of_parent hj hjp
    · cases hget.symm.trans hy
      exact h.le _ _ hbefore
    · cases hget'.symm.trans hy
      exact rel_self h _
  · next hbefore =>
    refine ⟨_, hget, ?_⟩
    obtain rfl | rfl := eq_child_of_parent hj hjp
    · cases hget.symm.trans hy
      exact rel_self h _
    · rw [beforeAt_eq hy hget] at hbefore
      exact h.ge _ _ (by simpa using hbefore)

/-- Where an element sinks, the rest stays in order. -/
theorem Sinking.swap (hxs : Sinking r xs i)
    (hbefore : beforeAt before xs (firstChild before xs i) i = true) :
    Sinking r (xs.swapIfInBounds i (firstChild before xs i)) (firstChild before xs i) := by
  have hleast := fun j y (hj : 0 < j) (hjp : parent j = i) (hy : xs[j]? = some y) =>
    rel_firstChild h hj hjp hy
  have hlt := lt_firstChild before xs i
  have hpc := parent_firstChild before xs i
  obtain ⟨hsize, hsize'⟩ := lt_size_of_beforeAt hbefore
  generalize firstChild before xs i = c at *
  have hget := getElem?_swapIfInBounds hsize' hsize
  have hself : xs[i]? = some xs[i] := Array.getElem?_eq_getElem hsize'
  have hchild : xs[c]? = some xs[c] := Array.getElem?_eq_getElem hsize
  rw [beforeAt_eq hchild hself] at hbefore
  have hle := h.le _ _ hbefore
  constructor
  · intro j x y hj hne hx hy
    have hjlt := parent_lt hj
    rw [hget] at hx hy
    by_cases hjp : parent j = i
    · rw [if_pos hjp, hchild] at hx
      obtain rfl := Option.some.inj hx
      by_cases hjc : j = c
      · grind
      · rw [if_neg (by omega), if_neg hjc] at hy
        obtain ⟨_, heq, hrel⟩ := hleast j y hj hjp hy
        cases hchild.symm.trans heq
        exact hrel
    · have hjc : j ≠ c := fun heq => hjp (heq ▸ hpc)
      rw [if_neg hjp, if_neg hne] at hx
      by_cases hji : j = i
      · subst hji
        rw [if_pos rfl] at hy
        exact hxs.across c x y hj (by omega) hpc hx hy
      · rw [if_neg hji, if_neg hjc] at hy
        exact hxs.others j x y hj hjp hx hy
  · intro j x y hc hj hjp hx hy
    have hjlt := parent_lt hj
    rw [hget] at hx hy
    rw [if_pos hpc, hchild] at hx
    obtain rfl := Option.some.inj hx
    rw [if_neg (by omega), if_neg (by omega)] at hy
    exact hxs.others j _ y hj (by omega) (by rw [hjp, hchild]) hy

/-- A tree with one element that may have to sink is brought in order. -/
theorem Sinking.siftDown (hxs : Sinking r xs i) : Ordered r (siftDown before xs i) := by
  fun_induction Heap.siftDown before xs i with
  | case1 xs i hbefore hsize ih => exact ih (hxs.swap h hbefore)
  | case2 xs i hbefore =>
    intro j x y hj hx hy
    by_cases hjp : parent j = i
    · obtain ⟨first, hfirst, hrel⟩ := rel_firstChild h hj hjp hy
      rw [hjp] at hx
      rw [beforeAt_eq hfirst hx] at hbefore
      exact h.trans _ _ _ (h.ge _ _ (by simpa using hbefore)) hrel
    · exact hxs.others j x y hj hjp hx hy

/-- Taking the root out keeps the order. -/
theorem Ordered.of_pop? (hxs : Ordered r xs) (hpop : pop? before xs = some (x, rest)) :
    Ordered r rest := by
  obtain ⟨root, hroot, heq⟩ := Option.map_eq_some_iff.mp hpop
  cases heq
  have hsize := (Array.getElem?_eq_some_iff.mp hroot).1
  have hget := getElem?_swapIfInBounds hsize (show xs.size - 1 < xs.size by omega)
  refine Sinking.siftDown h ⟨fun j x y hj hne hx hy => ?_, fun j x y hi => by omega⟩
  have hlt := parent_lt hj
  rw [Array.getElem?_pop, Array.size_swapIfInBounds, hget] at hx hy
  grind [Ordered]

/-- The elements are taken out in order. -/
theorem drain_ordered (hxs : Ordered r xs) : (drain before xs).Pairwise r := by
  fun_induction drain before xs with
  | case1 => exact .nil
  | case2 xs x rest hpop hsize ih =>
    refine List.pairwise_cons.mpr ⟨fun y hy => ?_, ih (hxs.of_pop? h hpop)⟩
    have hmem : y ∈ xs.toList := (perm_of_pop? hpop).mem_iff.mpr
      (List.mem_cons_of_mem x ((drain_perm before rest).mem_iff.mp hy))
    obtain ⟨i, hi⟩ := List.mem_iff_getElem?.mp hmem
    rw [Array.getElem?_toList] at hi
    exact hxs.root h (root_of_pop? hpop) hi

end Agrees

theorem ordered_empty (r : α → α → Prop) : Ordered r #[] := by
  simp [Ordered]

end Heap
end RegisterAllocation
