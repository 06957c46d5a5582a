import RegisterAllocation.Proofs.LiveRange

/-!
# Live ranges as sets of positions

A range whose intervals have positions and come one after another is a set of positions. Two such
ranges conflict exactly if they share a position, and otherwise their union is the set of the
positions of both, with a gap between any two of its intervals.

With gaps there is one way only to write a set of positions as intervals (`Reduced.eq_of_mem_iff`),
so that laws of sets are laws of ranges: the union of ranges that are made from single intervals is
commutative and associative, wherever it exists (`union_algebra`).
-/

namespace RegisterAllocation
namespace LiveRange

variable {x y : Interval} {xs ys : List Interval} {range other taken : LiveRange}
  {position : Position}

@[simp] theorem not_mem_nil : position ∉ (⟨[]⟩ : LiveRange) := by simp [mem_iff]

/-- A position is in the first interval or in the rest. -/
@[simp] theorem mem_cons :
    position ∈ (⟨x :: xs⟩ : LiveRange) ↔ x.Mem position ∨ position ∈ (⟨xs⟩ : LiveRange) := by
  simp [mem_iff]

/-- The intervals have positions, and none stops behind the start of a later one. -/
structure Sorted (range : LiveRange) : Prop where
  proper : Proper range.intervals
  before : range.intervals.Pairwise (·.stop ≤ ·.start)

/-- The intervals have positions, and there is a gap between any two of them. -/
structure Reduced (range : LiveRange) : Prop where
  proper : Proper range.intervals
  gaps : range.intervals.Pairwise (·.stop < ·.start)

/-- Sorted intervals come one after another, and none is empty. -/
theorem sorted_cons : Sorted ⟨x :: xs⟩ ↔
    x.start < x.stop ∧ (∀ y ∈ xs, x.stop ≤ y.start) ∧ Sorted ⟨xs⟩ := by
  constructor
  · rintro ⟨hproper, hbefore⟩
    obtain ⟨hx, hxs⟩ := List.forall_mem_cons.mp hproper
    obtain ⟨hfirst, hrest⟩ := List.pairwise_cons.mp hbefore
    exact ⟨hx, hfirst, hxs, hrest⟩
  · rintro ⟨hx, hfirst, hxs, hrest⟩
    exact ⟨List.forall_mem_cons.mpr ⟨hx, hxs⟩, List.pairwise_cons.mpr ⟨hfirst, hrest⟩⟩

theorem Reduced.sorted (h : range.Reduced) : range.Sorted :=
  ⟨h.proper, h.gaps.imp Int64.le_of_lt⟩

theorem Sorted.ordered (h : range.Sorted) : Ordered range.intervals := by
  refine h.before.imp_of_mem fun hx _ hle => ?_
  have hlt := h.proper _ hx
  grind

/-- The positions of a range come after the start of its first interval. -/
theorem Sorted.start_le (h : Sorted ⟨x :: xs⟩) (hp : position ∈ (⟨x :: xs⟩ : LiveRange)) :
    x.start ≤ position := by
  obtain ⟨hx, hfirst, -⟩ := sorted_cons.mp h
  obtain hp | ⟨y, hy, hp⟩ := mem_cons.mp hp
  · exact hp.1
  · have hle := hfirst y hy
    have hstart := hp.1
    grind

/-! ## Conflicts -/

/-- Sorted intervals meet if and only if they have a position in common. -/
theorem meet_iff (hxs : Sorted ⟨xs⟩) (hys : Sorted ⟨ys⟩) :
    meet xs ys = true ↔
      ∃ position, position ∈ (⟨xs⟩ : LiveRange) ∧ position ∈ (⟨ys⟩ : LiveRange) := by
  fun_induction meet xs ys with
  | case1 ys => simp
  | case2 x xs => simp
  | case3 x xs y ys hle ih =>
    rw [ih (sorted_cons.mp hxs).2.2 hys]
    refine exists_congr fun position => and_congr_left fun hp => ?_
    have hstart := hys.start_le hp
    have hbefore : ¬ x.Mem position := fun hx => by have := hx.2; grind
    simp [hbefore]
  | case4 x xs y ys _ hle ih =>
    rw [ih hxs (sorted_cons.mp hys).2.2]
    refine exists_congr fun position => and_congr_right fun hp => ?_
    have hstart := hxs.start_le hp
    have hbefore : ¬ y.Mem position := fun hy => by have := hy.2; grind
    simp [hbefore]
  | case5 x xs y ys hx hy =>
    have hlt := (sorted_cons.mp hxs).1
    have hlt' := (sorted_cons.mp hys).1
    -- the later one of the two starts lies in both intervals
    have hshared : ∃ position, x.Mem position ∧ y.Mem position := by
      by_cases hle : x.start ≤ y.start
      · exact ⟨y.start, ⟨hle, by grind⟩, Int64.le_refl _, hlt'⟩
      · exact ⟨x.start, ⟨Int64.le_refl _, hlt⟩, by grind, by grind⟩
    obtain ⟨position, hpx, hpy⟩ := hshared
    simp only [true_iff]
    exact ⟨position, by simp [hpx], by simp [hpy]⟩

/-- Ranges are in conflict if and only if they have a position in common. -/
theorem conflicts_iff (hrange : range.Sorted) (hother : other.Sorted) :
    range.conflicts other = true ↔ ∃ position, position ∈ range ∧ position ∈ other :=
  meet_iff hrange hother

/-! ## Union -/

/-- Of two intervals that share no position, the one that starts first stops before the other. -/
theorem stop_le_start (hle : x.start ≤ y.start) (hy : y.start < y.stop)
    (hfree : ∀ position, x.Mem position → ¬ y.Mem position) : x.stop ≤ y.start := by
  by_contra hlt
  exact hfree y.start ⟨hle, Int64.not_le.mp hlt⟩ ⟨Int64.le_refl _, hy⟩

/-- Merging sorted intervals without a common position gives sorted ones. -/
theorem sorted_merge (hxs : Sorted ⟨xs⟩) (hys : Sorted ⟨ys⟩)
    (hfree : ∀ position, position ∈ (⟨xs⟩ : LiveRange) → position ∉ (⟨ys⟩ : LiveRange)) :
    Sorted ⟨merge xs ys⟩ := by
  fun_induction merge xs ys with
  | case1 ys => exact hys
  | case2 x xs => exact hxs
  | case3 x xs y ys hle ih =>
    obtain ⟨hx, hfirst, hrest⟩ := sorted_cons.mp hxs
    have hxy := stop_le_start hle (sorted_cons.mp hys).1 fun position hpx hpy =>
      hfree position (by simp [hpx]) (by simp [hpy])
    refine sorted_cons.mpr ⟨hx, fun z hz => ?_, ih hrest hys fun position hp =>
      hfree position (by simp [hp])⟩
    obtain hz | rfl | hz := (mem_merge.mp hz).imp_right List.mem_cons.mp
    · exact hfirst z hz
    · exact hxy
    · exact Int64.le_trans hxy (List.rel_of_pairwise_cons hys.ordered hz)
  | case4 x xs y ys hle ih =>
    obtain ⟨hy, hfirst, hrest⟩ := sorted_cons.mp hys
    have hle : y.start ≤ x.start := by grind
    have hyx := stop_le_start hle (sorted_cons.mp hxs).1 fun position hpy hpx =>
      hfree position (by simp [hpx]) (by simp [hpy])
    refine sorted_cons.mpr ⟨hy, fun z hz => ?_, ih hxs hrest fun position hp hp' =>
      hfree position hp (by simp [hp'])⟩
    obtain (rfl | hz) | hz := (mem_merge.mp hz).imp_left List.mem_cons.mp
    · exact hyx
    · exact Int64.le_trans hyx (List.rel_of_pairwise_cons hxs.ordered hz)
    · exact hfirst z hz

/-- An interval is put behind others without touching them. -/
theorem reduced_appendInterval (hxs : Reduced ⟨xs⟩) (hx : x.start < x.stop)
    (hbefore : ∀ y ∈ xs, y.stop ≤ x.start) :
    Reduced ⟨appendInterval xs x⟩ ∧ ∀ y ∈ appendInterval xs x, y.stop ≤ x.stop := by
  have hproper := (proper_appendInterval hxs.proper hx).1
  cases xs using List.reverseRecOn with
  | nil => exact ⟨⟨hproper, List.pairwise_singleton _ _⟩, by simp [appendInterval]⟩
  | append_singleton ys last _ =>
    obtain ⟨hys, -, hgap⟩ := List.pairwise_append.mp hxs.gaps
    have hlast : last.start < last.stop := hxs.proper last (by simp)
    have hle : last.stop ≤ x.start := hbefore last (by simp)
    have hgap' : ∀ y ∈ ys, y.stop < last.start := fun y hy => hgap y hy last (by simp)
    rw [appendInterval_concat] at hproper ⊢
    refine ⟨⟨hproper, List.pairwise_append.mpr ⟨hys, ?_, fun y hy => ?_⟩⟩, ?_⟩
    · grind [appendInterval]
    · have := hgap' y hy
      grind [appendInterval]
    · grind [appendInterval]

/-- Adding later intervals one by one keeps the range reduced. -/
theorem reduced_foldl (hrange : range.Reduced) (hys : Sorted ⟨ys⟩)
    (hbefore : ∀ x ∈ range.intervals, ∀ y ∈ ys, x.stop ≤ y.start) :
    (ys.foldl add range).Reduced := by
  induction ys generalizing range with
  | nil => exact hrange
  | cons y ys ih =>
    obtain ⟨hy, hfirst, hrest⟩ := sorted_cons.mp hys
    obtain ⟨hadded, hstop⟩ := reduced_appendInterval hrange hy fun x hx => hbefore x hx y (by simp)
    exact ih hadded hrest fun x hx z hz => Int64.le_trans (hstop x hx) (hfirst z hz)

theorem Sorted.within (h : range.Sorted) :
    ∀ x ∈ range.intervals, x.Within (fun _ => True) fun _ => False :=
  fun x hx => ⟨fun _ => trivial, fun hlt => by have := h.proper x hx; grind⟩

/-- The union of ranges that share no position has the positions of both. -/
theorem exists_union (hrange : range.Sorted) (hother : other.Sorted)
    (hfree : ¬ ∃ position, position ∈ range ∧ position ∈ other) :
    ∃ taken, range.union other = .ok taken ∧ taken.Reduced ∧
      ∀ position, position ∈ taken ↔ position ∈ range ∨ position ∈ other := by
  have hconflicts : ¬ range.conflicts other = true := mt (conflicts_iff hrange hother).mp hfree
  have hunion : range.union other = .ok _ := if_neg hconflicts
  obtain ⟨-, -, hcovers, -⟩ := union_spec (fun _ _ hflips => hflips) hrange.ordered hother.ordered
    hrange.within hother.within hunion
  refine ⟨_, hunion, ?_, fun position => ⟨?_, hcovers position⟩⟩
  · have hempty : Reduced empty := ⟨by simp [Proper, empty], .nil⟩
    refine reduced_foldl hempty (sorted_merge hrange hother fun position hp hp' => ?_)
      (by simp [empty])
    exact hfree ⟨position, hp, hp'⟩
  · exact (proper_union hrange.proper hother.proper hunion).2 position

/-- Ranges with a common position have no union. -/
theorem union_eq_error (hrange : range.Sorted) (hother : other.Sorted)
    (hshared : ∃ position, position ∈ range ∧ position ∈ other) :
    range.union other = .error (.conflictingRanges range.text other.text) :=
  if_pos ((conflicts_iff hrange hother).mpr hshared)

/-! ## One range for each set of positions -/

/-- The first position of a range is that of its first interval. -/
theorem Sorted.start_mem (h : Sorted ⟨x :: xs⟩) : x.start ∈ (⟨x :: xs⟩ : LiveRange) :=
  mem_cons.mpr (.inl ⟨Int64.le_refl _, (sorted_cons.mp h).1⟩)

/-- The positions behind the first interval come after a gap. -/
theorem Reduced.stop_lt (h : Reduced ⟨x :: xs⟩) (hp : position ∈ (⟨xs⟩ : LiveRange)) :
    x.stop < position := by
  obtain ⟨y, hy, hle, -⟩ := hp
  exact Int64.lt_of_lt_of_le (List.rel_of_pairwise_cons h.gaps hy) hle

/-- The first interval of a range ends within that of a larger one. -/
theorem Reduced.first_within (h : Reduced ⟨x :: xs⟩) (h' : Reduced ⟨y :: ys⟩)
    (hsub : ∀ position, position ∈ (⟨x :: xs⟩ : LiveRange) → position ∈ (⟨y :: ys⟩ : LiveRange)) :
    y.start ≤ x.start ∧ (x.start = y.start → x.stop ≤ y.stop) := by
  refine ⟨h'.sorted.start_le (hsub _ h.sorted.start_mem), fun hstart => ?_⟩
  by_contra hlt
  -- otherwise the larger range would have a position in the gap behind its first interval
  have hy : y.start < y.stop := h'.proper y (by simp)
  have hin : x.Mem y.stop := ⟨by grind, by grind⟩
  obtain hmem | hmem := mem_cons.mp (hsub y.stop (mem_cons.mpr (.inl hin)))
  · exact Int64.lt_irrefl hmem.2
  · exact Int64.lt_irrefl (h'.stop_lt hmem)

/-- Ranges with gaps and the same positions have the same intervals. -/
theorem Reduced.eq_of_mem_iff (hrange : range.Reduced) (hother : other.Reduced)
    (h : ∀ position, position ∈ range ↔ position ∈ other) : range = other := by
  obtain ⟨xs⟩ := range
  obtain ⟨ys⟩ := other
  congr 1
  induction xs generalizing ys with
  | nil =>
    cases ys with
    | nil => rfl
    | cons y ys => exact absurd ((h _).mpr hother.sorted.start_mem) not_mem_nil
  | cons x xs ih =>
    cases ys with
    | nil => exact absurd ((h _).mp hrange.sorted.start_mem) not_mem_nil
    | cons y ys =>
      obtain ⟨hge, hstop⟩ := hrange.first_within hother fun position => (h position).mp
      obtain ⟨hle, hstop'⟩ := hother.first_within hrange fun position => (h position).mpr
      have hstart : x.start = y.start := Int64.le_antisymm hle hge
      obtain rfl : x = y := by
        rw [Interval.mk.injEq]
        exact ⟨hstart, Int64.le_antisymm (hstop hstart) (hstop' hstart.symm)⟩
      have hrest : ∀ position, position ∈ (⟨xs⟩ : LiveRange) ↔ position ∈ (⟨ys⟩ : LiveRange) := by
        intro position
        have hmem := h position
        have hpast : position ∈ (⟨xs⟩ : LiveRange) ∨ position ∈ (⟨ys⟩ : LiveRange) →
            ¬ x.Mem position := by
          rintro (hp | hp) hx
          · exact Int64.lt_asymm (hrange.stop_lt hp) hx.2
          · exact Int64.lt_asymm (hother.stop_lt hp) hx.2
        rw [mem_cons, mem_cons] at hmem
        tauto
      rw [ih ⟨(List.forall_mem_cons.mp hrange.proper).2, hrange.gaps.of_cons⟩ ys
        ⟨(List.forall_mem_cons.mp hother.proper).2, hother.gaps.of_cons⟩ hrest]

/-- What it takes for a range to be a union. -/
theorem union_eq_ok_iff (hrange : range.Sorted) (hother : other.Sorted) :
    range.union other = .ok taken ↔ (¬ ∃ position, position ∈ range ∧ position ∈ other) ∧
      taken.Reduced ∧ ∀ position, position ∈ taken ↔ position ∈ range ∨ position ∈ other := by
  by_cases hshared : ∃ position, position ∈ range ∧ position ∈ other
  · simp [union_eq_error hrange hother hshared, hshared]
  · obtain ⟨joined, hunion, hreduced, hmem⟩ := exists_union hrange hother hshared
    constructor
    · intro h
      obtain rfl : joined = taken := Except.ok.inj (hunion.symm.trans h)
      exact ⟨hshared, hreduced, hmem⟩
    · rintro ⟨-, htaken, hmem'⟩
      rw [hunion, hreduced.eq_of_mem_iff htaken fun position =>
        (hmem position).trans (hmem' position).symm]

/-! ## Laws of union -/

/-- The union does not depend on the order. -/
theorem union_comm (hrange : range.Sorted) (hother : other.Sorted) :
    range.union other = .ok taken ↔ other.union range = .ok taken := by
  rw [union_eq_ok_iff hrange hother, union_eq_ok_iff hother hrange]
  simp only [and_comm, or_comm]

/-- Of three ranges that have a union, the last two have one. -/
theorem exists_union_right {third joined : LiveRange} (hrange : range.Sorted)
    (hother : other.Sorted)
    (hthird : third.Sorted) (hjoined : range.union other = .ok joined)
    (htaken : joined.union third = .ok taken) :
    ∃ rest, other.union third = .ok rest ∧ range.union rest = .ok taken := by
  obtain ⟨hfree, hreduced, hmem⟩ := (union_eq_ok_iff hrange hother).mp hjoined
  obtain ⟨hfree', htaken, hmem'⟩ := (union_eq_ok_iff hreduced.sorted hthird).mp htaken
  simp only [hmem, or_and_right, exists_or, not_or] at hfree' hmem'
  obtain ⟨rest, hunion, hrest, hmemrest⟩ := exists_union hother hthird hfree'.2
  refine ⟨rest, hunion, (union_eq_ok_iff hrange hrest.sorted).mpr ⟨?_, htaken, fun position => ?_⟩⟩
  · simp only [hmemrest, and_or_left, exists_or, not_or]
    exact ⟨hfree, hfree'.1⟩
  · rw [hmem', hmemrest, or_assoc]

/-- The union does not depend on the grouping. -/
theorem union_assoc {third : LiveRange} (hrange : range.Sorted) (hother : other.Sorted)
    (hthird : third.Sorted) :
    (∃ joined, range.union other = .ok joined ∧ joined.union third = .ok taken) ↔
      ∃ joined, other.union third = .ok joined ∧ range.union joined = .ok taken := by
  constructor
  · rintro ⟨joined, hjoined, htaken⟩
    exact exists_union_right hrange hother hthird hjoined htaken
  · rintro ⟨joined, hjoined, htaken⟩
    -- the same from the other end, since both unions can be turned round
    have hsorted := ((union_eq_ok_iff hother hthird).mp hjoined).2.1.sorted
    rw [union_comm hother hthird] at hjoined
    rw [union_comm hrange hsorted] at htaken
    obtain ⟨rest, hrest, htaken⟩ := exists_union_right hthird hother hrange hjoined htaken
    have hsorted' := ((union_eq_ok_iff hother hrange).mp hrest).2.1.sorted
    rw [union_comm hother hrange] at hrest
    rw [union_comm hthird hsorted'] at htaken
    exact ⟨rest, hrest, htaken⟩

/-- The ranges that are made from single intervals by union. -/
inductive Built : LiveRange → Prop
  | single {start stop : Position} (h : start < stop) : Built (single start stop)
  | union {range other taken : LiveRange} (hrange : range.Built) (hother : other.Built)
    (h : range.union other = .ok taken) : Built taken

/-- Ranges that are built are reduced. -/
theorem Built.reduced (h : range.Built) : range.Reduced := by
  induction h with
  | single h => exact ⟨by simpa [Proper, LiveRange.single] using h, List.pairwise_singleton _ _⟩
  | union _ _ h ihrange ihother => exact ((union_eq_ok_iff ihrange.sorted ihother.sorted).mp h).2.1

/-- **Live ranges are sets of positions.** Ranges of sorted intervals conflict exactly if they share
a position. Then their union is refused; otherwise it has gaps between its intervals and the
positions of both. On ranges made from single intervals union is commutative and associative: if one
side exists then so does the other, with the same intervals. -/
theorem union_algebra :
    (∀ range other : LiveRange, range.Sorted → other.Sorted →
      (range.conflicts other = true ↔ ∃ position, position ∈ range ∧ position ∈ other) ∧
      ((∃ position, position ∈ range ∧ position ∈ other) →
        range.union other = .error (.conflictingRanges range.text other.text)) ∧
      ((¬ ∃ position, position ∈ range ∧ position ∈ other) →
        ∃ taken, range.union other = .ok taken ∧ taken.Reduced ∧
          ∀ position, position ∈ taken ↔ position ∈ range ∨ position ∈ other)) ∧
    (∀ range other : LiveRange, range.Built → other.Built → ∀ taken,
      range.union other = .ok taken ↔ other.union range = .ok taken) ∧
    ∀ range other third : LiveRange, range.Built → other.Built → third.Built → ∀ taken,
      (∃ joined, range.union other = .ok joined ∧ joined.union third = .ok taken) ↔
        ∃ joined, other.union third = .ok joined ∧ range.union joined = .ok taken := by
  refine ⟨fun range other hrange hother => ?_, fun range other hrange hother taken => ?_,
    fun range other third hrange hother hthird taken => ?_⟩
  · exact ⟨conflicts_iff hrange hother, union_eq_error hrange hother, exists_union hrange hother⟩
  · exact union_comm hrange.reduced.sorted hother.reduced.sorted
  · exact union_assoc hrange.reduced.sorted hother.reduced.sorted hthird.reduced.sorted

/-- An interval that fills the gap between two others joins them, whether it comes first or last,
and nothing can be put on top of it. -/
theorem union_algebra_bridge :
    (single 1 3).union (single 5 7) = .ok ⟨[⟨1, 3⟩, ⟨5, 7⟩]⟩ ∧
      (⟨[⟨1, 3⟩, ⟨5, 7⟩]⟩ : LiveRange).union (single 3 5) = .ok (single 1 7) ∧
      (∃ joined, (single 5 7).union (single 3 5) = .ok joined ∧
        (single 1 3).union joined = .ok (single 1 7)) ∧
      (single 5 7).union (single 1 3) = .ok ⟨[⟨1, 3⟩, ⟨5, 7⟩]⟩ ∧
      (single 1 7).union (single 6 9) =
        .error (.conflictingRanges (single 1 7).text (single 6 9).text) := by
  have hpair : (single 1 3).union (single 5 7) = .ok ⟨[⟨1, 3⟩, ⟨5, 7⟩]⟩ := by decide +kernel
  have hfilled : (⟨[⟨1, 3⟩, ⟨5, 7⟩]⟩ : LiveRange).union (single 3 5) = .ok (single 1 7) := by
    decide +kernel
  have hbuilt : ∀ {start stop : Position}, start < stop → (single start stop).Built := .single
  obtain ⟨hexact, hcomm, hassoc⟩ := union_algebra
  refine ⟨hpair, hfilled, ?_, ?_, ?_⟩
  · exact (hassoc _ _ _ (hbuilt (by decide)) (hbuilt (by decide)) (hbuilt (by decide)) _).mp
      ⟨_, hpair, hfilled⟩
  · exact (hcomm _ _ (hbuilt (by decide)) (hbuilt (by decide)) _).mp hpair
  · refine (hexact _ _ (hbuilt (by decide)).reduced.sorted (hbuilt (by decide)).reduced.sorted).2.1
      ⟨6, ?_, ?_⟩
    · exact mem_single.mpr (by decide)
    · exact mem_single.mpr (by decide)

end LiveRange
end RegisterAllocation
