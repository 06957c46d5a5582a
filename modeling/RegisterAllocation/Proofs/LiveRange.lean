import RegisterAllocation.LiveRange
import Mathlib.Data.List.Induction

/-!
# Live ranges keep their positions

Two ranges whose intervals are in the order of their starts are told apart rightly, and their union
has the positions of both. Intervals may be empty or even stop before they start. The latter do harm
in one way only: put behind an interval that stops where they start, they swallow its end. So a
union is right as long as no interval with positions stops where a reversed one starts.
-/

namespace RegisterAllocation

/-- An interval with positions stops where `Ends` holds, and one that stops before it starts does so
where `Flips` holds. -/
structure Interval.Within (Ends Flips : Position → Prop) (interval : Interval) : Prop where
  ends : interval.start < interval.stop → Ends interval.stop
  flips : interval.stop < interval.start → Flips interval.start

namespace LiveRange

variable {Ends Flips : Position → Prop}

/-- The intervals are in the order of their starts. -/
def Ordered (intervals : List Interval) : Prop := intervals.Pairwise (·.start ≤ ·.start)

/-- A position is in a range if it is in one of the intervals. -/
theorem mem_iff {range : LiveRange} {position : Position} :
    position ∈ range ↔ ∃ interval ∈ range.intervals, interval.Mem position := Iff.rfl

/-- A range of one interval has the positions of the interval. -/
theorem mem_single {start stop position : Position} :
    position ∈ single start stop ↔ start ≤ position ∧ position < stop := by
  simp [mem_iff, single, Interval.Mem]

/-- Ranges that do not meet share no position. -/
theorem not_mem_of_meet_eq_false {xs : List Interval} {y : Interval} (hxs : Ordered xs)
    (h : meet xs [y] = false) {x : Interval} (hx : x ∈ xs) {position : Position}
    (hp : x.Mem position) : ¬ y.Mem position := by
  intro hy
  obtain ⟨hxp, hpx⟩ := hp
  obtain ⟨hyp, hpy⟩ := hy
  induction xs with
  | nil => simp at hx
  | cons first rest ih =>
    have hfirst := (List.pairwise_cons.mp hxs).1
    rw [meet] at h
    by_cases hbefore : first.stop ≤ y.start
    · rw [if_pos hbefore] at h
      cases List.mem_cons.mp hx with
      | inl heq => subst heq; grind
      | inr hmem => exact ih hxs.of_cons h hmem
    · rw [if_neg hbefore] at h
      by_cases hafter : y.stop ≤ first.start
      · have hstart : first.start ≤ x.start := by
          cases List.mem_cons.mp hx with
          | inl heq => subst heq; grind
          | inr hmem => exact hfirst x hmem
        grind
      · simp [if_neg hafter] at h

/-- A range without conflict has no position of the interval. -/
theorem not_mem_of_conflicts_eq_false {range : LiveRange} {start stop position : Position}
    (hrange : Ordered range.intervals) (h : range.conflicts (single start stop) = false)
    (hp : position ∈ range) : ¬ (start ≤ position ∧ position < stop) := by
  obtain ⟨interval, hmem, hin⟩ := hp
  exact not_mem_of_meet_eq_false hrange h hmem hin

/-! ## Union -/

/-- Merging keeps every interval and adds none. -/
theorem mem_merge {xs ys : List Interval} {x : Interval} :
    x ∈ merge xs ys ↔ x ∈ xs ∨ x ∈ ys := by
  fun_induction merge xs ys with
  | case1 ys => simp
  | case2 x xs => simp
  | case3 x xs y ys hle ih => simp only [List.mem_cons, ih, or_assoc]
  | case4 x xs y ys hle ih => simp only [List.mem_cons, ih, or_left_comm]

/-- Merging ordered intervals gives ordered ones. -/
theorem ordered_merge {xs ys : List Interval} (hxs : Ordered xs) (hys : Ordered ys) :
    Ordered (merge xs ys) := by
  fun_induction merge xs ys with
  | case1 ys => exact hys
  | case2 x xs => exact hxs
  | case3 x xs y ys hle ih =>
    refine List.pairwise_cons.mpr ⟨fun z hz => ?_, ih hxs.of_cons hys⟩
    have hx := (List.pairwise_cons.mp hxs).1
    have hy := (List.pairwise_cons.mp hys).1
    rw [mem_merge, List.mem_cons] at hz
    obtain hz | rfl | hz := hz
    · exact hx z hz
    · exact hle
    · exact Int64.le_trans hle (hy z hz)
  | case4 x xs y ys hle ih =>
    refine List.pairwise_cons.mpr ⟨fun z hz => ?_, ih hxs hys.of_cons⟩
    have hx := (List.pairwise_cons.mp hxs).1
    have hy := (List.pairwise_cons.mp hys).1
    have hyx : y.start ≤ x.start := by grind
    rw [mem_merge, List.mem_cons] at hz
    obtain (rfl | hz) | hz := hz
    · exact hyx
    · exact Int64.le_trans hyx (hx z hz)
    · exact hy z hz

/-- A list of intervals stands for another: it is in order, within the same bounds, starts nowhere
else and has all of its positions. -/
structure Represents (Ends Flips : Position → Prop) (xs ys : List Interval) : Prop where
  ordered : Ordered xs
  within : ∀ x ∈ xs, x.Within Ends Flips
  starts : ∀ x ∈ xs, ∃ y ∈ ys, x.start = y.start
  covers : ∀ y ∈ ys, ∀ position, y.Mem position → ∃ x ∈ xs, x.Mem position

/-- Two intervals one behind the other become one without losing a position. -/
theorem represents_pair (hdisjoint : ∀ position, Ends position → ¬ Flips position)
    {last interval : Interval} (hle : last.start ≤ interval.start)
    (hlast : last.Within Ends Flips) (hinterval : interval.Within Ends Flips) :
    Represents Ends Flips (appendInterval [last] interval) [last, interval] := by
  rw [appendInterval]
  by_cases hmeet : interval.start = last.stop
  · -- a reversed `interval` can follow an empty `last` only, which has nothing to lose
    have hclash : last.start < last.stop → ¬ interval.stop < interval.start := fun h h' =>
      hdisjoint _ (hlast.ends h) (hmeet ▸ hinterval.flips h')
    have hends := hlast.ends
    have hends' := hinterval.ends
    have hflips := hinterval.flips
    rw [if_pos hmeet]
    refine ⟨by simp [Ordered], ?_, by simp, ?_⟩
    · simp only [List.mem_singleton, forall_eq]
      constructor <;> grind
    · simp only [List.mem_cons, List.not_mem_nil, or_false, forall_eq_or_imp, forall_eq,
        exists_eq_left, Interval.Mem]
      constructor <;> grind
  · rw [if_neg hmeet]
    refine ⟨by simpa [Ordered] using hle, by simp [hlast, hinterval], ?_, ?_⟩
    · exact fun x hx => ⟨x, hx, rfl⟩
    · exact fun y hy position hp => ⟨y, hy, hp⟩

/-- Appending looks at the last interval only. -/
theorem appendInterval_concat (xs : List Interval) (last interval : Interval) :
    appendInterval (xs ++ [last]) interval = xs ++ appendInterval [last] interval := by
  induction xs with
  | nil => rfl
  | cons first rest ih =>
    rw [List.cons_append, List.cons_append, ← ih]
    cases rest <;> rfl

/-- Appending an interval that comes last loses no position. -/
theorem represents_append (hdisjoint : ∀ position, Ends position → ¬ Flips position)
    {xs : List Interval} {interval : Interval} (hordered : Ordered (xs ++ [interval]))
    (hwithin : ∀ x ∈ xs ++ [interval], x.Within Ends Flips) :
    Represents Ends Flips (appendInterval xs interval) (xs ++ [interval]) := by
  cases xs using List.reverseRecOn with
  | nil => exact ⟨hordered, hwithin, fun x hx => ⟨x, hx, rfl⟩, fun y hy _ hp => ⟨y, hy, hp⟩⟩
  | append_singleton ys last _ =>
    have hsplit : ys ++ [last] ++ [interval] = ys ++ [last, interval] := by simp
    rw [hsplit] at hordered hwithin ⊢
    obtain ⟨hys, hpair, hbefore⟩ := List.pairwise_append.mp hordered
    have h := represents_pair hdisjoint
      (List.rel_of_pairwise_cons hpair (List.mem_singleton_self _))
      (hwithin last (by simp)) (hwithin interval (by simp))
    rw [appendInterval_concat]
    refine ⟨List.pairwise_append.mpr ⟨hys, h.ordered, fun x hx z hz => ?_⟩, ?_, ?_, ?_⟩
    · obtain ⟨y, hy, heq⟩ := h.starts z hz
      exact heq ▸ hbefore x hx y hy
    · intro x hx
      cases List.mem_append.mp hx with
      | inl hx => exact hwithin x (List.mem_append_left _ hx)
      | inr hx => exact h.within x hx
    · intro x hx
      cases List.mem_append.mp hx with
      | inl hx => exact ⟨x, List.mem_append_left _ hx, rfl⟩
      | inr hx =>
        obtain ⟨y, hy, heq⟩ := h.starts x hx
        exact ⟨y, List.mem_append_right _ hy, heq⟩
    · intro y hy position hp
      cases List.mem_append.mp hy with
      | inl hy => exact ⟨y, List.mem_append_left _ hy, hp⟩
      | inr hy =>
        obtain ⟨x, hx, hxp⟩ := h.covers y hy position hp
        exact ⟨x, List.mem_append_right _ hx, hxp⟩

/-- Joining intervals one after another loses no position. -/
theorem represents_foldl (hdisjoint : ∀ position, Ends position → ¬ Flips position)
    {range : LiveRange} {xs ys : List Interval} (hrange : Represents Ends Flips range.intervals xs)
    (hordered : Ordered (xs ++ ys)) (hwithin : ∀ y ∈ ys, y.Within Ends Flips) :
    Represents Ends Flips (ys.foldl add range).intervals (xs ++ ys) := by
  induction ys generalizing range xs with
  | nil => simpa using hrange
  | cons y ys ih =>
    have hy : ∀ x ∈ xs, x.start ≤ y.start := fun x hx =>
      (List.pairwise_append.mp hordered).2.2 x hx y (by simp)
    have happend : Represents Ends Flips (appendInterval range.intervals y)
        (range.intervals ++ [y]) := by
      refine represents_append hdisjoint ?_ ?_
      · refine List.pairwise_append.mpr ⟨hrange.ordered, List.pairwise_singleton _ _, ?_⟩
        intro x hx z hz
        obtain ⟨x', hx', heq⟩ := hrange.starts x hx
        rw [List.mem_singleton.mp hz, heq]
        exact hy x' hx'
      · simp only [List.mem_append, List.mem_singleton]
        rintro x (hx | rfl)
        · exact hrange.within x hx
        · exact hwithin x (by simp)
    rw [List.foldl_cons, List.append_cons]
    rw [List.append_cons] at hordered
    refine ih ⟨happend.ordered, happend.within, ?_, ?_⟩ hordered
      (fun z hz => hwithin z (List.mem_cons_of_mem _ hz))
    · intro x hx
      obtain ⟨z, hz, heq⟩ := happend.starts x hx
      simp only [List.mem_append, List.mem_singleton] at hz ⊢
      obtain hz | rfl := hz
      · obtain ⟨w, hw, heq'⟩ := hrange.starts z hz
        exact ⟨w, .inl hw, heq.trans heq'⟩
      · exact ⟨z, .inr rfl, heq⟩
    · intro z hz position hp
      simp only [List.mem_append, List.mem_singleton] at hz
      obtain hz | rfl := hz
      · obtain ⟨w, hw, hwp⟩ := hrange.covers z hz position hp
        exact happend.covers w (by simp [hw]) position hwp
      · exact happend.covers z (by simp) position hp

/-- A union has the positions of both ranges and is in order again. -/
theorem union_spec (hdisjoint : ∀ position, Ends position → ¬ Flips position)
    {range other taken : LiveRange} (hrange : Ordered range.intervals)
    (hother : Ordered other.intervals) (hwithin : ∀ x ∈ range.intervals, x.Within Ends Flips)
    (hwithin' : ∀ x ∈ other.intervals, x.Within Ends Flips) (h : range.union other = .ok taken) :
    Ordered taken.intervals ∧ (∀ x ∈ taken.intervals, x.Within Ends Flips) ∧
      (∀ position, position ∈ range ∨ position ∈ other → position ∈ taken) ∧
      range.conflicts other = false := by
  rw [union] at h
  by_cases hconflicts : range.conflicts other = true
  · simp [hconflicts] at h
  rw [if_neg hconflicts] at h
  obtain rfl : _ = taken := Except.ok.inj h
  have hempty : Represents Ends Flips empty.intervals [] :=
    ⟨List.Pairwise.nil, by simp [empty], by simp [empty], by simp⟩
  have hmerge := represents_foldl hdisjoint hempty (ordered_merge hrange hother) fun y hy =>
    (mem_merge.mp hy).elim (hwithin y) (hwithin' y)
  refine ⟨hmerge.ordered, hmerge.within, ?_, Bool.eq_false_iff.mpr hconflicts⟩
  rintro position (⟨x, hx, hp⟩ | ⟨x, hx, hp⟩)
  · exact hmerge.covers x (mem_merge.mpr (.inl hx)) position hp
  · exact hmerge.covers x (mem_merge.mpr (.inr hx)) position hp

/-! ## Proper intervals

Where every interval has positions, a union adds none, and ranges that are found to meet share one.
-/

/-- All intervals have positions. -/
def Proper (intervals : List Interval) : Prop := ∀ x ∈ intervals, x.start < x.stop

/-- Putting an interval behind others adds no positions but its own. -/
theorem proper_appendInterval {xs : List Interval} {interval : Interval} (hxs : Proper xs)
    (hinterval : interval.start < interval.stop) :
    Proper (appendInterval xs interval) ∧ ∀ z ∈ appendInterval xs interval, ∀ position,
      z.Mem position → interval.Mem position ∨ ∃ x ∈ xs, x.Mem position := by
  fun_induction appendInterval xs interval with
  | case1 interval => simp [Proper, hinterval]
  | case2 last interval hmeet =>
    have hlast : last.start < last.stop := hxs last (by simp)
    simp only [Proper, List.mem_singleton, forall_eq, exists_eq_left, Interval.Mem]
    constructor <;> grind
  | case3 last interval hmeet =>
    refine ⟨List.forall_mem_cons.mpr ⟨hxs last (by simp), by simpa using hinterval⟩, ?_⟩
    simp only [List.mem_cons, List.not_mem_nil, or_false]
    rintro z (rfl | rfl) position hp
    · exact .inr ⟨z, rfl, hp⟩
    · exact .inl hp
  | case4 interval first second rest ih =>
    obtain ⟨hfirst, hrest⟩ := List.forall_mem_cons.mp hxs
    obtain ⟨hproper, hadded⟩ := ih hrest hinterval
    refine ⟨List.forall_mem_cons.mpr ⟨hfirst, hproper⟩, fun z hz position hp => ?_⟩
    obtain rfl | hz := List.mem_cons.mp hz
    · exact .inr ⟨z, by simp, hp⟩
    · obtain hp | ⟨x, hx, hp⟩ := hadded z hz position hp
      · exact .inl hp
      · exact .inr ⟨x, List.mem_cons_of_mem _ hx, hp⟩

/-- Adding proper intervals one by one gives proper intervals, and no other positions. -/
theorem proper_foldl {ys : List Interval} {range : LiveRange} (hrange : Proper range.intervals)
    (hys : Proper ys) :
    Proper (ys.foldl add range).intervals ∧ ∀ position ∈ ys.foldl add range,
      position ∈ range ∨ ∃ y ∈ ys, y.Mem position := by
  induction ys generalizing range with
  | nil => exact ⟨hrange, fun position hp => .inl hp⟩
  | cons y ys ih =>
    obtain ⟨hy, hrest⟩ := List.forall_mem_cons.mp hys
    obtain ⟨happend, hadded⟩ := proper_appendInterval hrange hy
    obtain ⟨hproper, hall⟩ := ih happend hrest
    refine ⟨hproper, fun position hp => ?_⟩
    obtain ⟨z, hz, hp⟩ | ⟨w, hw, hp⟩ := hall position hp
    · obtain hp | hp := hadded z hz position hp
      · exact .inr ⟨y, by simp, hp⟩
      · exact .inl hp
    · exact .inr ⟨w, List.mem_cons_of_mem _ hw, hp⟩

/-- The union of proper ranges is proper, and has no other positions. -/
theorem proper_union {range other taken : LiveRange} (hrange : Proper range.intervals)
    (hother : Proper other.intervals) (h : range.union other = .ok taken) :
    Proper taken.intervals ∧ ∀ position ∈ taken, position ∈ range ∨ position ∈ other := by
  rw [union] at h
  split at h
  · cases h
  cases h
  have hmerge : Proper (merge range.intervals other.intervals) := fun x hx =>
    (mem_merge.mp hx).elim (hrange x) (hother x)
  have hempty : Proper empty.intervals := by simp [Proper, empty]
  obtain ⟨hproper, hall⟩ := proper_foldl hempty hmerge
  refine ⟨hproper, fun position hp => ?_⟩
  obtain ⟨x, hx, -⟩ | ⟨x, hx, hp⟩ := hall position hp
  · exact absurd hx List.not_mem_nil
  · exact (mem_merge.mp hx).imp (fun hx => ⟨x, hx, hp⟩) fun hx => ⟨x, hx, hp⟩

/-- Ranges that meet share a position. -/
theorem exists_mem_of_conflicts {range : LiveRange} {start stop : Position}
    (hrange : Proper range.intervals) (hlt : start < stop)
    (h : range.conflicts (single start stop) = true) :
    ∃ position ∈ range, start ≤ position ∧ position < stop := by
  obtain ⟨intervals⟩ := range
  simp only [conflicts, single] at h
  induction intervals with
  | nil => simp [meet] at h
  | cons first rest ih =>
    obtain ⟨hfirst, hrest⟩ := List.forall_mem_cons.mp hrange
    rw [meet] at h
    split at h
    · obtain ⟨position, ⟨x, hx, hp⟩, hin⟩ := ih hrest h
      exact ⟨position, ⟨x, List.mem_cons_of_mem _ hx, hp⟩, hin⟩
    · split at h
      · simp [meet] at h
      · next hbefore hafter =>
        -- the two intervals share the later one of their starts
        by_cases hle : first.start ≤ start
        · exact ⟨start, ⟨first, by simp, hle, by grind⟩, Int64.le_refl _, hlt⟩
        · exact ⟨first.start, ⟨first, by simp, Int64.le_refl _, hfirst⟩, by grind, by grind⟩

end LiveRange
end RegisterAllocation
