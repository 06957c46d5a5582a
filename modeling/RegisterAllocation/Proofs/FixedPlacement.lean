import RegisterAllocation.Proofs.Coverage
import RegisterAllocation.Proofs.Orderly
import Mathlib.Order.Bounds.Basic

/-!
# Where fixed registers are

The arguments are in a row from register zero on, pinned values are where they have to be, and the
inputs of a range are in a row among the allocatable registers. All of them keep their registers,
since the scan leaves them alone.

The base of a range is the lowest one at which its inputs get in the way of nothing that was placed
before (`Allocator.run_places_fixed`). For this the table of fixed registers has to say of every
slot exactly when it is taken (`Reserved.Tracked`), and it does as long as intervals have positions.
An argument that is a constant can do without. Its interval then keeps ranges away although it is
never live, or hides a value that is (`Allocator.idle_argument_misplaces_ranges`).
-/

namespace RegisterAllocation

/-! ## Rows -/

namespace CodeUnit

variable {u : CodeUnit} {v : ValueId} {vs : List ValueId}

/-- In a row every value is where those before it end. -/
theorem exists_mem_row {register : Register} (hnonneg : 0 ≤ register.toInt)
    (hbound : register.toInt + u.totalWidth vs < 2 ^ 63) {i : Nat} (hi : vs[i]? = some v) :
    ∃ place : Register, place.toInt = register.toInt + u.totalWidth (vs.take i) ∧
      u.whole v place ∈ u.row register vs := by
  induction vs generalizing register i with
  | nil => simp at hi
  | cons w vs ih =>
    have hadd := toInt_add_width hnonneg hbound
    have hwidth := u.pool.toInt_width w
    rw [totalWidth_cons] at hbound
    cases i with
    | zero =>
      obtain rfl : w = v := by simpa using hi
      exact ⟨register, by simp, by simp [row]⟩
    | succ i =>
      obtain ⟨place, hplace, hmem⟩ :=
        @ih (register + u.pool.width w) (by omega) (by omega) i (by simpa using hi)
      refine ⟨place, ?_, List.mem_cons_of_mem _ hmem⟩
      rw [hplace, hadd, List.take_succ_cons, totalWidth_cons]
      omega

/-- From `base` on, values in a row keep out of the way of a piece: they are not live at a position
at which it holds a slot of theirs. -/
def RowAvoids (u : CodeUnit) (base : Int) (vs : List ValueId) (piece : Piece) : Prop :=
  ∀ i v, vs[i]? = some v → ∀ position (slot : Register), (u.value v).liveAt position = true →
    piece.covers position = true → base + u.totalWidth (vs.take i) ≤ slot.toInt →
    slot.toInt < base + u.totalWidth (vs.take (i + 1)) → piece.usesSlot u.pool slot = false

/-- A row avoids a piece if its first value and the rest do. -/
theorem rowAvoids_cons {base : Int} {piece : Piece} :
    u.RowAvoids base (v :: vs) piece ↔
      (∀ position (slot : Register), (u.value v).liveAt position = true →
        piece.covers position = true → base ≤ slot.toInt →
        slot.toInt < base + (u.pool.width v).toInt → piece.usesSlot u.pool slot = false) ∧
      u.RowAvoids (base + (u.pool.width v).toInt) vs piece := by
  constructor
  · intro h
    constructor
    · simpa using h 0 v rfl
    · intro i w hi
      have hw := h (i + 1) w (by simpa using hi)
      simp only [List.take_succ_cons, totalWidth_cons, ← Int.add_assoc] at hw
      exact hw
  · rintro ⟨hfirst, hrest⟩ i w hi
    cases i with
    | zero =>
      obtain rfl : v = w := by simpa using hi
      simpa using hfirst
    | succ i =>
      have hw := hrest i w (by simpa using hi)
      simpa only [List.take_succ_cons, totalWidth_cons, ← Int.add_assoc] using hw

/-! ## What is placed before a range -/

/-- A value has its register when the ranges of `earlier` have been dealt with. -/
def FixedBefore (u : CodeUnit) (earlier : List InstrId) (v : ValueId) : Prop :=
  v ∈ u.arguments ∨ (v ∈ u.values ∧ ∃ register, u.IsPinned v register) ∨
    v ∈ earlier.flatMap u.rangeInputs

/-- The parts of a unit belong together, as in units that are built step by step: its values are
distinct, its arguments are too and are marked as such, and its instructions use values that know of
it. -/
structure Arranged (u : CodeUnit) : Prop where
  values : u.values.Nodup
  arguments : u.arguments.Nodup
  marked : ∀ v ∈ u.values, (u.value v).isArgument = true ↔ v ∈ u.arguments
  inputs : ∀ i ∈ u.instrs, ∀ v ∈ (u.instr i).inputs, v ∈ u.values ∧ i ∈ (u.value v).uses

end CodeUnit

/-! ## The table of fixed registers -/

namespace Reserved

variable {u : CodeUnit} {config : Config} {reserved placed : Reserved} {v : ValueId}
  {vs : List ValueId}

/-- The table says of every slot at which positions it is taken. -/
structure Tracked (u : CodeUnit) (reserved : Reserved) : Prop extends Exact u reserved where
  ordered : ∀ slot, LiveRange.Ordered (reserved.rangeAt slot).intervals
  complete : ∀ piece ∈ reserved.pieces, ∀ slot, piece.usesSlot u.pool slot = true →
    ∀ position, piece.covers position = true → position ∈ reserved.rangeAt slot

/-- Placing a value keeps track of what slots hold. -/
theorem Tracked.of_place (h : reserved.Tracked u) {register : Register}
    (hv : (u.value v).hasInterval = true)
    (hplace : reserved.place u config v register = .ok placed) : placed.Tracked u := by
  obtain ⟨-, hpieces, htaken, hkept⟩ := place_spec hplace
  have hwithin : ∀ {intervals : List Interval}, LiveRange.Proper intervals →
      ∀ x ∈ intervals, x.Within (fun _ => True) fun _ => False :=
    fun hproper x hx => ⟨fun _ => trivial, fun hlt => by have := hproper x hx; grind⟩
  have hlive : LiveRange.Proper (liveRange u v).intervals := by
    simpa [LiveRange.Proper, liveRange, LiveRange.single, Value.hasInterval] using hv
  have hunion : ∀ slot ∈ (u.value v).type.span register, _ := fun slot hslot =>
    LiveRange.union_spec (fun _ _ hflips => hflips) (h.ordered slot) (List.pairwise_singleton _ _)
      (hwithin (h.proper slot)) (hwithin hlive) (htaken slot hslot)
  refine ⟨h.toExact.of_place hv hplace, fun slot => ?_, fun piece hpiece slot huses => ?_⟩
  · by_cases hslot : slot ∈ (u.value v).type.span register
    · exact (hunion slot hslot).1
    · rw [hkept slot hslot]
      exact h.ordered slot
  · intro position hcovers
    rw [hpieces, List.mem_append, List.mem_singleton] at hpiece
    by_cases hslot : slot ∈ (u.value v).type.span register
    · apply (hunion slot hslot).2.2.1
      obtain hpiece | rfl := hpiece
      · exact .inl (h.complete piece hpiece slot huses position hcovers)
      · rw [Piece.covers_iff] at hcovers
        exact .inr (LiveRange.mem_single.mpr hcovers)
    · rw [hkept slot hslot]
      obtain hpiece | rfl := hpiece
      · exact h.complete piece hpiece slot huses position hcovers
      · rw [Piece.usesSlot_iff_mem_span] at huses
        exact absurd huses hslot

/-- Whatever is placed from nothing keeps track of what slots hold. -/
theorem Places.tracked (h : Places u config {} reserved)
    (hintervals : ∀ v ∈ reserved.pieces.map (·.value), (u.value v).hasInterval = true) :
    reserved.Tracked u := by
  induction h with
  | refl => exact ⟨exact_empty u, fun _ => .nil, by simp⟩
  | place _ hplace ih =>
    rw [(place_spec hplace).2.1, List.map_append] at hintervals
    refine (ih fun v hv => hintervals v (List.mem_append_left _ hv)).of_place ?_ hplace
    exact hintervals _ (by simp)

/-- A slot is free for a value if and only if no piece takes it while the value is live. -/
theorem Tracked.conflicts_eq_false_iff (h : reserved.Tracked u)
    (hv : (u.value v).hasInterval = true) {slot : Register} :
    (reserved.rangeAt slot).conflicts (liveRange u v) = false ↔
      ∀ piece ∈ reserved.pieces, ∀ position, (u.value v).liveAt position = true →
        piece.covers position = true → piece.usesSlot u.pool slot = false := by
  have hlt : (u.value v).start < (u.value v).stop := by simpa [Value.hasInterval] using hv
  constructor
  · intro hfree piece hpiece position hlive hcovers
    by_contra huses
    have hmem := h.complete piece hpiece slot (by simpa using huses) position hcovers
    exact LiveRange.not_mem_of_conflicts_eq_false (h.ordered slot) hfree hmem
      (by simpa [Value.liveAt] using hlive)
  · intro hfree
    by_contra hconflicts
    obtain ⟨position, hmem, hlive⟩ :=
      LiveRange.exists_mem_of_conflicts (h.proper slot) hlt
      (Bool.eq_true_of_not_eq_false hconflicts)
    obtain ⟨piece, hpiece, huses, hcovers⟩ := h.user slot position hmem
    have hunused := hfree piece hpiece position (by simpa [Value.liveAt] using hlive) hcovers
    simp [huses] at hunused

/-- Values fit in a row if and only if they keep out of the way of all pieces. -/
theorem Tracked.fitsAt_iff (h : reserved.Tracked u)
    (hvs : ∀ v ∈ vs, (u.value v).hasInterval = true) {register : Register}
    (hnonneg : 0 ≤ register.toInt) (hbound : register.toInt + u.totalWidth vs < 2 ^ 63) :
    reserved.fitsAt u register vs = true ↔
      ∀ piece ∈ reserved.pieces, u.RowAvoids register.toInt vs piece := by
  induction vs generalizing register with
  | nil => simp [fitsAt, CodeUnit.RowAvoids]
  | cons v vs ih =>
    obtain ⟨hv, hvs⟩ := List.forall_mem_cons.mp hvs
    have hadd := CodeUnit.toInt_add_width hnonneg hbound
    have hwidth := u.pool.toInt_width v
    have hspan : ∀ slot, slot ∈ (u.value v).type.span register ↔
        register.toInt ≤ slot.toInt ∧ slot.toInt < register.toInt + (u.pool.width v).toInt := by
      intro slot
      rw [MoveType.mem_span, Int64.le_iff_toInt_le, Int64.lt_iff_toInt_lt, ← hadd]
      rfl
    have hfirst : ((u.value v).type.span register).all (fun slot =>
        !(reserved.rangeAt slot).conflicts (liveRange u v)) = true ↔
        ∀ slot ∈ (u.value v).type.span register, ∀ piece ∈ reserved.pieces, ∀ position,
          (u.value v).liveAt position = true → piece.covers position = true →
            piece.usesSlot u.pool slot = false := by
      simp only [List.all_eq_true, Bool.not_eq_true', h.conflicts_eq_false_iff hv]
    rw [CodeUnit.totalWidth_cons] at hbound
    rw [fitsAt, Bool.and_eq_true, hfirst,
      ih hvs (by omega) (by omega), hadd]
    simp only [CodeUnit.rowAvoids_cons, hspan]
    constructor
    · rintro ⟨hslots, hrest⟩ piece hpiece
      exact ⟨fun position slot hlive hcovers hlow hhigh =>
        hslots slot ⟨hlow, hhigh⟩ piece hpiece position hlive hcovers, hrest piece hpiece⟩
    · intro hall
      exact ⟨fun slot hslot piece hpiece position hlive hcovers =>
        (hall piece hpiece).1 position slot hlive hcovers hslot.1 hslot.2,
        fun piece hpiece => (hall piece hpiece).2⟩

/-! ## Who has a fixed register -/

/-- Ranges can be placed in two parts. -/
theorem placeRanges_append {earlier later : List InstrId} {seen : List (ValueId × InstrId)}
    (h : placeRanges u config reserved seen (earlier ++ later) = .ok placed) :
    ∃ middle seen', Places u config reserved middle ∧
      middle.pieces.map (·.value) =
        reserved.pieces.map (·.value) ++ earlier.flatMap u.rangeInputs ∧
      placeRanges u config middle seen' later = .ok placed := by
  induction earlier generalizing reserved seen with
  | nil => exact ⟨reserved, seen, .refl, by simp, h⟩
  | cons i earlier ih =>
    obtain ⟨hother, h⟩ | ⟨hinvoke, seen', width, base, next, -, -, hrow, h⟩ := placeRanges_cons h
    · obtain ⟨middle, seen', hplaces, hvalues, h⟩ := ih h
      have hnone := CodeUnit.rangeInputs_eq_nil hother
      exact ⟨middle, seen', hplaces, by simp [hvalues, hnone], h⟩
    · obtain ⟨middle, seen', hplaces, hvalues, h⟩ := ih h
      refine ⟨middle, seen', (places_placeRow hrow).trans hplaces, ?_, h⟩
      rw [hvalues, values_placeRow hrow]
      simp [CodeUnit.rangeInputs, hinvoke]

/-- The values of ranges are placed in the order of the instructions. -/
theorem values_placeRanges {is : List InstrId} {seen : List (ValueId × InstrId)}
    (h : placeRanges u config reserved seen is = .ok placed) :
    placed.pieces.map (·.value) = reserved.pieces.map (·.value) ++ is.flatMap u.rangeInputs := by
  rw [← List.append_nil is] at h
  obtain ⟨middle, seen', -, hvalues, h⟩ := placeRanges_append h
  cases h
  exact hvalues

/-- The inputs of a range are neither arguments nor pinned. -/
theorem free_of_checkRange {i : InstrId} {seen : List (ValueId × InstrId)} {width : Int64}
    {checked : List (ValueId × InstrId) × Int64}
    (h : checkRange u i seen width vs = .ok checked) :
    ∀ v ∈ vs, (u.value v).isArgument = false ∧ (u.value v).fixed = none := by
  induction vs generalizing seen width with
  | nil => simp
  | cons v vs ih =>
    obtain ⟨-, hargument, hfixed, h⟩ := checkRange_cons h
    exact List.forall_mem_cons.mpr ⟨⟨hargument, hfixed⟩, ih h⟩

/-- The inputs of ranges are all different, and have no register before. -/
theorem inputs_of_placeRanges {is : List InstrId} {seen : List (ValueId × InstrId)}
    (hnodup : (seen.map Prod.fst).Nodup)
    (h : placeRanges u config reserved seen is = .ok placed) :
    (is.flatMap u.rangeInputs ++ seen.map Prod.fst).Nodup ∧
      ∀ v ∈ is.flatMap u.rangeInputs, (u.value v).isArgument = false ∧
      (u.value v).fixed = none := by
  induction is generalizing reserved seen with
  | nil => simpa using hnodup
  | cons i is ih =>
    obtain ⟨hother, h⟩ | ⟨hinvoke, seen', width, base, next, hcheck, -, -, h⟩ := placeRanges_cons h
    · have hnone := CodeUnit.rangeInputs_eq_nil hother
      simpa [hnone] using ih hnodup h
    · have hinputs : u.rangeInputs i = (u.instr i).inputs := if_pos hinvoke
      obtain ⟨hnodup', hseen⟩ := checkRange_spec hnodup hcheck
      obtain ⟨hdistinct, hfree⟩ := ih hnodup' h
      rw [List.flatMap_cons, hinputs]
      constructor
      · rw [hseen] at hdistinct
        refine (List.Perm.nodup_iff ?_).mp hdistinct
        rw [← List.append_assoc]
        refine List.Perm.append_right _ (List.perm_append_comm.trans ?_)
        exact List.Perm.append_right _ (List.reverse_perm _)
      · intro v hv
        exact (List.mem_append.mp hv).elim (free_of_checkRange hcheck v) (hfree v)

/-- The arguments are placed first, then the pinned values, then the ranges. -/
theorem ofUnit_spec (h : ofUnit u config = .ok reserved) :
    ∃ before pinned, Places u config {} before ∧
      before.pieces = u.row 0 u.arguments ++ pinned ∧ (pinned.map (·.value)).Sublist u.values ∧
      (∀ piece, piece ∈ pinned ↔
        ∃ v ∈ u.values, ∃ register, u.IsPinned v register ∧ piece = u.whole v register) ∧
      placeRanges u config before [] u.instrs = .ok reserved := by
  rw [ofUnit] at h
  obtain ⟨arguments, harguments, h⟩ := bind_eq_ok h
  obtain ⟨before, hpinned, h⟩ := bind_eq_ok h
  have hrow := placeRow_of_placeArguments harguments
  obtain ⟨pinned, hpieces, hsub, hmem⟩ := placePinned_spec hpinned
  refine ⟨before, pinned, (places_placeRow hrow).trans (places_placePinned hpinned), ?_, hsub,
    hmem, h⟩
  simp [hpieces, pieces_placeRow hrow]

/-- No value is placed twice. -/
theorem nodup_ofUnit (hu : u.Arranged) (h : ofUnit u config = .ok reserved) :
    (reserved.pieces.map (·.value)).Nodup := by
  obtain ⟨before, pinned, -, hbefore, hsub, hmem, h⟩ := ofUnit_spec h
  obtain ⟨hdistinct, hfree⟩ := inputs_of_placeRanges (by simp) h
  have hranges : ∀ v ∈ u.instrs.flatMap u.rangeInputs, v ∈ u.values := by
    intro v hv
    obtain ⟨i, hi, hv⟩ := List.mem_flatMap.mp hv
    rw [CodeUnit.rangeInputs] at hv
    split at hv
    · exact (hu.inputs i hi v hv).1
    · simp at hv
  have hpinned : ∀ v ∈ pinned.map (·.value), v ∈ u.values ∧ ∃ register, u.IsPinned v register := by
    intro v hv
    obtain ⟨piece, hpiece, rfl⟩ := List.mem_map.mp hv
    obtain ⟨w, hw, register, hpin, rfl⟩ := (hmem piece).mp hpiece
    exact ⟨hw, register, hpin⟩
  have hnot : ∀ v ∈ u.values, (u.value v).isArgument = false → v ∉ u.arguments := by
    intro v hv hfalse harg
    simp [(hu.marked v hv).mpr harg] at hfalse
  rw [values_placeRanges h, hbefore, List.map_append, CodeUnit.map_value_row, List.nodup_append',
    List.nodup_append']
  refine ⟨⟨hu.arguments, hu.values.sublist hsub, fun v harg hv => ?_⟩, by simpa using hdistinct,
    fun v hv hrange => ?_⟩
  · obtain ⟨hv, register, hpin⟩ := hpinned v hv
    exact hnot v hv hpin.isArgument harg
  · obtain harg | hv := List.mem_append.mp hv
    · exact hnot v (hranges v hrange) (hfree v hrange).1 harg
    · obtain ⟨-, register, hpin⟩ := hpinned v hv
      have hfixed := hpin.fixed
      simp [(hfree v hrange).2] at hfixed

/-- The inputs of a range are placed from the lowest base at which they fit in what has been placed
up to then. -/
theorem exists_range (hwrap : u.NoWrap config) (h : ofUnit u config = .ok reserved)
    {earlier later : List InstrId} {i : InstrId} (hinstrs : u.instrs = earlier ++ i :: later)
    (hinputs : u.rangeInputs i ≠ []) :
    ∃ (middle : Reserved) (base : Register), Places u config {} middle ∧
      middle.pieces ⊆ reserved.pieces ∧
      (∀ v, v ∈ middle.pieces.map (·.value) ↔ u.FixedBefore earlier v) ∧
      u.row base (u.rangeInputs i) ⊆ reserved.pieces ∧ 0 ≤ base.toInt ∧
      base.toInt + u.totalWidth (u.rangeInputs i) ≤ config.registers.toInt ∧
      middle.fitsAt u base (u.rangeInputs i) = true ∧
      ∀ other : Register, 0 ≤ other → other < base →
        middle.fitsAt u other (u.rangeInputs i) = false := by
  obtain ⟨before, pinned, hplaces, hbefore, -, hmem, h⟩ := ofUnit_spec h
  rw [hinstrs] at h
  obtain ⟨middle, seen, hmiddle, hvalues, h⟩ := placeRanges_append h
  obtain ⟨hother, -⟩ | ⟨hinvoke, seen', width, base, next, hcheck, hbase, hrow, h⟩ :=
    placeRanges_cons h
  · exact absurd (CodeUnit.rangeInputs_eq_nil hother) hinputs
  have hrange : u.rangeInputs i = (u.instr i).inputs := if_pos hinvoke
  have hsmall := hwrap.ranges i (by simp [hinstrs])
  have hnonneg : 0 ≤ u.totalWidth (u.rangeInputs i) := CodeUnit.totalWidth_nonneg
  rw [← hrange] at hcheck hbase hrow
  have hwidth := width_of_checkRange (by simp) (by simpa using hsmall) hcheck
  rw [Int64.toInt_zero, Int.zero_add] at hwidth
  obtain ⟨hlow, hhigh, hfits, hpassed⟩ := rangeBase?_spec hwrap.registers (by omega) hbase
  obtain ⟨added, hadded, -⟩ := (places_placeRanges h).pieces
  rw [pieces_placeRow hrow] at hadded
  refine ⟨middle, base, hplaces.trans hmiddle, ?_, fun v => ?_, ?_, hlow, hwidth ▸ hhigh, hfits,
    hpassed⟩
  · rw [hadded, List.append_assoc]
    exact List.subset_append_left _ _
  · have hpinned : v ∈ pinned.map (·.value) ↔
        v ∈ u.values ∧ ∃ register, u.IsPinned v register := by
      simp only [List.mem_map, hmem]
      constructor
      · rintro ⟨piece, ⟨w, hw, register, hpin, rfl⟩, rfl⟩
        exact ⟨hw, register, hpin⟩
      · rintro ⟨hv, register, hpin⟩
        exact ⟨_, ⟨v, hv, register, hpin, rfl⟩, rfl⟩
    rw [hvalues, hbefore, List.map_append, CodeUnit.map_value_row, List.mem_append,
      List.mem_append, hpinned, or_assoc]
    rfl
  · intro piece hpiece
    simp [hadded, hpiece]

end Reserved

/-- Values that were fixed before have intervals. -/
theorem CodeUnit.FixedBefore.hasInterval {u : CodeUnit} {earlier : List InstrId} {v : ValueId}
    (h : u.FixedBefore earlier v) (hu : u.Arranged)
    (hintervals : Allocation.checkIntervals u u.values = .ok ())
    (harguments : ∀ v ∈ u.arguments, (u.value v).hasInterval = true)
    (hearlier : ∀ i ∈ earlier, i ∈ u.instrs) : (u.value v).hasInterval = true := by
  have hneeds := Allocation.checkIntervals_iff.mp hintervals
  obtain hv | ⟨hv, register, hpin⟩ | hv := h
  · exact harguments v hv
  · exact (hneeds v hv).2 hpin.needs
  · obtain ⟨i, hi, hv⟩ := List.mem_flatMap.mp hv
    rw [rangeInputs] at hv
    split at hv
    · next hinvoke =>
      obtain ⟨hvalues, huses⟩ := hu.inputs i (hearlier i hi) v hv
      obtain ⟨⟨needs, hneed⟩, hinterval⟩ := hneeds v hvalues
      rw [Pool.needsRegister_of_range hinvoke huses hneed] at hneed
      exact hinterval hneed
    · simp at hv

/-! ## Allocations -/

namespace Allocator

variable {allocator next : Allocator} {u : CodeUnit} {earlier : List InstrId} {vs : List ValueId}

/-- Values are in a row from `base` on, each in one register over its whole interval. -/
def InRow (allocator : Allocator) (u : CodeUnit) (base : Int) (vs : List ValueId) : Prop :=
  ∀ i v, vs[i]? = some v → ∃ register : Register,
    register.toInt = base + u.totalWidth (vs.take i) ∧
    allocator.pieces u v = .ok [u.whole v register]

/-- From `base` on, values in a row keep out of the way of all that have their registers before. -/
def FreeAt (allocator : Allocator) (u : CodeUnit) (earlier : List InstrId) (vs : List ValueId)
    (base : Int) : Prop :=
  ∀ w, u.FixedBefore earlier w → ∀ pieces, allocator.pieces u w = .ok pieces →
    ∀ piece ∈ pieces, u.RowAvoids base vs piece

/-- Values whose pieces are in a row are in a row. -/
theorem inRow_of_row {register : Register} (hnonneg : 0 ≤ register.toInt)
    (hbound : register.toInt + u.totalWidth vs < 2 ^ 63)
    (h : ∀ piece ∈ u.row register vs, allocator.pieces u piece.value = .ok [piece]) :
    allocator.InRow u register.toInt vs := by
  intro i v hi
  obtain ⟨place, hplace, hmem⟩ := CodeUnit.exists_mem_row hnonneg hbound hi
  exact ⟨place, hplace, h _ hmem⟩

/-- A row starts in the register of its first value. -/
theorem InRow.base_eq {base : Int} {v : ValueId} {piece : Piece}
    (h : allocator.InRow u base (v :: vs)) (hpieces : allocator.pieces u v = .ok [piece]) :
    base = piece.register.toInt := by
  obtain ⟨register, hregister, hfirst⟩ := h 0 v rfl
  rw [hpieces] at hfirst
  cases hfirst
  simpa [CodeUnit.whole] using hregister.symm

/-- A base is free if and only if the row from there avoids all pieces so far. -/
theorem freeAt_iff {pieces : List Piece} {base : Int}
    (hvalues : ∀ v, v ∈ pieces.map (·.value) ↔ u.FixedBefore earlier v)
    (h : ∀ piece ∈ pieces, allocator.pieces u piece.value = .ok [piece]) :
    allocator.FreeAt u earlier vs base ↔ ∀ piece ∈ pieces, u.RowAvoids base vs piece := by
  constructor
  · intro hfree piece hpiece
    have hbefore := (hvalues piece.value).mp (List.mem_map_of_mem hpiece)
    exact hfree piece.value hbefore [piece] (h piece hpiece) piece List.mem_cons_self
  · intro hfree w hw found hfound other hother
    obtain ⟨piece, hpiece, rfl⟩ := List.mem_map.mp ((hvalues w).mpr hw)
    rw [h piece hpiece] at hfound
    cases hfound
    rw [List.mem_singleton.mp hother]
    exact hfree piece hpiece

/-- A value with a fixed register is there over its whole interval and has no other. -/
theorem pieces_of_reserved {config : Config} {allocation : Allocation} {reserved : Reserved}
    {scan : Scan} (hu : u.Arranged) (hintervals : Allocation.checkIntervals u u.values = .ok ())
    (hreserved : Reserved.ofUnit u config = .ok reserved)
    (hscan : Scan.ofUnit u config reserved = .ok scan)
    (hpieces : allocation.pieces = Reserved.latest reserved.pieces ++ scan.ended ++ scan.active)
    {piece : Piece} (h : piece ∈ reserved.pieces) :
    (holding config allocation).pieces u piece.value = .ok [piece] := by
  obtain ⟨last, hlast, hvalue, hlatest⟩ := Reserved.ofValue_latest ⟨piece, h, rfl⟩
  obtain rfl : last = piece :=
    List.inj_on_of_nodup_map (Reserved.nodup_ofUnit hu hreserved) hlast h hvalue
  have hnone := Scan.ofValue_eq_nil_of_reserved hu.values hintervals hscan h
  have hall : Piece.ofValue allocation.pieces last.value = [last] := by
    rw [hpieces, List.append_assoc, Piece.ofValue_append, hlatest, hnone, List.append_nil]
  exact congrArg Except.ok hall

/-- The lowest base at which values fit is the lowest one at which they keep out of the way. -/
theorem isLeast_of_fitsAt {middle : Reserved} {base : Register} (hmiddle : middle.Tracked u)
    (hvs : ∀ v ∈ vs, (u.value v).hasInterval = true)
    (hvalues : ∀ v, v ∈ middle.pieces.map (·.value) ↔ u.FixedBefore earlier v)
    (hpieces : ∀ piece ∈ middle.pieces, allocator.pieces u piece.value = .ok [piece])
    (hnonneg : 0 ≤ base.toInt) (hbound : base.toInt + u.totalWidth vs < 2 ^ 63)
    (hfits : middle.fitsAt u base vs = true)
    (hpassed : ∀ other : Register, 0 ≤ other → other < base → middle.fitsAt u other vs = false) :
    IsLeast {b | 0 ≤ b ∧ allocator.FreeAt u earlier vs b} base.toInt := by
  have hiff : ∀ register : Register, 0 ≤ register.toInt → register.toInt ≤ base.toInt →
      (middle.fitsAt u register vs = true ↔ allocator.FreeAt u earlier vs register.toInt) := by
    intro register hlow hhigh
    rw [hmiddle.fitsAt_iff hvs hlow (by omega), freeAt_iff hvalues hpieces]
  refine ⟨⟨hnonneg, (hiff base hnonneg (Int.le_refl _)).mp hfits⟩, ?_⟩
  rintro b ⟨hb, hfree⟩
  by_contra hlt
  have hlast := Int64.toInt_lt base
  have heq : (Int64.ofInt b).toInt = b := Int64.toInt_ofInt_of_le (by omega) (by omega)
  have htaken := hpassed (Int64.ofInt b)
    (by rw [Int64.le_iff_toInt_le, heq, Int64.toInt_zero]; exact hb)
    (by rw [Int64.lt_iff_toInt_lt, heq]; omega)
  rw [← heq] at hfree
  simp [(hiff _ (by omega) (by omega)).mpr hfree] at htaken

/-- Arguments, pinned values and inputs of ranges are where they belong, and a range is as low as
what comes before it allows, provided that all arguments have intervals. -/
theorem run_places_fixed (hu : u.Arranged) (hwrap : u.NoWrap allocator.config)
    (hrun : allocator.run u = (next, none)) :
    next.InRow u 0 u.arguments ∧
    (∀ v ∈ u.values, ∀ register, u.IsPinned v register →
      next.pieces u v = .ok [u.whole v register]) ∧
    ∀ earlier i later, u.instrs = earlier ++ i :: later → u.rangeInputs i ≠ [] →
      ∃ base : Int, 0 ≤ base ∧
        base + u.totalWidth (u.rangeInputs i) ≤ allocator.config.registers.toInt ∧
        next.InRow u base (u.rangeInputs i) ∧
        ((∀ v ∈ u.arguments, (u.value v).hasInterval = true) →
          IsLeast {b | 0 ≤ b ∧ next.FreeAt u earlier (u.rangeInputs i) b} base) := by
  obtain ⟨allocation, hallocate, rfl⟩ := run_eq_none hrun
  obtain ⟨hintervals, reserved, scan, -, hreserved, hscan, hpieces, -, -, -⟩ :=
    CodeUnit.allocate_eq_ok hallocate
  have hfixed : ∀ piece ∈ reserved.pieces, _ := fun piece hpiece =>
    pieces_of_reserved hu hintervals hreserved hscan hpieces hpiece
  obtain ⟨before, pinned, -, hbefore, -, hmem, hranges⟩ := Reserved.ofUnit_spec hreserved
  obtain ⟨added, hadded, -⟩ := (Reserved.places_placeRanges hranges).pieces
  rw [hbefore] at hadded
  refine ⟨?_, fun v hv register hpin => ?_, fun earlier i later hinstrs hinputs => ?_⟩
  · exact @inRow_of_row _ u u.arguments 0 (by simp) (by simpa using hwrap.arguments)
      fun piece hpiece => hfixed piece (by simp [hadded, hpiece])
  · have hpiece := (hmem (u.whole v register)).mpr ⟨v, hv, register, hpin, rfl⟩
    exact hfixed (u.whole v register) (by simp [hadded, hpiece])
  · obtain ⟨middle, base, hplaces, hsub, hvalues, hrow, hnonneg, hroom, hfits, hpassed⟩ :=
      Reserved.exists_range hwrap hreserved hinstrs hinputs
    have hlast := Int64.toInt_lt allocator.config.registers
    refine ⟨base.toInt, hnonneg, hroom,
      inRow_of_row hnonneg (by omega) fun piece hpiece => hfixed piece (hrow hpiece), ?_⟩
    intro harguments
    have hinterval : ∀ {earlier v}, u.FixedBefore earlier v → (∀ j ∈ earlier, j ∈ u.instrs) →
        (u.value v).hasInterval = true := fun hbefore hearlier =>
      hbefore.hasInterval hu hintervals harguments hearlier
    refine isLeast_of_fitsAt (hplaces.tracked fun v hv => ?_) (fun v hv => ?_) hvalues
      (fun piece hpiece => hfixed piece (hsub hpiece)) hnonneg (by omega) hfits hpassed
    · exact hinterval ((hvalues v).mp hv) fun j hj => by simp [hinstrs, hj]
    · exact @hinterval [i] v (.inr (.inr (by simpa using hv))) (by simp [hinstrs])

/-- Two arguments, a pinned value and two ranges of mixed widths. The second range goes below the
first, where an argument and the pinned value are no longer live. -/
def harbour : CodeUnit where
  name := "harbour"
  pool := {
    values := #[
      { number := 0, name := "a", type := .wide, stop := 9, isArgument := true },
      { number := 1, name := "b", type := .single, stop := 3, isArgument := true },
      { number := 2, name := "p", type := .object, start := 1, stop := 6, fixed := some 4 },
      { number := 3, name := "x", type := .wide, start := 3, stop := 7, uses := [0] },
      { number := 4, name := "y", type := .single, start := 4, stop := 8, uses := [0] },
      { number := 5, name := "z", type := .single, start := 6, stop := 9, uses := [1] },
      { number := 6, name := "w", type := .wide, start := 7, stop := 10, uses := [1] }]
    instrs := #[
      { number := 6, opcode := .invokeRange, inputs := [3, 4] },
      { number := 8, opcode := .invokeRange, inputs := [5, 6] }] }
  arguments := [0, 1]
  instrs := [0, 1]
  values := [0, 1, 2, 3, 4, 5, 6]

theorem run_places_fixed_harbour : harbour.Arranged ∧ ∃ next : Allocator,
    ({ config := { registers := 10, maxRegisters := 16 } } : Allocator).run harbour = (next, none) ∧
    next.InRow harbour 0 [0, 1] ∧ next.pieces harbour 2 = .ok [⟨2, 1, 6, 4⟩] ∧
    IsLeast {b | 0 ≤ b ∧ next.FreeAt harbour [] [3, 4] b} 5 ∧
    IsLeast {b | 0 ≤ b ∧ next.FreeAt harbour [0] [5, 6] b} 2 := by
  have hu : harbour.Arranged := ⟨by decide, by decide, by decide, by decide⟩
  have hwrap : harbour.NoWrap { registers := 10, maxRegisters := 16 } :=
    ⟨by decide, by decide, by decide⟩
  have hnone : (({ config := { registers := 10, maxRegisters := 16 } } : Allocator).run
      harbour).2 = none := by decide +kernel
  obtain ⟨harguments, hpinned, hranges⟩ := run_places_fixed hu hwrap (Prod.ext rfl hnone)
  obtain ⟨base, -, -, hrow, hleast⟩ := hranges [] 0 [1] rfl (by decide)
  obtain ⟨base', -, -, hrow', hleast'⟩ := hranges [0] 1 [] rfl (by decide)
  obtain rfl : base = 5 := @InRow.base_eq _ _ _ _ _ ⟨3, 3, 7, 5⟩ hrow (by decide +kernel)
  obtain rfl : base' = 2 := @InRow.base_eq _ _ _ _ _ ⟨5, 6, 9, 2⟩ hrow' (by decide +kernel)
  exact ⟨hu, _, Prod.ext rfl hnone, harguments, hpinned 2 (by decide) 4 ⟨rfl, rfl, rfl⟩,
    hleast (by decide), hleast' (by decide)⟩

/-- An argument that is a constant and has no interval, and a range. -/
def idle : CodeUnit where
  name := "idle"
  pool := {
    values := #[
      { number := 0, name := "a", type := .single, isArgument := true, definition := some 0 },
      { number := 1, name := "x", type := .single, start := -3, stop := 5, uses := [1] }]
    instrs := #[
      { number := 2, opcode := .const, literal := some (.int 7), out := some 0 },
      { number := 4, opcode := .invokeRange, inputs := [1] }] }
  arguments := [0]
  instrs := [0, 1]
  values := [0, 1]

/-- An argument that is a constant and has a reversed interval, which starts where the one of the
pinned value stops. -/
def swallowed : CodeUnit where
  name := "swallowed"
  pool := {
    values := #[
      { number := 0, name := "a", type := .single, start := 5, stop := 2, isArgument := true,
        definition := some 0 },
      { number := 1, name := "p", type := .single, start := 1, stop := 5, fixed := some 0 },
      { number := 2, name := "x", type := .single, start := 3, stop := 6, uses := [1] }]
    instrs := #[
      { number := 2, opcode := .const, literal := some (.int 7), out := some 0 },
      { number := 4, opcode := .invokeRange, inputs := [2] }] }
  arguments := [0]
  instrs := [0, 1]
  values := [0, 1, 2]

/-- Without the condition on arguments a range can be higher than it has to be, or in the way of a
value that is live. -/
theorem idle_argument_misplaces_ranges :
    (idle.Arranged ∧ idle.NoWrap { registers := 4, maxRegisters := 8 } ∧ ∃ next : Allocator,
      ({ config := { registers := 4, maxRegisters := 8 } } : Allocator).run idle = (next, none) ∧
      next.FreeAt idle [0] [1] 0 ∧ next.placement idle 1 4 = .ok 1) ∧
    swallowed.Arranged ∧ swallowed.NoWrap { registers := 4, maxRegisters := 8 } ∧
      ∃ next : Allocator,
      ({ config := { registers := 4, maxRegisters := 8 } } : Allocator).run swallowed =
        (next, none) ∧
      next.placement swallowed 1 4 = .ok 0 ∧ next.placement swallowed 2 4 = .ok 0 := by
  have hidle : (({ config := { registers := 4, maxRegisters := 8 } } : Allocator).run
      idle).2 = none := by decide +kernel
  have hswallowed : (({ config := { registers := 4, maxRegisters := 8 } } : Allocator).run
      swallowed).2 = none := by decide +kernel
  refine ⟨⟨⟨by decide, by decide, by decide, by decide⟩, ⟨by decide, by decide, by decide⟩, _,
    Prod.ext rfl hidle, ?_, by decide +kernel⟩, ⟨by decide, by decide, by decide, by decide⟩,
    ⟨by decide, by decide, by decide⟩, _, Prod.ext rfl hswallowed, by decide +kernel,
    by decide +kernel⟩
  have hpieces : (({ config := { registers := 4, maxRegisters := 8 } } : Allocator).run
      idle).1.pieces idle 0 = .ok [⟨0, 0, 0, 0⟩] := by decide +kernel
  have hbefore : ∀ v, v ∈ [0] ↔ idle.FixedBefore [0] v := by
    intro v
    constructor
    · exact .inl
    · rintro (hv | ⟨hv, register, hpin⟩ | hv)
      · exact hv
      · obtain rfl | rfl : v = 0 ∨ v = 1 := by simpa [idle] using hv
        · exact absurd hpin.isArgument (by decide)
        · exact absurd hpin.fixed (by simp [idle, CodeUnit.value, Pool.value])
      · have hnone : [0].flatMap idle.rangeInputs = [] := by decide
        simp [hnone] at hv
  -- no position is between the bounds of the argument
  refine (@freeAt_iff _ _ _ _ [⟨0, 0, 0, 0⟩] 0 hbefore (by simpa using hpieces)).mpr ?_
  intro piece hpiece i v hi position slot hlive hcovers
  rw [List.mem_singleton.mp hpiece, Piece.covers_iff] at hcovers
  grind

end Allocator
end RegisterAllocation
