import RegisterAllocation.Proofs.Building
import RegisterAllocation.Proofs.Reserved

/-!
# Orderly failures

Up to the scheduling of its moves, allocating a consistent unit whose values all have intervals ends
with a result or with a rejection of the unit: no contract is broken on the way. The one that could
be is about the table of fixed registers, where a slot that is taken has to be taken by a piece. It
is, since the table has no position that does not come from a piece (`Reserved.Exact`).
-/

namespace RegisterAllocation

/-- A computation gives a result that satisfies `P`, or the unit is rejected under its name. -/
def Orderly {α : Type} (u : CodeUnit) (P : α → Prop) : Except Failure α → Prop
  | .ok a => P a
  | .error failure => ∃ cause, failure = .rejected u.name cause

namespace Orderly

variable {α β : Type} {u : CodeUnit} {P : α → Prop} {Q : β → Prop}

theorem rejected (cause : Rejection) : Orderly u P (.error (.rejected u.name cause)) := ⟨cause, rfl⟩

/-- A computation in two parts is orderly if both parts are. -/
theorem bind {x : Except Failure α} {f : α → Except Failure β} (hx : Orderly u P x)
    (hf : ∀ a, P a → Orderly u Q (f a)) : Orderly u Q (x >>= f) := by
  cases x with
  | error failure => exact hx
  | ok a => exact hf a hx

/-- A computation that succeeds is orderly. -/
theorem lift {x : Except Fault α} (h : ∃ a, x = .ok a) :
    Orderly u (fun a => x = .ok a) (Failure.lift x) := by
  obtain ⟨a, rfl⟩ := h
  exact rfl

/-- An orderly computation stays so for a weaker result. -/
theorem imp {x : Except Failure α} (hx : Orderly u P x) {P' : α → Prop}
    (h : ∀ a, x = .ok a → P a → P' a) : Orderly u P' x := by
  cases x with
  | error failure => exact hx
  | ok a => exact h a rfl hx

end Orderly

variable {u : CodeUnit} {config : Config}

/-! ## Fixed registers -/

namespace Reserved

variable {reserved placed : Reserved} {v : ValueId}

/-- The table of fixed registers has proper intervals only, and every position in it comes from a
piece. -/
structure Exact (u : CodeUnit) (reserved : Reserved) : Prop where
  proper : ∀ slot, LiveRange.Proper (reserved.rangeAt slot).intervals
  user : ∀ slot, ∀ position ∈ reserved.rangeAt slot,
    ∃ piece ∈ reserved.pieces, piece.usesSlot u.pool slot = true ∧ piece.covers position = true

theorem exact_empty (u : CodeUnit) : Exact u {} := by
  constructor
  · simp [rangeAt, LiveRange.empty, LiveRange.Proper]
  · simp [rangeAt, LiveRange.empty, LiveRange.mem_iff]

/-- Placing a value keeps the positions of slots exact. -/
theorem Exact.of_place (h : reserved.Exact u) {register : Register}
    (hv : (u.value v).hasInterval = true)
    (hplace : reserved.place u config v register = .ok placed) : placed.Exact u := by
  obtain ⟨-, hpieces, htaken, hkept⟩ := place_spec hplace
  have hlive : LiveRange.Proper (liveRange u v).intervals := by
    simpa [LiveRange.Proper, liveRange, LiveRange.single, Value.hasInterval] using hv
  constructor
  · intro slot
    by_cases hslot : slot ∈ (u.value v).type.span register
    · exact (LiveRange.proper_union (h.proper slot) hlive (htaken slot hslot)).1
    · rw [hkept slot hslot]
      exact h.proper slot
  · intro slot position hp
    have hold : position ∈ reserved.rangeAt slot → ∃ piece ∈ placed.pieces,
        piece.usesSlot u.pool slot = true ∧ piece.covers position = true := by
      intro hp
      obtain ⟨piece, hpiece, hpiece'⟩ := h.user slot position hp
      exact ⟨piece, by simp [hpieces, hpiece], hpiece'⟩
    by_cases hslot : slot ∈ (u.value v).type.span register
    · obtain hp | hp :=
        (LiveRange.proper_union (h.proper slot) hlive (htaken slot hslot)).2 position hp
      · exact hold hp
      · refine ⟨⟨v, (u.value v).start, (u.value v).stop, register⟩, by simp [hpieces], ?_, ?_⟩
        · rw [Piece.usesSlot_iff_mem_span]
          exact hslot
        · rw [Piece.covers_iff]
          exact LiveRange.mem_single.mp hp
    · exact hold (hkept slot hslot ▸ hp)

/-- A slot that is taken has a user. -/
theorem Exact.userOf (h : reserved.Exact u) (hv : (u.value v).hasInterval = true) {slot : Register}
    (hconflicts : (reserved.rangeAt slot).conflicts (liveRange u v) = true) :
    ∃ piece, reserved.userOf u slot v = .ok piece := by
  have hlt : (u.value v).start < (u.value v).stop := by simpa [Value.hasInterval] using hv
  obtain ⟨position, hp, hstart, hstop⟩ :=
    LiveRange.exists_mem_of_conflicts (h.proper slot) hlt hconflicts
  obtain ⟨piece, hpiece, huses, hcovers⟩ := h.user slot position hp
  rw [Piece.covers_iff] at hcovers
  unfold Reserved.userOf
  dsimp only
  split
  · exact ⟨_, rfl⟩
  · next hnone =>
    refine absurd (List.find?_eq_none.mp hnone piece hpiece) ?_
    have hoverlap : piece.start < (u.value v).stop ∧ (u.value v).start < piece.stop := by grind
    simp [huses, hoverlap]

/-- The check of slots rejects in good order, and otherwise the slots are free. -/
theorem Exact.checkSlots (h : reserved.Exact u) (hv : (u.value v).hasInterval = true)
    (slots : List Register) :
    Orderly u (fun _ => ∀ slot ∈ slots, (reserved.rangeAt slot).conflicts (liveRange u v) = false)
      (reserved.checkSlots u v slots) := by
  induction slots with
  | nil => exact List.forall_mem_nil _
  | cons slot slots ih =>
    rw [Reserved.checkSlots]
    split
    · next hconflicts =>
      obtain ⟨user, huser⟩ := h.userOf hv hconflicts
      rw [huser]
      exact .rejected _
    · next hfree =>
      refine ih.imp fun _ _ hrest => List.forall_mem_cons.mpr ⟨?_, hrest⟩
      simpa using hfree

/-- Slots that are free can be taken. -/
theorem exists_takeSlots {slots : List Register} {ranges : List (Register × LiveRange)}
    (hnodup : slots.Nodup)
    (hfree : ∀ slot ∈ slots,
      ((ranges.lookup slot).getD .empty).conflicts (liveRange u v) = false) :
    ∃ taken, takeSlots u v ranges slots = .ok taken := by
  induction slots generalizing ranges with
  | nil => exact ⟨ranges, rfl⟩
  | cons slot slots ih =>
    obtain ⟨hslot, hrest⟩ := List.nodup_cons.mp hnodup
    obtain ⟨hfirst, hfree⟩ := List.forall_mem_cons.mp hfree
    simp only [takeSlots, LiveRange.union, hfirst, Bool.false_eq_true, if_false]
    refine ih hrest fun other hother => ?_
    have hne : (other == slot) = false := beq_false_of_ne fun heq => hslot (heq ▸ hother)
    rw [List.lookup_cons, hne]
    exact hfree other hother

/-- Placing a value is orderly. -/
theorem Exact.place (h : reserved.Exact u) (hv : (u.value v).hasInterval = true)
    (register : Register) : Orderly u (Exact u) (reserved.place u config v register) := by
  refine Orderly.imp (P := fun _ => True) ?_ fun placed hplace _ => h.of_place hv hplace
  rw [Reserved.place]
  split
  · exact .rejected _
  refine .bind (h.checkSlots hv _) fun _ hfree => .bind (.lift ?_) fun _ _ => trivial
  exact exists_takeSlots (MoveType.nodup_span _ _) hfree

/-- Placing a row is orderly. -/
theorem Exact.placeRow (h : reserved.Exact u) {vs : List ValueId} {register : Register}
    (hvs : ∀ v ∈ vs, (u.value v).hasInterval = true) :
    Orderly u (Exact u) (placeRow u config reserved register vs) := by
  induction vs generalizing reserved register with
  | nil => exact h
  | cons v vs ih =>
    obtain ⟨hv, hvs⟩ := List.forall_mem_cons.mp hvs
    exact .bind (h.place hv register) fun next hnext => ih hnext hvs

/-- Placing arguments is orderly. -/
theorem Exact.placeArguments (h : reserved.Exact u) {vs : List ValueId} {register : Register}
    (hvs : ∀ v ∈ vs, (u.value v).hasInterval = true) :
    Orderly u (Exact u) (placeArguments u config reserved register vs) := by
  induction vs generalizing reserved register with
  | nil => exact h
  | cons v vs ih =>
    obtain ⟨hv, hvs⟩ := List.forall_mem_cons.mp hvs
    have hplace : Orderly u (Exact u) (reserved.place u config v register >>= fun placed =>
        placeArguments u config placed (register + u.pool.width v) vs) :=
      .bind (h.place hv register) fun next hnext => ih hnext hvs
    rw [Reserved.placeArguments]
    split
    · split
      · exact .rejected _
      · exact hplace
    · exact hplace

/-- Placing pinned values is orderly. -/
theorem Exact.placePinned (h : reserved.Exact u) (hu : u.Consistent) {vs : List ValueId}
    (hvs : ∀ v ∈ vs, (u.value v).hasInterval = true) :
    Orderly u (Exact u) (placePinned u config reserved vs) := by
  induction vs generalizing reserved with
  | nil => exact h
  | cons v vs ih =>
    obtain ⟨hv, hvs⟩ := List.forall_mem_cons.mp hvs
    rw [Reserved.placePinned]
    split
    · refine .bind (.lift (hu.needsRegister v)) fun needs _ => ?_
      split
      · exact .bind (h.place hv _) fun next hnext => ih hnext hvs
      · exact ih h hvs
    · exact ih h hvs

/-- The check of a range is orderly. -/
theorem orderly_checkRange (i : InstrId) (seen : List (ValueId × InstrId)) (width : Int64)
    (vs : List ValueId) : Orderly u (fun _ => True) (checkRange u i seen width vs) := by
  induction vs generalizing seen width with
  | nil => trivial
  | cons v vs ih =>
    have hrest : Orderly u (fun _ => True)
        (if (u.value v).isArgument ∨ (u.value v).fixed.isSome then
          .error (.rejected u.name (.fixedInRange (u.label v) (u.instr i).number))
        else checkRange u i ((v, i) :: seen) (width + u.pool.width v) vs) := by
      split
      · exact .rejected _
      · exact ih _ _
    rw [checkRange]
    split
    · split
      · exact .rejected _
      · exact .rejected _
    · exact hrest

/-- Placing ranges is orderly. -/
theorem Exact.placeRanges (h : reserved.Exact u) {is : List InstrId}
    {seen : List (ValueId × InstrId)}
    (his : ∀ i ∈ is, ∀ v ∈ (u.instr i).inputs, (u.value v).hasInterval = true) :
    Orderly u (Exact u) (placeRanges u config reserved seen is) := by
  induction is generalizing reserved seen with
  | nil => exact h
  | cons i is ih =>
    obtain ⟨hi, his⟩ := List.forall_mem_cons.mp his
    rw [Reserved.placeRanges]
    dsimp only
    split
    · refine .bind (orderly_checkRange i _ _ _) fun checked _ => ?_
      obtain ⟨seen, width⟩ := checked
      dsimp only
      split
      · exact .rejected _
      split
      · exact .rejected _
      · exact .bind (h.placeRow hi) fun next hnext => ih hnext his
    · exact ih h his

/-- Fixed registers are given out, or the unit is rejected. -/
theorem orderly_ofUnit (hu : u.Consistent)
    (hintervals : ∀ v ∈ u.values, (u.value v).hasInterval = true) :
    Orderly u (Exact u) (ofUnit u config) := by
  refine .bind ((exact_empty u).placeArguments fun v hv => hintervals v (hu.arguments v hv)) ?_
  refine fun arguments harguments => .bind (harguments.placePinned hu hintervals) ?_
  exact fun pinned hpinned => hpinned.placeRanges fun i _ v hv => hintervals v (hu.inputs i v hv)

end Reserved

/-! ## The scan -/

namespace Scan

variable {scan : Scan} {reserved : Reserved}

/-- A search of the spill area is orderly. -/
theorem orderly_spillRegister (v : ValueId) (start stop : Position) :
    Orderly u (fun _ => True) (scan.spillRegister u config reserved v start stop) := by
  unfold spillRegister
  split
  · trivial
  · exact .rejected _

/-- Giving way is orderly. -/
theorem orderly_evict (victim : Piece) (position : Position) :
    Orderly u (fun _ => True) (scan.evict u config reserved victim position) := by
  refine .bind (orderly_spillRegister _ _ _) fun register _ => ?_
  split
  · trivial
  · trivial

/-- A value finds its place in good order. -/
theorem orderly_placeEvicting (v : ValueId) (candidates : List Piece) :
    Orderly u (fun _ => True) (placeEvicting u config reserved v scan candidates) := by
  have hspill : ∀ scan : Scan, Orderly u (fun _ => True) (scan.spill u config reserved v) :=
    fun scan => .bind (orderly_spillRegister _ _ _) fun _ _ => trivial
  induction candidates generalizing scan with
  | nil =>
    rw [placeEvicting]
    split
    · trivial
    · exact hspill scan
  | cons victim rest ih =>
    rw [placeEvicting]
    split
    · trivial
    · split
      · exact .bind (orderly_evict _ _) fun _ _ => ih
      · exact hspill scan

/-- The scan is orderly. -/
theorem orderly_placeAll (vs : List ValueId) :
    Orderly u (fun _ => True) (placeAll u config reserved scan vs) := by
  induction vs generalizing scan with
  | nil => trivial
  | cons v vs ih => exact .bind (orderly_placeEvicting v _) fun _ _ => ih

/-- The values to be placed can be told. -/
theorem exists_unplaced {vs : List ValueId}
    (h : ∀ v ∈ vs, ∃ needs, u.pool.needsRegister v = .ok needs) :
    ∃ left, unplaced u reserved vs = .ok left := by
  induction vs with
  | nil => exact ⟨[], rfl⟩
  | cons v vs ih =>
    obtain ⟨⟨needs, hneeds⟩, h⟩ := List.forall_mem_cons.mp h
    obtain ⟨left, hleft⟩ := ih h
    simp only [unplaced, hneeds, hleft, bind, Except.bind]
    split
    · exact ⟨_, rfl⟩
    · exact ⟨_, rfl⟩

/-- The scan of a unit is orderly. -/
theorem orderly_ofUnit (hu : u.Consistent) :
    Orderly u (fun _ => True) (ofUnit u config reserved) :=
  .bind (.lift (exists_unplaced fun v _ => hu.needsRegister v)) fun _ _ => orderly_placeAll _

end Scan

/-! ## Intervals and copies -/

namespace Allocation

variable {pieces : List Piece}

/-- The check of intervals is orderly. -/
theorem orderly_checkIntervals (hu : u.Consistent) (vs : List ValueId) :
    Orderly u (fun _ => True) (checkIntervals u vs) := by
  induction vs with
  | nil => trivial
  | cons v vs ih =>
    refine .bind (.lift (hu.needsRegister v)) fun needs _ => ?_
    split
    · exact .rejected _
    · exact ih

theorem orderly_registerAt (v : ValueId) (position : Position) :
    Orderly u (fun _ => True) (registerAt u pieces v position) := by
  unfold registerAt
  split
  · trivial
  · exact .rejected _

/-- A copy that needs no register for its source has a constant to make. -/
theorem orderly_copyMove? (hu : u.Consistent) (written : List (Position × ValueId)) (copy : Copy) :
    Orderly u (fun _ => True) (copyMove? u pieces written copy) := by
  unfold copyMove?
  dsimp only
  split
  · exact .rejected _
  split
  · exact .rejected _
  split
  · exact .rejected _
  refine .bind (orderly_registerAt _ _) fun register _ => ?_
  refine .bind (.lift (hu.needsRegister copy.source)) fun needs hneeds => ?_
  cases needs with
  | true =>
    rw [if_pos rfl]
    split
    · exact .rejected _
    · exact .bind (orderly_registerAt _ _) fun _ _ => trivial
  | false =>
    obtain ⟨constant, hconstant⟩ := Pool.exists_constant hneeds
    refine .bind (.lift ?_) fun _ _ => trivial
    exact ⟨_, by rw [hconstant]; rfl⟩

/-- Adding copies is orderly. -/
theorem orderly_addCopies (hu : u.Consistent) (written : List (Position × ValueId))
    (moves : MoveTable) (copies : List Copy) :
    Orderly u (fun _ => True) (addCopies u pieces written moves copies) := by
  induction copies generalizing written moves with
  | nil => trivial
  | cons copy copies ih => exact .bind (orderly_copyMove? hu written copy) fun _ _ => ih _ _

end Allocation
end RegisterAllocation
