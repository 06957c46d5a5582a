import RegisterAllocation.Proofs.Outcome
import RegisterAllocation.Proofs.Scan.Eviction
import RegisterAllocation.Proofs.Scan.Packing
import Mathlib.Order.Lattice.Nat

/-!
# Pressure decides

A unit whose values take one slot each, with no fixed registers and no copies, needs as many
registers as there are values live at one position, and no more: whatever gives way to what, and
however often (`Allocator.run_uses_peak`). Values that are live at one position are in different
registers, so fewer would not do. More are not used by the scan, which packs its values, and not by
the moves: they go from the allocatable registers to the spill area, so that none is in the way of
another.
-/

namespace RegisterAllocation

variable {u : CodeUnit} {config : Config} {pieces : List Piece} {moves : MoveTable}

/-! ## Nothing is fixed -/

/-- Without pinned values nothing is placed. -/
theorem Reserved.placePinned_eq {reserved : Reserved} {vs : List ValueId}
    (h : ∀ v ∈ vs, (∃ needs, u.pool.needsRegister v = .ok needs) ∧
      ∀ register, ¬ u.IsPinned v register) :
    placePinned u config reserved vs = .ok reserved := by
  induction vs with
  | nil => rfl
  | cons v vs ih =>
    obtain ⟨⟨⟨needs, hneeds⟩, hfree⟩, hrest⟩ := List.forall_mem_cons.mp h
    rw [placePinned]
    split
    · next register hargument hfixed =>
      have hfalse : needs = false := by
        by_contra htrue
        exact hfree register
          ⟨hargument, hfixed, by rw [hneeds, Bool.eq_true_of_not_eq_false htrue]⟩
      rw [hneeds, hfalse]
      exact ih hrest
    · exact ih hrest

/-- Without ranges nothing is placed. -/
theorem Reserved.placeRanges_eq {reserved : Reserved} {seen : List (ValueId × InstrId)}
    {is : List InstrId}
    (h : ∀ i ∈ is, (u.instr i).opcode = .invokeRange → (u.instr i).inputs = []) :
    placeRanges u config reserved seen is = .ok reserved := by
  induction is with
  | nil => rfl
  | cons i is ih =>
    obtain ⟨hi, his⟩ := List.forall_mem_cons.mp h
    rw [placeRanges, if_neg fun hrange => hrange.2 (hi hrange.1)]
    exact ih his

/-- Nothing is fixed in a unit of single values. -/
theorem Reserved.ofUnit_eq_empty (hu : u.OneSlot) : ofUnit u config = .ok {} := by
  have hpinned : placePinned u config {} u.values = .ok {} := by
    refine placePinned_eq fun v hv => ⟨hu.needs v hv, fun register hpinned => ?_⟩
    have hfixed := hpinned.fixed
    simp [(hu.free v hv hpinned.needs).2.2] at hfixed
  have hranges : placeRanges u config {} [] u.instrs = .ok {} := placeRanges_eq hu.ranges
  rw [ofUnit, hu.arguments]
  simp only [placeArguments, bind, Except.bind, hpinned, hranges]

theorem CodeUnit.OneSlot.checkIntervals (hu : u.OneSlot) :
    Allocation.checkIntervals u u.values = .ok () :=
  Allocation.checkIntervals_iff.mpr fun v hv =>
    ⟨hu.needs v hv, fun hneeds => (hu.free v hv hneeds).2.1⟩

/-- What the scan has placed is all there is. -/
theorem CodeUnit.OneSlot.plan_eq (hu : u.OneSlot) :
    u.plan config =
      (Scan.ofUnit u config {}).map fun scan => (scan.ended ++ scan.active, scan.moves) := by
  rw [plan, hu.checkIntervals, Reserved.ofUnit_eq_empty hu, hu.copies]
  simp only [bind, Except.bind, pure, Except.pure, Except.map, Reserved.latest, List.nil_append,
    Allocation.addCopies]

/-! ## Scheduling without temporaries -/

namespace Allocation

/-- The moves of a set are carried out among the registers below the temporaries. -/
def WithoutTemporaries (temporary : Register) (set : MoveSet) : Prop :=
  scheduleSet temporary set.position set.moves = .ok (set, 0) ∧
    ∀ move ∈ set.scheduled, ∀ slot ∈ move.written ++ move.slotsRead, 0 ≤ slot ∧ slot < temporary

/-- Direct moves are scheduled without temporaries. -/
theorem scheduleSet_of_direct {temporary : Register} (htemporary : 0 ≤ temporary)
    (position : Position) {moves : List Move} (hregisters : ∀ move ∈ moves, move.InRegisters)
    (hadmissible : Move.Admissible temporary moves) (hdirect : Move.Direct moves) :
    ∃ scheduled, scheduleSet temporary position moves = .ok (⟨position, moves, scheduled⟩, 0) ∧
      Move.IsSchedule moves scheduled temporary 0 := by
  obtain ⟨scheduler, hadd⟩ := Scheduler.exists_addAll_iff.mpr hadmissible
  obtain ⟨scheduled, hscheduled, hschedule⟩ := Scheduler.schedule_spec htemporary hadd hregisters
  obtain ⟨-, hmem, -⟩ := Scheduler.schedulable_of_addAll hadd hregisters
  have hused : scheduler.schedule.1.used = 0 := by
    refine Scheduler.used_of_direct fun move hmove other hother => ?_
    exact hdirect move ((hmem move).mp hmove) other ((hmem other).mp hother)
  refine ⟨scheduled, ?_, hused ▸ hschedule⟩
  simp only [scheduleSet, hadd, bind, Except.bind, hscheduled, hused]
  rfl

/-- Sets of direct moves are scheduled without temporaries. -/
theorem scheduleSets_of_direct {temporary : Register} (htemporary : 0 ≤ temporary)
    {table : MoveTable} (hregisters : ∀ entry ∈ table, ∀ move ∈ entry.2, move.InRegisters)
    (hadmissible : ∀ entry ∈ table, Move.Admissible temporary entry.2)
    (hdirect : ∀ entry ∈ table, Move.Direct entry.2) :
    ∃ sets, scheduleSets temporary temporary table = .ok (sets, temporary) ∧
      sets.length = table.length ∧ ∀ set ∈ sets, WithoutTemporaries temporary set := by
  induction table with
  | nil => exact ⟨[], rfl, rfl, by simp⟩
  | cons entry table ih =>
    obtain ⟨position, moves⟩ := entry
    obtain ⟨hregister, hregisters⟩ := List.forall_mem_cons.mp hregisters
    obtain ⟨hallowed, hadmissible⟩ := List.forall_mem_cons.mp hadmissible
    obtain ⟨hfirst, hdirect⟩ := List.forall_mem_cons.mp hdirect
    obtain ⟨scheduled, hset, hschedule⟩ :=
      scheduleSet_of_direct htemporary position hregister hallowed hfirst
    obtain ⟨sets, hsets, hlength, hnone⟩ := ih hregisters hadmissible hdirect
    have hmax : max temporary (temporary + 0) = temporary := by
      obtain ⟨-, -, heq | heq⟩ := Register.max_spec temporary (temporary + 0)
      · exact heq
      · rw [heq, Int64.add_zero]
    refine ⟨⟨position, moves, scheduled⟩ :: sets, ?_, by simp [hlength],
      List.forall_mem_cons.mpr ⟨⟨hset, hschedule.slots_lt⟩, hnone⟩⟩
    simp only [scheduleSets, hset, bind, Except.bind, hmax, hsets]
    rfl

/-- Values that leave allocatable registers go to the spill area, so no move is in the way of
another. -/
theorem Sound.direct (hsound : Sound u config pieces moves)
    (hlow : ∀ {v head tail}, Piece.ofValue pieces v = [head, tail] → head.Allocatable u config)
    (position : Position) : Move.Direct (moves.movesAt position) := by
  have hmove : ∀ move ∈ moves.movesAt position,
      (∀ slot ∈ move.written, config.registers ≤ slot) ∧
        ∀ slot ∈ move.slotsRead, slot < config.registers := by
    intro move hmove
    obtain ⟨v, head, tail, hown, -, rfl⟩ := (hsound.moves position move).mp hmove
    obtain ⟨hhead, rfl, htail, hvalue, hlayout⟩ := hsound.pair hown
    obtain ⟨-, -, -, -, -, hspill⟩ := hlayout.pair
    constructor
    · intro slot hslot
      rw [Scan.relocation_written, ← hvalue] at hslot
      have hbounds := (MoveType.mem_footprint_iff_of_fits (hsound.fits tail htail).2).mp hslot
      exact Int64.le_trans hspill hbounds.1
    · intro slot hslot
      have hread := slotsRead_relocation (hsound.fits head hhead).1 hslot
      have hbounds := (MoveType.mem_footprint_iff_of_fits (hsound.fits head hhead).2).mp hread
      exact Int64.lt_of_lt_of_le hbounds.2 (hlow hown)
  intro move hmem other hother slot hread hwritten
  have hlow := (hmove other hother).2 slot hread
  exact absurd ((hmove move hmem).1 slot hwritten) (Int64.not_le.mpr hlow)

/-! ## Registers and pressure -/

/-- A value that has to be in a register is in one. -/
theorem Sound.exists_piece_of_occupies (hsound : Sound u config pieces moves) {position : Position}
    {v : ValueId} (hv : v ∈ u.values.filter (u.occupies position)) :
    ∃ piece ∈ pieces, piece.value = v ∧ piece.covers position = true ∧
      Piece.registerAt? pieces v position = some piece.register := by
  rw [List.mem_filter, CodeUnit.occupies_iff] at hv
  obtain ⟨hvalues, hneeds, hlive⟩ := hv
  obtain ⟨piece, hpiece, rfl⟩ := hsound.covered v hvalues hneeds
  obtain ⟨register, hfound⟩ := (hsound.layout piece hpiece).exists_registerAt? hlive
  obtain ⟨other, hother, hvalue, hcovers, rfl⟩ := Piece.exists_of_registerAt? hfound
  exact ⟨other, hother, hvalue, hcovers, hfound⟩

/-- Values that are live at one position are in different registers. -/
theorem Sound.pressure_le (hsound : Sound u config pieces moves) (hnodup : u.values.Nodup)
    (position : Position) : u.pressure position ≤ (firstTemporary u pieces).toInt := by
  have hdistinct : ((u.values.filter (u.occupies position)).map fun v =>
      (Piece.registerAt? pieces v position).getD 0).Nodup := by
    refine (hnodup.filter _).map_on fun v hv w hw heq => ?_
    obtain ⟨piece, hpiece, rfl, hcovers, hfound⟩ := hsound.exists_piece_of_occupies hv
    obtain ⟨other, hother, rfl, hcovers', hfound'⟩ := hsound.exists_piece_of_occupies hw
    rw [hfound, hfound', Option.getD_some, Option.getD_some] at heq
    by_contra hne
    refine hsound.not_mem_footprint hpiece hother (fun h => hne (congrArg Piece.value h)) hcovers
      hcovers' (MoveType.self_mem_footprint _ _) ?_
    rw [heq]
    exact MoveType.self_mem_footprint _ _
  have hbelow : ∀ slot ∈ (u.values.filter (u.occupies position)).map fun v =>
      (Piece.registerAt? pieces v position).getD 0, 0 ≤ slot ∧ slot < firstTemporary u pieces := by
    intro slot hslot
    obtain ⟨v, hv, rfl⟩ := List.mem_map.mp hslot
    obtain ⟨piece, hpiece, rfl, -, hfound⟩ := hsound.exists_piece_of_occupies hv
    rw [hfound, Option.getD_some]
    exact ⟨(hsound.fits piece hpiece).1,
      slot_lt_firstTemporary hsound hpiece (MoveType.self_mem_footprint _ _)⟩
  have hlength := Scheduler.length_le_of_nodup hdistinct hbelow (firstTemporary_spec u pieces).1
  rwa [List.length_map, ← List.countP_eq_length_filter] at hlength

end Allocation

namespace Scan

variable {scan : Scan} {limit : Nat} {done : List ValueId} {now : Position}

/-- The pieces of a packed scan end at the limit at the latest. -/
theorem Packed.firstTemporary_le (hu : u.OneSlot) (hsize : limit < 2 ^ 63)
    (h : scan.Packed u config limit done now) :
    (Allocation.firstTemporary u (scan.ended ++ scan.active)).toInt ≤ limit := by
  obtain ⟨-, -, hzero | ⟨piece, hpiece, hlast⟩⟩ :=
    Allocation.firstTemporary_spec u (scan.ended ++ scan.active)
  · rw [hzero, Int64.toInt_zero]
    omega
  · have hwidth : u.pool.width piece.value = 1 :=
      hu.width (h.needy _ (h.recorded.among piece hpiece))
    have hbelow := h.below piece hpiece
    have hlow := Int64.le_toInt piece.register
    have hone : (1 : Int64).toInt = 1 := by decide
    rw [hlast, hwidth, Int64.toInt_add, hone, Int.bmod_eq_of_le (by omega) (by omega)]
    omega

/-- The first of two pieces is allocatable. -/
theorem Packed.allocatable (hu : u.OneSlot) (h : scan.Packed u config limit done now)
    {v : ValueId} {head tail : Piece}
    (hown : Piece.ofValue (scan.ended ++ scan.active) v = [head, tail]) :
    head.Allocatable u config := by
  obtain ⟨hhead, rfl⟩ : head ∈ scan.ended ++ scan.active ∧ head.value = v :=
    Piece.mem_ofValue.mp (hown ▸ List.mem_cons_self)
  have hdone := h.recorded.among head hhead
  have hlayout := h.recorded.layout _ hdone
  rw [hown] at hlayout
  obtain ⟨-, -, -, -, hlow, -⟩ := hlayout.pair
  have hwidth : u.pool.width head.value = 1 := hu.width (h.needy _ hdone)
  rw [Piece.Allocatable, hwidth]
  grind

end Scan

/-! ## Allocations -/

/-- There is a position of highest pressure. -/
theorem CodeUnit.exists_peak (u : CodeUnit) :
    ∃ peak, IsGreatest (Set.range u.pressure) peak ∧ peak ≤ u.values.length := by
  have hbound : ∀ n ∈ Set.range u.pressure, n ≤ u.values.length := by
    rintro n ⟨position, rfl⟩
    exact List.countP_le_length
  have hmem := Nat.sSup_mem (Set.range_nonempty u.pressure) ⟨u.values.length, hbound⟩
  exact ⟨_, ⟨hmem, fun n hn => le_csSup ⟨u.values.length, hbound⟩ hn⟩, hbound _ hmem⟩

/-- If no move is in the way of another, no temporaries are counted. -/
theorem CodeUnit.allocate_of_direct (hplan : u.plan config = .ok (pieces, moves))
    (hsound : Allocation.Sound u config pieces moves)
    (hinside : ∀ position, ∀ move ∈ moves.movesAt position, move.InRegisters)
    (hdirect : ∀ position, Move.Direct (moves.movesAt position)) :
    ∃ sets : List MoveSet, sets.length = moves.length ∧
      (∀ set ∈ sets, Allocation.WithoutTemporaries (Allocation.firstTemporary u pieces) set) ∧
      u.allocate config = if config.maxRegisters < Allocation.firstTemporary u pieces
        then .error (.rejected u.name (.tooManyRegisters (Allocation.firstTemporary u pieces)
          config.maxRegisters))
        else .ok ⟨pieces, sets, Allocation.firstTemporary u pieces,
          Allocation.firstTemporary u pieces⟩ := by
  have hextends : Allocation.Extends u pieces [] moves moves :=
    ⟨hsound.ordered, by simp, by simp, by simp, by simp, by simp⟩
  have hadmissible := (Allocation.admissible_iff hsound hextends).mpr (by simp)
  have hat := fun {entry} => @MoveTable.movesAt_of_mem moves hsound.ordered entry
  obtain ⟨sets, hsets, hlength, hnone⟩ := Allocation.scheduleSets_of_direct
    (Allocation.firstTemporary_spec u pieces).1
    (fun entry hentry => hat hentry ▸ hinside entry.1)
    (fun entry hentry => hat hentry ▸ hadmissible entry.1)
    (fun entry hentry => hat hentry ▸ hdirect entry.1)
  refine ⟨sets, hlength, hnone, ?_⟩
  rw [allocate_eq_plan, hplan]
  simp only [bind, Except.bind, Failure.lift, hsets, Except.mapError]
  split <;> rfl

/-- After a successful scan the registers are counted, and they are as many as the pressure is
high. -/
theorem CodeUnit.OneSlot.allocate_eq (hu : u.OneSlot) (hregisters : 0 ≤ config.registers)
    {peak : Nat} (hpeak : IsGreatest (Set.range u.pressure) peak) (hsize : peak < 2 ^ 63)
    {scan : Scan} (hscan : Scan.ofUnit u config {} = .ok scan) {done : List ValueId}
    {last : Position} (hpacked : scan.Packed u config peak done last)
    (hdone : ∀ v, v ∈ done ↔ u.Needy v) :
    ∃ (sets : List MoveSet) (temporary : Register), temporary.toInt = peak ∧
      sets.length = scan.moves.length ∧
      u.allocate config = if config.maxRegisters < temporary
        then .error (.rejected u.name (.tooManyRegisters temporary config.maxRegisters))
        else .ok ⟨scan.ended ++ scan.active, sets, temporary, temporary⟩ := by
  have hsound : Allocation.Sound u config (scan.ended ++ scan.active) scan.moves :=
    Allocation.sound_of_parts (Reserved.sound_empty u) (by simp [hu.arguments]) hpacked.placed
      hpacked.recorded (by simpa [Piece.ofValue, Needy] using hdone)
  obtain ⟨position, hposition⟩ := hpeak.1
  have htemporary : (Allocation.firstTemporary u (scan.ended ++ scan.active)).toInt = peak :=
    le_antisymm (hpacked.firstTemporary_le hu hsize)
      (hposition ▸ hsound.pressure_le hu.nodup position)
  have hinside := (Scan.numbered_ofUnit hregisters hscan).moves
  obtain ⟨sets, hlength, -, hallocate⟩ := allocate_of_direct (by rw [hu.plan_eq, hscan]; rfl) hsound
    (fun position move hmove => (hinside position move hmove).1)
    (hsound.direct fun hown => hpacked.allocatable hu hown)
  exact ⟨sets, _, htemporary, hlength, hallocate⟩

/-- Allocating a unit succeeds with as many registers as the pressure is high, or there are too
few. -/
theorem CodeUnit.OneSlot.allocate_outcome (hu : u.OneSlot) (hregisters : 0 ≤ config.registers)
    {peak : Nat} (hpeak : IsGreatest (Set.range u.pressure) peak) (hsize : peak < 2 ^ 63) :
    (∃ failure, u.allocate config = .error failure ∧ config.maxRegisters.toInt < peak) ∨
      ∃ allocation, u.allocate config = .ok allocation ∧ allocation.registersUsed.toInt = peak ∧
        peak ≤ config.maxRegisters.toInt ∧
        (peak ≤ config.registers.toInt → allocation.moveSets = []) := by
  have hpacks := Scan.packs_ofUnit hu hsize hregisters (fun position => hpeak.2 ⟨position, rfl⟩)
    hu.checkIntervals
  cases hscan : Scan.ofUnit u config {} with
  | error failure =>
    rw [hscan] at hpacks
    refine .inl ⟨failure, ?_, hpacks⟩
    rw [allocate_eq_plan, hu.plan_eq, hscan]
    rfl
  | ok scan =>
    rw [hscan] at hpacks
    obtain ⟨done, last, hpacked, hdone⟩ := hpacks
    obtain ⟨sets, temporary, htemporary, hlength, hallocate⟩ :=
      hu.allocate_eq hregisters hpeak hsize hscan hpacked hdone
    by_cases hmany : config.maxRegisters < temporary
    · rw [if_pos hmany] at hallocate
      rw [Int64.lt_iff_toInt_lt, htemporary] at hmany
      exact .inl ⟨_, hallocate, hmany⟩
    · rw [if_neg hmany] at hallocate
      rw [Int64.lt_iff_toInt_lt, htemporary, not_lt] at hmany
      refine .inr ⟨_, hallocate, htemporary, hmany, fun hle => List.length_eq_zero_iff.mp ?_⟩
      rw [hlength, hpacked.moves hle, List.length_nil]

namespace Allocator

variable {allocator : Allocator}

/-- **The scan is optimal on values of one slot.** It succeeds if and only if at no position more
values are live than there are registers. Then it uses as many registers as values are live at one
position, and if these are all allocatable, nothing moves. -/
theorem run_uses_peak (hu : u.OneSlot) (hregisters : 0 ≤ allocator.config.registers) :
    ∃ peak : Nat, IsGreatest (Set.range u.pressure) peak ∧
      ((allocator.run u).2 = none ↔ peak ≤ allocator.config.maxRegisters.toInt) ∧
      ∀ next, allocator.run u = (next, none) →
        (∃ used, next.registersUsed u = .ok used ∧ used.toInt = peak) ∧
        (peak ≤ allocator.config.registers.toInt → next.movePositions u = .ok [] ∧
          ∀ position, next.scheduledMoves u position = .ok []) := by
  obtain ⟨peak, hpeak, hle⟩ := u.exists_peak
  refine ⟨peak, hpeak, ?_⟩
  obtain ⟨failure, hallocate, hfew⟩ | ⟨allocation, hallocate, hused, henough, hmoves⟩ :=
    @CodeUnit.OneSlot.allocate_outcome u allocator.config hu hregisters peak hpeak
      (Nat.lt_of_le_of_lt hle hu.size)
  · have hrun : allocator.run u = ({ allocator with allocation := none }, some failure) := by
      rw [run, hallocate]
    rw [hrun]
    exact ⟨iff_of_false (by simp) (Int.not_le.mpr hfew), fun next hnext => by cases hnext⟩
  · have hrun : allocator.run u = (holding allocator.config allocation, none) := by
      rw [run, hallocate]
    rw [hrun]
    refine ⟨iff_of_true rfl henough, fun next hnext => ?_⟩
    cases hnext
    refine ⟨⟨allocation.registersUsed, rfl, hused⟩, fun hroom => ?_⟩
    have hnone := hmoves hroom
    simp [movePositions, scheduledMoves, get, hnone, bind, Except.bind, pure, Except.pure]

/-- With two allocatable registers, `a` gives way to `c` before it has begun, and `d` to `e` in the
middle. The constant needs no register. -/
def rush : CodeUnit where
  name := "rush"
  pool := {
    values := #[
      { number := 0, name := "a", type := .object, start := 1, stop := 20 },
      { number := 1, name := "b", type := .single, start := 1, stop := 9 },
      { number := 2, name := "c", type := .single, start := 1, stop := 5 },
      { number := 3, name := "d", type := .object, start := 6, stop := 30 },
      { number := 4, name := "e", type := .single, start := 7, stop := 8 },
      { number := 5, name := "k", type := .wide, start := 2, stop := 9, definition := some 0 }]
    instrs := #[{ number := 2, opcode := .const, literal := some (.int 7), out := some 5 }] }
  instrs := [0]
  values := [0, 1, 2, 3, 4, 5]

theorem run_uses_peak_rush : rush.OneSlot ∧ IsGreatest (Set.range rush.pressure) 4 ∧
    (∃ next : Allocator,
      ({ config := { registers := 2, maxRegisters := 4 } } : Allocator).run rush = (next, none) ∧
      next.registersUsed rush = .ok 4 ∧ next.movePositions rush = .ok [7]) ∧
    (({ config := { registers := 2, maxRegisters := 3 } } : Allocator).run rush).2 ≠ none ∧
    ∃ next : Allocator,
      ({ config := { registers := 4, maxRegisters := 4 } } : Allocator).run rush = (next, none) ∧
      next.movePositions rush = .ok [] := by
  have hneeds : ∀ v ∈ rush.values, rush.pool.needsRegister v = .ok (v != 5) := by decide
  have hu : rush.OneSlot :=
    ⟨by decide, by decide, rfl, rfl, by decide, fun v hv => ⟨_, hneeds v hv⟩, by decide⟩
  have hnone : (({ config := { registers := 2, maxRegisters := 4 } } : Allocator).run
      rush).2 = none := by decide +kernel
  obtain ⟨peak, hpeak, -, hrun⟩ :=
    @run_uses_peak rush { config := { registers := 2, maxRegisters := 4 } } hu (by decide)
  obtain ⟨⟨used, hused, hcount⟩, -⟩ := hrun _ (Prod.ext rfl hnone)
  have hfour : (({ config := { registers := 2, maxRegisters := 4 } } : Allocator).run
      rush).1.registersUsed rush = .ok 4 := by decide +kernel
  obtain rfl : used = 4 := Except.ok.inj (hused.symm.trans hfour)
  have hword : (4 : Int64).toInt = 4 := by decide
  obtain rfl : peak = 4 := by omega
  obtain ⟨high, hhigh, hfew, -⟩ :=
    @run_uses_peak rush { config := { registers := 2, maxRegisters := 3 } } hu (by decide)
  obtain ⟨top, htop, henough, hstill⟩ :=
    @run_uses_peak rush { config := { registers := 4, maxRegisters := 4 } } hu (by decide)
  obtain rfl : 4 = high := hpeak.unique hhigh
  obtain rfl : 4 = top := hpeak.unique htop
  have hplenty := henough.mpr (by decide)
  exact ⟨hu, hpeak, ⟨_, Prod.ext rfl hnone, hfour, by decide +kernel⟩, mt hfew.mp (by decide), _,
    Prod.ext rfl hplenty, ((hstill _ (Prod.ext rfl hplenty)).2 (by decide)).1⟩

end Allocator
end RegisterAllocation
