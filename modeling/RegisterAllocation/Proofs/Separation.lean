import RegisterAllocation.Allocation.Query
import RegisterAllocation.Proofs.Scan.Run

/-!
# Live values are apart

An allocation gives every value that needs a register its pieces without gaps, and values that are
live at the same position are in different slots (`Allocator.run_separates`). Arguments may be
constants that need no register and have no proper interval. Such an interval, one that stops before
it starts, can spoil the allocation, but only where the interval of another value stops at its
start.
-/

namespace RegisterAllocation

/-- The parts of a successful allocation. -/
theorem CodeUnit.allocate_eq_ok {u : CodeUnit} {config : Config} {allocation : Allocation}
    (h : u.allocate config = .ok allocation) :
    Allocation.checkIntervals u u.values = .ok () ∧
    ∃ reserved scan moves, Reserved.ofUnit u config = .ok reserved ∧
      Scan.ofUnit u config reserved = .ok scan ∧
      allocation.pieces = Reserved.latest reserved.pieces ++ scan.ended ++ scan.active ∧
      Allocation.addCopies u allocation.pieces [] scan.moves u.copies = .ok moves ∧
      allocation.temporary = Allocation.firstTemporary u allocation.pieces ∧
      Allocation.scheduleSets allocation.temporary allocation.temporary moves =
        .ok (allocation.moveSets, allocation.registersUsed) ∧
      allocation.registersUsed ≤ config.maxRegisters := by
  rw [CodeUnit.allocate] at h
  obtain ⟨⟨⟩, hintervals, h⟩ := bind_eq_ok h
  obtain ⟨reserved, hreserved, h⟩ := bind_eq_ok h
  obtain ⟨scan, hscan, h⟩ := bind_eq_ok h
  obtain ⟨moves, hmoves, h⟩ := bind_eq_ok h
  obtain ⟨⟨moveSets, registersUsed⟩, hsets, h⟩ := bind_eq_ok h
  by_cases hmany : config.maxRegisters < registersUsed
  · simp only [if_pos hmany] at h
    cases h
  simp only [if_neg hmany] at h
  cases h
  exact ⟨hintervals, reserved, scan, moves, hreserved, hscan, rfl, hmoves, rfl,
    Failure.lift_eq_ok hsets, Int64.not_lt.mp hmany⟩

/-- A run without a failure holds its allocation. -/
theorem Allocator.run_eq_none {allocator next : Allocator} {u : CodeUnit}
    (h : allocator.run u = (next, none)) : ∃ allocation,
      u.allocate allocator.config = .ok allocation ∧
        next = { allocator with allocation := some allocation } := by
  rw [Allocator.run] at h
  split at h
  · next allocation hallocate =>
    exact ⟨allocation, hallocate, (congrArg Prod.fst h).symm⟩
  · exact absurd (congrArg Prod.snd h) (by simp)

namespace Allocation

variable {u : CodeUnit} {config : Config} {allocation : Allocation}

/-- What holds of the pieces of an allocation and of the moves that the scan has made. -/
structure Sound (u : CodeUnit) (config : Config) (pieces : List Piece) (moves : MoveTable) :
    Prop where
  fits : ∀ piece ∈ pieces, piece.Fits u.pool
  apart : ∀ piece ∈ pieces, ∀ other ∈ pieces, piece = other ∨ piece.Apart u.pool other
  layout : ∀ piece ∈ pieces, Piece.Layout u config piece.value (Piece.ofValue pieces piece.value)
  covered : ∀ v ∈ u.values, u.pool.needsRegister v = .ok true → ∃ piece ∈ pieces, piece.value = v
  arguments : ∀ v ∈ u.arguments, ∃ register,
    Piece.ofValue pieces v = [⟨v, (u.value v).start, (u.value v).stop, register⟩]
  ordered : moves.Ordered
  moves : ∀ position move, move ∈ moves.movesAt position ↔
    ∃ v head tail, Piece.ofValue pieces v = [head, tail] ∧
      tail.start = position ∧ move = Scan.relocation u head tail

/-- The pieces of an allocation come from the fixed registers and from the scan. -/
theorem sound_of_parts {reserved : Reserved} {scan : Scan} {done : List ValueId} {now : Position}
    (hreserved : reserved.Sound u)
    (harguments : ∀ v ∈ u.arguments, ∃ piece ∈ reserved.pieces, piece.value = v)
    (hscan : scan.Placed u reserved now) (hrecorded : scan.Recorded u config done)
    (hdone : ∀ v, v ∈ done ↔ v ∈ u.values ∧ u.pool.needsRegister v = .ok true ∧
      Piece.ofValue reserved.pieces v = []) :
    Sound u config (Reserved.latest reserved.pieces ++ scan.ended ++ scan.active) scan.moves := by
  have hmem : ∀ piece, piece ∈ Reserved.latest reserved.pieces ++ scan.ended ++ scan.active →
      piece ∈ reserved.pieces ∨ piece ∈ scan.ended ++ scan.active := by
    intro piece hpiece
    rw [List.append_assoc, List.mem_append] at hpiece
    exact hpiece.imp_left Reserved.mem_of_mem_latest
  -- a value has its pieces either from the one or from the other
  have hunscanned : ∀ v, (∃ piece ∈ reserved.pieces, piece.value = v) →
      Piece.ofValue (scan.ended ++ scan.active) v = [] := by
    rintro v ⟨piece, hpiece, rfl⟩
    refine Piece.ofValue_eq_nil fun other hother heq => ?_
    have hnil := ((hdone _).mp (hrecorded.among other hother)).2.2
    have hin : piece ∈ Piece.ofValue reserved.pieces piece.value :=
      Piece.mem_ofValue.mpr ⟨hpiece, rfl⟩
    rw [← heq, hnil] at hin
    exact absurd hin (by simp)
  have hfixed : ∀ v, (∃ piece ∈ reserved.pieces, piece.value = v) → ∃ register,
      Piece.ofValue (Reserved.latest reserved.pieces ++ scan.ended ++ scan.active) v =
        [⟨v, (u.value v).start, (u.value v).stop, register⟩] := by
    intro v hv
    obtain ⟨last, hlast, rfl, hofValue⟩ := Reserved.ofValue_latest hv
    obtain ⟨hstart, hstop⟩ := hreserved.whole last hlast
    refine ⟨last.register, ?_⟩
    rw [List.append_assoc, Piece.ofValue_append, hofValue, hunscanned _ hv, List.append_nil,
      CodeUnit.value, ← hstart, ← hstop]
  have hscanned : ∀ v, (¬ ∃ piece ∈ reserved.pieces, piece.value = v) →
      Piece.ofValue (Reserved.latest reserved.pieces ++ scan.ended ++ scan.active) v =
        Piece.ofValue (scan.ended ++ scan.active) v := by
    intro v hv
    rw [List.append_assoc, Piece.ofValue_append,
      Reserved.ofValue_latest_eq_nil fun piece hpiece heq => hv ⟨piece, hpiece, heq⟩,
      List.nil_append]
  refine ⟨fun piece hpiece => ?_, fun piece hpiece other hother => ?_, fun piece hpiece => ?_,
    fun v hv hneeds => ?_, fun v hv => hfixed v (harguments v hv), hrecorded.ordered,
    fun position move => ?_⟩
  · exact (hmem piece hpiece).elim (hreserved.fits piece) (hscan.fits piece)
  · obtain hpiece | hpiece := hmem piece hpiece <;> obtain hother | hother := hmem other hother
    · by_cases heq : piece = other
      · exact .inl heq
      · exact .inr (hreserved.apart.forall hpiece hother heq)
    · exact .inr (hscan.apartFixed other hother piece hpiece)
    · exact .inr (hscan.apartFixed piece hpiece other hother).symm
    · exact hscan.apart piece hpiece other hother
  · by_cases hplaced : ∃ other ∈ reserved.pieces, other.value = piece.value
    · obtain ⟨register, heq⟩ := hfixed _ hplaced
      exact heq ▸ .whole register
    · rw [hscanned _ hplaced]
      refine hrecorded.layout _ (hrecorded.among piece ?_)
      exact (hmem piece hpiece).resolve_left fun h => hplaced ⟨piece, h, rfl⟩
  · by_cases hplaced : ∃ piece ∈ reserved.pieces, piece.value = v
    · obtain ⟨register, heq⟩ := hfixed v hplaced
      have hin := List.mem_of_mem_filter (heq ▸ List.mem_singleton_self _ :
        _ ∈ Piece.ofValue _ v)
      exact ⟨_, hin, rfl⟩
    · have hnone : Piece.ofValue reserved.pieces v = [] :=
        Piece.ofValue_eq_nil fun piece hpiece heq => hplaced ⟨piece, hpiece, heq⟩
      have hlayout := hrecorded.layout v ((hdone v).mpr ⟨hv, hneeds, hnone⟩)
      rw [← hscanned v hplaced] at hlayout
      obtain ⟨piece, hpiece⟩ := hlayout.exists_mem
      exact ⟨piece, (Piece.mem_ofValue.mp hpiece).1, (Piece.mem_ofValue.mp hpiece).2⟩
  · refine (hrecorded.moves position move).trans (exists_congr fun v => ?_)
    by_cases hplaced : ∃ piece ∈ reserved.pieces, piece.value = v
    · obtain ⟨register, heq⟩ := hfixed v hplaced
      rw [heq, hunscanned v hplaced]
      simp
    · rw [hscanned v hplaced]

/-- The two pieces of a value that has two. -/
theorem Sound.pair {pieces : List Piece} {moves : MoveTable} (h : Sound u config pieces moves)
    {v : ValueId} {head tail : Piece} (hown : Piece.ofValue pieces v = [head, tail]) :
    head ∈ pieces ∧ head.value = v ∧ tail ∈ pieces ∧ tail.value = v ∧
      Piece.Layout u config v [head, tail] := by
  obtain ⟨hhead, hvalue⟩ : head ∈ pieces ∧ head.value = v :=
    Piece.mem_ofValue.mp (hown ▸ List.mem_cons_self)
  obtain ⟨htail, hvalue'⟩ : tail ∈ pieces ∧ tail.value = v :=
    Piece.mem_ofValue.mp (hown ▸ List.mem_cons_of_mem _ List.mem_cons_self)
  have hlayout := h.layout head hhead
  rw [hvalue, hown] at hlayout
  exact ⟨hhead, hvalue, htail, hvalue', hlayout⟩

/-- A piece is the first one of its value, or the second of two. -/
theorem Sound.first_or_second {pieces : List Piece} {moves : MoveTable}
    (h : Sound u config pieces moves) {piece : Piece} (hpiece : piece ∈ pieces) :
    piece.start = (u.value piece.value).start ∨
      ∃ head, Piece.ofValue pieces piece.value = [head, piece] := by
  have hmem : piece ∈ Piece.ofValue pieces piece.value := Piece.mem_ofValue.mpr ⟨hpiece, rfl⟩
  have hlayout := h.layout piece hpiece
  generalize Piece.ofValue pieces piece.value = own at hmem hlayout ⊢
  cases hlayout with
  | whole register => exact .inl (congrArg Piece.start (List.mem_singleton.mp hmem))
  | split register spill cut =>
    obtain heq | hmem := List.mem_cons.mp hmem
    · exact .inl (congrArg Piece.start heq)
    · exact .inr ⟨_, by rw [← List.mem_singleton.mp hmem]⟩

/-- The pieces of a unit are sound. -/
theorem sound_ofUnit {reserved : Reserved} {scan : Scan} (hu : u.WellFormed config)
    (hends : ∀ p, u.EndsAt p → ¬ u.FlipsAt p) (hregisters : 0 ≤ config.registers)
    (hintervals : checkIntervals u u.values = .ok ())
    (hreserved : Reserved.ofUnit u config = .ok reserved)
    (hscan : Scan.ofUnit u config reserved = .ok scan) :
    Sound u config (Reserved.latest reserved.pieces ++ scan.ended ++ scan.active) scan.moves := by
  obtain ⟨hfixed, hlength, harguments⟩ := Reserved.sound_ofUnit hends hu hintervals hreserved
  obtain ⟨done, last, hsound, hdone⟩ :=
    Scan.sound_ofUnit hu hfixed hlength hregisters hintervals hscan
  exact sound_of_parts hfixed harguments hsound.placed hsound.recorded hdone

end Allocation

namespace Piece

variable {u : CodeUnit} {config : Config} {pieces : List Piece} {v : ValueId} {position : Position}
  {register : Register}

/-- The register of a value at a position is that of a piece. -/
theorem exists_of_registerAt? (h : registerAt? pieces v position = some register) :
    ∃ piece ∈ pieces, piece.value = v ∧ piece.covers position = true ∧
    piece.register = register := by
  obtain ⟨piece, hfind, hregister⟩ := Option.map_eq_some_iff.mp h
  obtain ⟨hpiece, hvalue⟩ := mem_ofValue.mp (List.mem_of_find?_eq_some hfind)
  have hcovers : piece.covers position = true := by simpa using List.find?_some hfind
  exact ⟨piece, hpiece, hvalue, hcovers, hregister⟩

/-- A layout has no gaps. -/
theorem Layout.exists_registerAt? (h : Layout u config v (ofValue pieces v))
    (hlive : (u.value v).liveAt position = true) :
    ∃ register, registerAt? pieces v position = some register := by
  obtain ⟨hstart, hstop⟩ : (u.value v).start ≤ position ∧ position < (u.value v).stop := by
    simpa [Value.liveAt] using hlive
  rw [registerAt?]
  generalize ofValue pieces v = own at h ⊢
  cases h with
  | whole register => exact ⟨register, by simp [covers, hstart, hstop]⟩
  | split register spill cut =>
    by_cases hcut : position < cut
    · exact ⟨register, by simp [covers, hstart, hcut]⟩
    · have hafter : cut ≤ position := by grind
      exact ⟨spill, by simp [covers, hcut, hafter, hstop]⟩

/-- The pieces of a layout do not overlap. -/
theorem Layout.eq_of_covers {own : List Piece} (h : Layout u config v own) {piece other : Piece}
    (hpiece : piece ∈ own) (hother : other ∈ own) (hcovers : piece.covers position = true)
    (hcovers' : other.covers position = true) : piece = other := by
  rw [covers_iff] at hcovers hcovers'
  cases h with
  | whole register =>
    exact (List.mem_singleton.mp hpiece).trans (List.mem_singleton.mp hother).symm
  | split register spill cut =>
    simp only [List.mem_cons, List.not_mem_nil, or_false] at hpiece hother
    obtain rfl | rfl := hpiece <;> obtain rfl | rfl := hother <;> grind

/-- A value is in the piece that covers the position. -/
theorem registerAt?_eq {piece : Piece}
    (h : Layout u config piece.value (ofValue pieces piece.value))
    (hpiece : piece ∈ pieces) (hcovers : piece.covers position = true) :
    registerAt? pieces piece.value position = some piece.register := by
  have hmem : piece ∈ ofValue pieces piece.value := mem_ofValue.mpr ⟨hpiece, rfl⟩
  rw [registerAt?]
  cases hfind : (ofValue pieces piece.value).find? (·.covers position) with
  | none => exact absurd hcovers (by simpa using List.find?_eq_none.mp hfind piece hmem)
  | some found =>
    have hfound : found.covers position = true := by simpa using List.find?_some hfind
    rw [h.eq_of_covers hmem (List.mem_of_find?_eq_some hfind) hcovers hfound, Option.map_some]

/-- Pieces that are apart have different slots wherever both hold. -/
theorem footprintsMeet_of_apart {piece other : Piece} {pool : Pool} (h : piece.Apart pool other)
    (hfits : piece.Fits pool) (hfits' : other.Fits pool) (hcovers : piece.covers position = true)
    (hcovers' : other.covers position = true) :
    (pool.value piece.value).type.footprintsMeet piece.register (pool.value other.value).type
      other.register = false := by
  rw [MoveType.footprintsMeet_eq_false_iff]
  intro slot hslot hslot'
  rw [MoveType.mem_footprint_iff_of_fits hfits.2] at hslot
  rw [MoveType.mem_footprint_iff_of_fits hfits'.2] at hslot'
  have hfalse := h position slot hcovers hcovers' (usesSlot_iff.mpr hslot)
  rw [usesSlot_iff.mpr hslot'] at hfalse
  exact Bool.noConfusion hfalse

end Piece

namespace Allocator

/-- An allocator that has an allocation. -/
abbrev holding (config : Config) (allocation : Allocation) : Allocator :=
  { config, allocation := some allocation }

theorem placement_eq {config : Config} {allocation : Allocation} {u : CodeUnit} {v : ValueId}
    {position : Position} {register : Register}
    (h : Piece.registerAt? allocation.pieces v position = some register) :
    (holding config allocation).placement u v position = .ok register := by
  simp only [placement, get, bind, Except.bind, h]

/-- A placement is the register of the piece at the position. -/
theorem placement_eq_ok_iff {config : Config} {allocation : Allocation} {u : CodeUnit}
    {v : ValueId} {position : Position} {register : Register} :
    (holding config allocation).placement u v position = .ok register ↔
      Piece.registerAt? allocation.pieces v position = some register := by
  refine ⟨fun h => ?_, placement_eq⟩
  obtain ⟨found, hfound, h⟩ := bind_eq_ok h
  cases hfound
  split at h
  · next other hother => rw [hother, Except.ok.inj h]
  · cases h

/-- Every value that needs a register has one all along its interval, in one piece or in two of
which the second is in the spill area, and the slots of values that are live at the same position
are disjoint. -/
theorem run_separates {allocator next : Allocator} {u : CodeUnit}
    (hu : u.WellFormed allocator.config)
    (hends : ∀ position, u.EndsAt position → ¬ u.FlipsAt position)
    (hregisters : 0 ≤ allocator.config.registers) (hrun : allocator.run u = (next, none)) :
    (∀ v ∈ u.values, u.pool.needsRegister v = .ok true →
      (u.value v).start < (u.value v).stop ∧
      (∃ pieces, next.pieces u v = .ok pieces ∧ Piece.Layout u allocator.config v pieces) ∧
      ∀ position, (u.value v).liveAt position = true →
        ∃ register, next.placement u v position = .ok register) ∧
    ∀ v ∈ u.values, ∀ w ∈ u.values, v ≠ w → u.pool.needsRegister v = .ok true →
      u.pool.needsRegister w = .ok true → ∀ position, (u.value v).liveAt position = true →
      (u.value w).liveAt position = true → ∃ register register',
        next.placement u v position = .ok register ∧ next.placement u w position = .ok register' ∧
        (u.value v).type.footprintsMeet register (u.value w).type register' = false := by
  obtain ⟨allocation, hallocate, rfl⟩ := run_eq_none hrun
  obtain ⟨hintervals, reserved, scan, -, hreserved, hscan, hpieces, -, -, -⟩ :=
    CodeUnit.allocate_eq_ok hallocate
  have hsound := Allocation.sound_ofUnit hu hends hregisters hintervals hreserved hscan
  rw [← hpieces] at hsound
  have hlayout : ∀ v ∈ u.values, u.pool.needsRegister v = .ok true →
      Piece.Layout u allocator.config v (Piece.ofValue allocation.pieces v) := by
    intro v hv hneeds
    obtain ⟨piece, hpiece, rfl⟩ := hsound.covered v hv hneeds
    exact hsound.layout piece hpiece
  have hregister : ∀ v ∈ u.values, u.pool.needsRegister v = .ok true → ∀ position,
      (u.value v).liveAt position = true → ∃ register,
        Piece.registerAt? allocation.pieces v position = some register :=
    fun v hv hneeds position hlive => (hlayout v hv hneeds).exists_registerAt? hlive
  constructor
  · intro v hv hneeds
    have hinterval := (Allocation.checkIntervals_iff.mp hintervals v hv).2 hneeds
    refine ⟨by simpa [Value.hasInterval] using hinterval,
      ⟨_, rfl, hlayout v hv hneeds⟩, fun position hlive => ?_⟩
    obtain ⟨register, heq⟩ := hregister v hv hneeds position hlive
    exact ⟨register, placement_eq heq⟩
  · intro v hv w hw hne hneeds hneeds' position hlive hlive'
    obtain ⟨register, heq⟩ := hregister v hv hneeds position hlive
    obtain ⟨register', heq'⟩ := hregister w hw hneeds' position hlive'
    obtain ⟨piece, hpiece, rfl, hcovers, rfl⟩ := Piece.exists_of_registerAt? heq
    obtain ⟨other, hother, rfl, hcovers', rfl⟩ := Piece.exists_of_registerAt? heq'
    have hapart := (hsound.apart piece hpiece other hother).resolve_left
      fun h => hne (congrArg Piece.value h)
    exact ⟨_, _, placement_eq heq, placement_eq heq', Piece.footprintsMeet_of_apart hapart
      (hsound.fits piece hpiece) (hsound.fits other hother) hcovers hcovers'⟩

/-- An argument, a wide value that gives way at 3, a pinned value and the input of a range. -/
def crowded : CodeUnit where
  name := "crowded"
  pool := {
    values := #[
      { number := 0, name := "a", type := .single, stop := 9, isArgument := true },
      { number := 1, name := "b", type := .wide, start := 1, stop := 8 },
      { number := 2, name := "c", type := .single, start := 3, stop := 5 },
      { number := 3, name := "d", type := .object, start := 2, stop := 6, fixed := some 6 },
      { number := 4, name := "e", type := .single, start := 6, stop := 7, uses := [0] },
      { number := 5, name := "f", type := .single, start := 3, stop := 4 }]
    instrs := #[{ number := 6, opcode := .invokeRange, inputs := [4] }] }
  arguments := [0]
  instrs := [0]
  values := [0, 1, 2, 3, 4, 5]

theorem run_separates_crowded : crowded.WellFormed { registers := 4, maxRegisters := 12 } ∧
    ∃ next : Allocator,
    ({ config := { registers := 4, maxRegisters := 12 } } : Allocator).run crowded = (next, none) ∧
    (∃ pieces, next.pieces crowded 1 = .ok pieces ∧
      Piece.Layout crowded { registers := 4, maxRegisters := 12 } 1 pieces) ∧
    ∃ register register', next.placement crowded 1 3 = .ok register ∧
      next.placement crowded 5 3 = .ok register' ∧
      MoveType.wide.footprintsMeet register .single register' = false := by
  have hu : crowded.WellFormed { registers := 4, maxRegisters := 12 } := by decide
  have hends : ∀ position, crowded.EndsAt position → ¬ crowded.FlipsAt position := by
    rintro position - ⟨v, hv, hflips, -⟩
    obtain rfl : v = 0 := List.mem_singleton.mp hv
    exact absurd hflips (by decide)
  have hnone : (({ config := { registers := 4, maxRegisters := 12 } } : Allocator).run
      crowded).2 = none := by decide +kernel
  obtain ⟨hcovered, hapart⟩ := run_separates hu hends (by decide) (Prod.ext rfl hnone)
  exact ⟨hu, _, Prod.ext rfl hnone, (hcovered 1 (by decide) rfl).2.1,
    hapart 1 (by decide) 5 (by decide) (by decide) rfl rfl 3 rfl rfl⟩

/-- An argument that is a constant, with a reversed interval that starts where the one of `p`
stops. -/
def hole : CodeUnit where
  name := "hole"
  pool := {
    values := #[
      { number := 0, name := "a", type := .single, start := 5, stop := 2, isArgument := true,
        definition := some 0 },
      { number := 1, name := "p", type := .single, start := 1, stop := 5, fixed := some 0 },
      { number := 2, name := "x", type := .single, start := 3, stop := 6 }]
    instrs := #[{ number := 2, opcode := .const, literal := some (.int 7), out := some 0 }] }
  arguments := [0]
  instrs := [0]
  values := [0, 1, 2]

/-- Without the condition on intervals two live values can share a register. -/
theorem run_hole_shares : hole.WellFormed { registers := 4, maxRegisters := 8 } ∧
    ∃ next : Allocator,
    ({ config := { registers := 4, maxRegisters := 8 } } : Allocator).run hole = (next, none) ∧
    hole.pool.needsRegister 1 = .ok true ∧ hole.pool.needsRegister 2 = .ok true ∧
    (hole.value 1).liveAt 3 = true ∧ (hole.value 2).liveAt 3 = true ∧
    next.placement hole 1 3 = .ok 0 ∧ next.placement hole 2 3 = .ok 0 := by
  have hnone : (({ config := { registers := 4, maxRegisters := 8 } } : Allocator).run
      hole).2 = none := by decide +kernel
  exact ⟨by decide, _, Prod.ext rfl hnone, rfl, rfl, rfl, rfl, by decide +kernel, by decide +kernel⟩

end Allocator
end RegisterAllocation
