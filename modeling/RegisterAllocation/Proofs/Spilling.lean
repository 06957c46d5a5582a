import RegisterAllocation.Proofs.Pressure

/-!
# Spilling always works

Where nothing but the arguments has a fixed register, a unit is never refused for its register
pressure if the spill area has three registers for each value: each value finds its place after
finitely many evictions, and no move needs a temporary (`Allocator.run_spills`). The arguments take
two registers each at most, and all other values are dealt with by the eviction loop.
-/

namespace RegisterAllocation

variable {u : CodeUnit} {config : Config}

/-- A unit without ranges and copies in which nothing but the arguments has a fixed register. -/
structure CodeUnit.Unpinned (u : CodeUnit) : Prop where
  nodup : u.values.Nodup
  distinct : u.arguments.Nodup
  arguments : u.arguments ⊆ u.values
  /-- An argument is pinned to the register in which it arrives, if at all. -/
  arrival : ∀ piece ∈ u.row 0 u.arguments, ∀ register ∈ (u.value piece.value).fixed,
    register = piece.register
  free : ∀ v ∈ u.values, ∀ register, ¬ u.IsPinned v register
  ranges : ∀ i ∈ u.instrs, (u.instr i).opcode = .invokeRange → (u.instr i).inputs = []
  copies : u.copies = []
  needs : ∀ v ∈ u.values, ∃ needs, u.pool.needsRegister v = .ok needs
  intervals : ∀ v ∈ u.values, v ∈ u.arguments ∨ u.pool.needsRegister v = .ok true →
    (u.value v).hasInterval = true

/-! ## Arguments -/

namespace Reserved

variable {reserved : Reserved} {v : ValueId} {register : Register}

/-- Slots without conflicts pass their check. -/
theorem checkSlots_eq {slots : List Register}
    (h : ∀ slot ∈ slots, (reserved.rangeAt slot).conflicts (liveRange u v) = false) :
    reserved.checkSlots u v slots = .ok () := by
  induction slots with
  | nil => rfl
  | cons slot slots ih =>
    obtain ⟨hslot, hslots⟩ := List.forall_mem_cons.mp h
    rw [checkSlots, hslot, if_neg Bool.false_ne_true]
    exact ih hslots

/-- A value can be placed in slots that are free. -/
theorem exists_place (hnonneg : 0 ≤ register)
    (hbelow : register + u.pool.width v ≤ config.maxRegisters)
    (hfree : ∀ slot ∈ (u.value v).type.span register,
      (reserved.rangeAt slot).conflicts (liveRange u v) = false) :
    ∃ placed, reserved.place u config v register = .ok placed := by
  obtain ⟨taken, htaken⟩ := exists_takeSlots (MoveType.nodup_span _ _) hfree
  have hgood : ¬ (register < 0 ∨ config.maxRegisters < register + (u.value v).type.width) := by
    rw [not_or, Int64.not_lt, Int64.not_lt]
    exact ⟨hnonneg, hbelow⟩
  refine ⟨⟨reserved.pieces ++ [u.whole v register], taken⟩, ?_⟩
  rw [place, if_neg hgood]
  simp only [checkSlots_eq hfree, htaken, Failure.lift, Except.mapError, bind, Except.bind]
  rfl

/-- Where all slots from `register` on are free, there is room for as many arguments as fit with two
registers for each. -/
theorem exists_placeArguments {vs : List ValueId} (hnonneg : 0 ≤ register)
    (hroom : register.toInt + 2 * vs.length ≤ config.maxRegisters.toInt)
    (harrival : ∀ piece ∈ u.row register vs, ∀ fixed ∈ (u.value piece.value).fixed,
      fixed = piece.register)
    (hfree : ∀ slot, register ≤ slot → reserved.rangeAt slot = .empty) :
    ∃ placed, placeArguments u config reserved register vs = .ok placed ∧
      ∀ piece ∈ u.row register vs,
        piece.register + u.pool.width piece.value ≤ config.maxRegisters := by
  induction vs generalizing reserved register with
  | nil => exact ⟨reserved, rfl, by simp [CodeUnit.row]⟩
  | cons v vs ih =>
    obtain ⟨hown, harrival⟩ := List.forall_mem_cons.mp harrival
    have hlast := Int64.toInt_lt config.maxRegisters
    have hwidth : (u.pool.width v).toInt = 1 ∨ (u.pool.width v).toInt = 2 :=
      (u.value v).type.toInt_width
    rw [List.length_cons] at hroom
    push_cast at hroom
    have hadd : (register + u.pool.width v).toInt = register.toInt + (u.pool.width v).toInt :=
      (u.value v).type.toInt_add_width hnonneg (by omega)
    have hbelow : register + u.pool.width v ≤ config.maxRegisters := by
      rw [Int64.le_iff_toInt_le, hadd]
      omega
    have hnext : register < register + u.pool.width v := by
      rw [Int64.lt_iff_toInt_lt, hadd]
      omega
    obtain ⟨next, hplace⟩ := @exists_place u config reserved v register hnonneg hbelow
      fun slot hslot => by
        rw [hfree slot (MoveType.mem_span.mp hslot).1]
        simp [LiveRange.conflicts, LiveRange.empty, LiveRange.meet]
    -- the slots of the value end where those of the next one begin
    have hfree' : ∀ slot, register + u.pool.width v ≤ slot → next.rangeAt slot = .empty := by
      intro slot hslot
      have hout : slot ∉ (u.value v).type.span register := fun hmem =>
        absurd (MoveType.mem_span.mp hmem).2 (Int64.not_lt.mpr hslot)
      rw [(place_spec hplace).2.2.2 slot hout]
      exact hfree slot (Int64.le_trans (Int64.le_of_lt hnext) hslot)
    obtain ⟨placed, hplaced, hends⟩ := ih (Int64.le_trans hnonneg (Int64.le_of_lt hnext))
      (by rw [hadd]; omega) harrival hfree'
    refine ⟨placed, ?_, List.forall_mem_cons.mpr ⟨hbelow, hends⟩⟩
    rw [placeArguments]
    cases hfixed : (u.value v).fixed with
    | none =>
      simp only [hplace, bind, Except.bind]
      exact hplaced
    | some fixed =>
      simp only [hown fixed hfixed, CodeUnit.whole, ne_eq, not_true_eq_false, if_false,
        hplace, bind, Except.bind]
      exact hplaced

/-- The arguments are placed, and nothing else. -/
theorem exists_ofUnit (hu : u.Unpinned)
    (hroom : 2 * u.arguments.length ≤ config.maxRegisters.toInt) :
    ∃ reserved, ofUnit u config = .ok reserved ∧ reserved.Sound u ∧
      reserved.pieces = u.row 0 u.arguments ∧
      ∀ piece ∈ reserved.pieces,
        piece.register + u.pool.width piece.value ≤ config.maxRegisters := by
  have hlast := Int64.toInt_lt config.maxRegisters
  have hzero := Int64.toInt_zero
  obtain ⟨reserved, harguments, hbelow⟩ := @exists_placeArguments u config {} 0 u.arguments
    (Int64.le_refl 0) (by omega) hu.arrival fun slot _ => rfl
  have hpinned : placePinned u config reserved u.values = .ok reserved :=
    placePinned_eq fun v hv => ⟨hu.needs v hv, hu.free v hv⟩
  have hranges : placeRanges u config reserved [] u.instrs = .ok reserved :=
    placeRanges_eq hu.ranges
  have hrow := placeRow_of_placeArguments harguments
  have hpieces : reserved.pieces = u.row 0 u.arguments := pieces_placeRow hrow
  have hproper : ∀ v ∈ u.arguments, (u.value v).hasInterval = true := fun v hv =>
    hu.intervals v (hu.arguments hv) (.inl hv)
  refine ⟨reserved, ?_, ?_, hpieces, hpieces ▸ hbelow⟩
  · simp only [ofUnit, harguments, hpinned, hranges, bind, Except.bind]
  · have hwidth : u.totalWidth u.arguments ≤ _ := CodeUnit.totalWidth_le
    refine (sound_empty u).placeRow (fun position _ => ?_)
      (fun v hv => CodeUnit.writable_of_hasInterval (hu.arguments hv) (hproper v hv))
      (by simp) (by omega) hrow
    rintro ⟨v, hv, hflips, -⟩
    have hlt : (u.value v).start < (u.value v).stop := by
      simpa [Value.hasInterval] using hproper v hv
    exact absurd (Int64.lt_trans hlt hflips) Int64.lt_irrefl

end Reserved

/-! ## The scan -/

section Scan

variable {reserved : Reserved} {scan : Scan} {done : List ValueId} {last : Position}

/-- Arguments and the values of the scan are different values of the unit. -/
theorem CodeUnit.Unpinned.length_le (hu : u.Unpinned) {vs : List ValueId} (hvs : vs.Nodup)
    (hmem : ∀ v ∈ vs, v ∈ u.values ∧ v ∉ u.arguments) :
    u.arguments.length + vs.length ≤ u.values.length := by
  have hnodup : (u.arguments ++ vs).Nodup :=
    List.nodup_append.mpr ⟨hu.distinct, hvs, fun v hv w hw heq => (hmem w hw).2 (heq ▸ hv)⟩
  have hsub : u.arguments ++ vs ⊆ u.values :=
    List.append_subset.mpr ⟨hu.arguments, fun v hv => (hmem v hv).1⟩
  rw [← List.length_append]
  exact (List.subperm_of_subset hnodup hsub).length_le

/-- The intervals of a unit without fixed registers pass their check. -/
theorem CodeUnit.Unpinned.checkIntervals (hu : u.Unpinned) :
    Allocation.checkIntervals u u.values = .ok () :=
  Allocation.checkIntervals_iff.mpr fun v hv =>
    ⟨hu.needs v hv, fun hneeds => hu.intervals v hv (.inr hneeds)⟩

/-- A row has pieces of its values only. -/
theorem CodeUnit.ofValue_row_eq_nil {register : Register} {vs : List ValueId} {v : ValueId} :
    Piece.ofValue (u.row register vs) v = [] ↔ v ∉ vs := by
  have hvalues : v ∈ vs ↔ v ∈ (u.row register vs).map (·.value) := by rw [map_value_row]
  rw [hvalues, Piece.ofValue, List.filter_eq_nil_iff]
  simp only [decide_eq_true_eq, List.mem_map, not_exists, not_and]

/-- All values but the arguments are placed by the scan. -/
theorem Scan.exists_ofUnit (hu : u.Unpinned) (hregisters : 0 ≤ config.registers)
    (hroom : config.registers.toInt + 3 * u.values.length ≤ config.maxRegisters.toInt)
    (hreserved : reserved.Sound u) (hpieces : reserved.pieces = u.row 0 u.arguments) :
    ∃ queue scan last, ofUnit u config reserved = .ok scan ∧ queue.Nodup ∧
      (∀ v, v ∈ queue ↔ u.Needy v ∧ v ∉ u.arguments) ∧
      Scans u config reserved {} queue scan ∧
      scan.Roomy u config reserved queue.reverse last := by
  obtain ⟨vs, hvs⟩ := @exists_unplaced u reserved u.values hu.needs
  obtain ⟨hahead, hmem⟩ := queue_spec hu.nodup hu.checkIntervals hvs
  simp only [hpieces, CodeUnit.ofValue_row_eq_nil] at hmem
  have hlength : reserved.pieces.length = u.arguments.length := by
    rw [← u.map_value_row 0 u.arguments, List.length_map, hpieces]
  have hle := hu.length_le hahead.nodup fun v hv => ⟨((hmem v).mp hv).1, ((hmem v).mp hv).2.2⟩
  obtain ⟨last, scan, hplace, hscans, hroomy⟩ :=
    (roomy_empty u config reserved Int64.minValue).placeAll hreserved hregisters hahead
      (by rw [hlength, List.length_nil]; omega)
  rw [List.append_nil] at hroomy
  refine ⟨_, scan, last, ?_, hahead.nodup, fun v => ?_, hscans, hroomy⟩
  · rw [ofUnit, hvs]
    exact hplace
  · rw [hmem, CodeUnit.Needy, and_assoc]

/-- A value that has two pieces has left allocatable registers. -/
theorem Scan.Roomy.allocatable (h : scan.Roomy u config reserved done last)
    (hreserved : reserved.Sound u)
    (hsound : Allocation.Sound u config
      (Reserved.latest reserved.pieces ++ scan.ended ++ scan.active) scan.moves)
    {v : ValueId} {head tail : Piece}
    (hown : Piece.ofValue (Reserved.latest reserved.pieces ++ scan.ended ++ scan.active) v =
      [head, tail]) : head.Allocatable u config := by
  obtain ⟨hhead, -, -, -, hlayout⟩ := hsound.pair hown
  cases hlayout with
  | split register spill position hstart hstop =>
    have hmoved : position ≠ (u.value v).stop := fun heq => Int64.lt_irrefl (heq ▸ hstop)
    rw [List.append_assoc, List.mem_append] at hhead
    obtain hfixed | hscanned := hhead
    · exact absurd (hreserved.whole _ (Reserved.mem_of_mem_latest hfixed)).2 hmoved
    · exact h.moved _ hscanned hmoved

/-- All pieces end within the limit. -/
theorem Scan.Roomy.firstTemporary_le (h : scan.Roomy u config reserved done last)
    (hmax : 0 ≤ config.maxRegisters)
    (hreserved : ∀ piece ∈ reserved.pieces,
      piece.register + u.pool.width piece.value ≤ config.maxRegisters) :
    Allocation.firstTemporary u (Reserved.latest reserved.pieces ++ scan.ended ++ scan.active) ≤
      config.maxRegisters := by
  obtain ⟨-, -, hzero | ⟨piece, hpiece, hlast⟩⟩ := Allocation.firstTemporary_spec u
    (Reserved.latest reserved.pieces ++ scan.ended ++ scan.active)
  · rw [hzero]
    exact hmax
  · rw [hlast]
    rw [List.append_assoc, List.mem_append] at hpiece
    obtain hfixed | hscanned := hpiece
    · exact hreserved piece (Reserved.mem_of_mem_latest hfixed)
    · exact h.below piece hscanned

end Scan

/-! ## Allocations -/

/-- A unit without fixed registers and copies is planned by the scan. -/
theorem CodeUnit.Unpinned.plan_eq (hu : u.Unpinned) {reserved : Reserved} {scan : Scan}
    (hreserved : Reserved.ofUnit u config = .ok reserved)
    (hscan : Scan.ofUnit u config reserved = .ok scan) :
    u.plan config = .ok
      (Reserved.latest reserved.pieces ++ scan.ended ++ scan.active, scan.moves) := by
  simp only [plan, hu.checkIntervals, hreserved, hscan, hu.copies, Allocation.addCopies, bind,
    Except.bind, pure, Except.pure]

namespace Allocator

variable {allocator : Allocator}

/-- **Register pressure is no error.** If the spill area has three registers for each value, every
value that needs a register is placed after at most as many evictions as there are active pieces,
and the unit is allocated. All moves are carried out without temporaries. -/
theorem run_spills (hu : u.Unpinned) (hregisters : 0 ≤ allocator.config.registers)
    (hroom : allocator.config.registers.toInt + 3 * u.values.length ≤
      allocator.config.maxRegisters.toInt) :
    ∃ allocation reserved queue scan,
      allocator.run u = (holding allocator.config allocation, none) ∧
      Reserved.ofUnit u allocator.config = .ok reserved ∧
      reserved.pieces = u.row 0 u.arguments ∧
      queue.Nodup ∧ (∀ v, v ∈ queue ↔ u.Needy v ∧ v ∉ u.arguments) ∧
      Scan.Scans u allocator.config reserved {} queue scan ∧
      allocation.pieces = Reserved.latest reserved.pieces ++ scan.ended ++ scan.active ∧
      allocation.registersUsed = allocation.temporary ∧
      ∀ set ∈ allocation.moveSets, Allocation.WithoutTemporaries allocation.temporary set := by
  have hle := hu.length_le List.nodup_nil (by simp)
  have hlow := Int64.le_iff_toInt_le.mp hregisters
  rw [Int64.toInt_zero] at hlow
  have hmax : 0 ≤ allocator.config.maxRegisters := by
    rw [Int64.le_iff_toInt_le, Int64.toInt_zero]
    omega
  obtain ⟨reserved, hreserved, hfixed, hpieces, hbelow⟩ :=
    @Reserved.exists_ofUnit u allocator.config hu (by omega)
  obtain ⟨queue, scan, last, hscan, hnodup, hqueue, hscans, hroomy⟩ :=
    Scan.exists_ofUnit hu hregisters hroom hfixed hpieces
  have harguments : ∀ v ∈ u.arguments, ∃ piece ∈ reserved.pieces, piece.value = v := by
    intro v hv
    rw [← List.mem_map, hpieces, CodeUnit.map_value_row]
    exact hv
  have hsound := Allocation.sound_of_parts hfixed harguments hroomy.placed hroomy.recorded
    fun v => by
    rw [List.mem_reverse, hqueue, hpieces, CodeUnit.ofValue_row_eq_nil, CodeUnit.Needy, and_assoc]
  obtain ⟨sets, -, hnone, hallocate⟩ := CodeUnit.allocate_of_direct (hu.plan_eq hreserved hscan)
    hsound (fun position move hmove =>
      ((Scan.numbered_ofUnit hregisters hscan).moves position move hmove).1)
    (hsound.direct fun hown => hroomy.allocatable hfixed hsound hown)
  rw [if_neg (Int64.not_lt.mpr (hroomy.firstTemporary_le hmax hbelow))] at hallocate
  exact ⟨_, reserved, queue, scan, by rw [run, hallocate], hreserved, hpieces, hnodup, hqueue,
    hscans, rfl, rfl, hnone⟩

/-- With three allocatable registers, the first of which the argument takes, both `a` and `b` have
to give way to `w`. -/
def squeeze : CodeUnit where
  name := "squeeze"
  pool := {
    values := #[
      { number := 0, name := "p", type := .object, start := 0, stop := 30, fixed := some 0,
        isArgument := true },
      { number := 1, name := "a", type := .single, start := 1, stop := 20 },
      { number := 2, name := "b", type := .object, start := 1, stop := 25 },
      { number := 3, name := "w", type := .wide, start := 3, stop := 9 }]
    instrs := #[] }
  arguments := [0]
  values := [0, 1, 2, 3]

theorem run_spills_squeeze : squeeze.Unpinned ∧ ∃ allocation reserved queue scan,
    ({ config := { registers := 3, maxRegisters := 15 } } : Allocator).run squeeze =
      (holding { registers := 3, maxRegisters := 15 } allocation, none) ∧
    Scan.Scans squeeze { registers := 3, maxRegisters := 15 } reserved {} queue scan ∧
    (∀ set ∈ allocation.moveSets, Allocation.WithoutTemporaries allocation.temporary set) ∧
    allocation.registersUsed = 5 ∧ allocation.moveSets.map (·.position) = [3] := by
  have hneeds : ∀ v ∈ squeeze.values, squeeze.pool.needsRegister v = .ok true := by decide
  have hfree : ∀ v ∈ squeeze.values, (squeeze.value v).isArgument = true ∨
      (squeeze.value v).fixed = none := by decide
  have hu : squeeze.Unpinned := by
    refine ⟨by decide, by decide, by decide, ?_, fun v hv register hpinned => ?_, by decide, rfl,
      fun v hv => ⟨_, hneeds v hv⟩, by decide⟩
    · intro piece hpiece register hregister
      obtain rfl := List.mem_singleton.mp hpiece
      exact (Option.some.inj hregister).symm
    · obtain hargument | hnone := hfree v hv
      · exact Bool.false_ne_true (hpinned.isArgument.symm.trans hargument)
      · exact absurd (hpinned.fixed.symm.trans hnone) (by simp)
  obtain ⟨allocation, reserved, queue, scan, hrun, -, -, -, -, hscans, -, -, hnone⟩ :=
    @run_spills squeeze { config := { registers := 3, maxRegisters := 15 } } hu (by decide)
    (by decide)
  have hused : (({ config := { registers := 3, maxRegisters := 15 } } : Allocator).run
      squeeze).1.registersUsed squeeze = .ok 5 := by decide +kernel
  have hmoves : (({ config := { registers := 3, maxRegisters := 15 } } : Allocator).run
      squeeze).1.movePositions squeeze = .ok [3] := by decide +kernel
  rw [hrun] at hused hmoves
  exact ⟨hu, allocation, reserved, queue, scan, hrun, hscans, hnone, Except.ok.inj hused,
    Except.ok.inj hmoves⟩

end Allocator
end RegisterAllocation
