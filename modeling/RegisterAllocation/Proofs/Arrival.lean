import RegisterAllocation.Allocation.Check
import RegisterAllocation.Proofs.Moves

/-!
# What a check of the moves ensures

An allocation that passes its check has working moves at every position that has any: a value that
changes its register there, and a value that is copied there, arrives. The register number `-1` is
an exception. The check takes it for the constant that defines the value, also where the value is
none. So of a value that is said to come from there, only the definition arrives.

Positions without moves are not looked at. A value arrives there only if it stays in its register,
and nothing makes sure of that when copies have been added to a unit since it was allocated
(`Allocator.arrives_iff_of_check`).
-/

namespace RegisterAllocation

/-- The definition of a constant is the constant. -/
theorem Pool.definition?_of_constant? {pool : Pool} {v : ValueId} {constant : Constant}
    (h : pool.constant? v = some constant) : pool.definition? v = some constant := by
  obtain ⟨i, hi, h⟩ := Option.bind_eq_some_iff.mp h
  dsimp only at h
  split at h
  · rw [definition?, hi, ← h]
    rfl
  · cases h

namespace Allocation

/-- Where a value comes from that has been in a register: constants are made again. -/
def originOf (u : CodeUnit) (v : ValueId) (register : Register) : Origin :=
  match u.pool.constant? v with
  | some constant => .constant (some constant)
  | none => .register register

/-- What the check takes for the origin of a value that has been in a register. -/
theorem ofRegister_eq (u : CodeUnit) (v : ValueId) (register : Register) :
    Origin.ofRegister u.pool v (if u.pool.isConstant v then noRegister else register) =
      if originOf u v register = .register noRegister then .constant (u.pool.definition? v)
      else originOf u v register := by
  cases hconstant : u.pool.constant? v with
  | none => simp [Origin.ofRegister, originOf, Pool.isConstant, hconstant]
  | some constant =>
    simp [Origin.ofRegister, originOf, Pool.isConstant, hconstant,
      Pool.definition?_of_constant? hconstant]

/-- Only from a register itself comes what the register has held at first. -/
theorem Origin.contents_eq_iff {origin : Origin} {type : MoveType} {register : Register} :
    (type.footprint register).map .initial = origin.contents type ↔
      origin = .register register := by
  cases origin <;> cases type <;>
    simp [contents, MoveType.footprint, RegisterFile.constantSlots, eq_comm]

variable {u : CodeUnit} {file : RegisterFile} {v : ValueId} {position : Position}

/-- Where the check of an arrival passes, the slots hold what is to arrive. -/
theorem map_eq_of_checkArrival {origin : Origin} {register : Register}
    (h : checkArrival u file v origin register = .ok ()) :
    ((u.value v).type.footprint register).map file.get = origin.contents (u.value v).type := by
  rw [checkArrival] at h
  split at h
  · next hnone =>
    have hall : ∀ pair ∈ ((u.value v).type.footprint register).zip
        (origin.contents (u.value v).type), file.get pair.1 = pair.2 := by
      simpa using List.find?_eq_none.mp hnone
    cases origin <;> cases htype : (u.value v).type <;>
      simpa [htype, Origin.contents, MoveType.footprint, RegisterFile.constantSlots] using hall
  · cases h

/-- The check of a value's changes goes on with the rest of its pieces. -/
theorem checkChanges_tail {first : Piece} {rest : List Piece}
    (h : checkChanges u file position v (first :: rest) = .ok ()) :
    checkChanges u file position v rest = .ok () := by
  cases rest with
  | nil => rfl
  | cons second rest =>
    rw [checkChanges] at h
    split at h
    · obtain ⟨⟨⟩, -, h⟩ := bind_eq_ok h
      exact h
    · exact h

/-- Of two pieces that follow each other, the second has received its value. -/
theorem checkArrival_of_checkChanges {pieces : List Piece}
    (h : checkChanges u file position v pieces = .ok ()) {l r : List Piece} {before after : Piece}
    (heq : pieces = l ++ before :: after :: r) (hstart : after.start = position) :
    checkArrival u file v (if originOf u v before.register = .register noRegister then
        .constant (u.pool.definition? v) else originOf u v before.register) after.register =
      .ok () := by
  induction l generalizing pieces with
  | nil =>
    rw [heq, List.nil_append, checkChanges, if_pos hstart] at h
    obtain ⟨⟨⟩, harrival, -⟩ := bind_eq_ok h
    rwa [ofRegister_eq] at harrival
  | cons first l ih => exact ih (checkChanges_tail (heq ▸ h)) rfl

/-- What the check of a position tells. -/
theorem checkMoves_spec {pieces : List Piece} {temporary : Register} {set : MoveSet}
    (h : checkMoves u pieces temporary set = .ok ()) :
    (∀ v ∈ u.values, checkChanges u (RegisterFile.initial.run set.scheduled) set.position v
      (Piece.ofValue pieces v) = .ok ()) ∧
    ∀ copy ∈ u.copies, copy.position = set.position →
      checkCopy u pieces (RegisterFile.initial.run set.scheduled) copy = .ok () := by
  rw [checkMoves] at h
  split at h
  · cases h
  obtain ⟨⟨⟩, hchanges, h⟩ := bind_eq_ok h
  refine ⟨fun v hv => mapError_eq_ok (forM_eq_ok hchanges v hv), fun copy hcopy hposition => ?_⟩
  exact forM_eq_ok h copy (by simp [hcopy, hposition])

end Allocation

namespace Allocator

/-- After the moves at a position, the register holds a value that comes from `origin`. -/
def Arrives (allocator : Allocator) (u : CodeUnit) (position : Position) (type : MoveType)
    (origin : Allocation.Origin) (register : Register) : Prop :=
  ∃ moves, allocator.scheduledMoves u position = .ok moves ∧
    (type.footprint register).map (RegisterFile.initial.run moves).get = origin.contents type

/-- Where a copied value is before it is copied. -/
inductive CopiedFrom (allocator : Allocator) (u : CodeUnit) (copy : Copy) :
    Allocation.Origin → Prop
  | register (register : Register) (hneeds : u.pool.needsRegister copy.source = .ok true)
    (hregister : allocator.placement u copy.source (copy.position - 1) = .ok register) :
    CopiedFrom allocator u copy (.register register)
  | constant (constant : Constant) (hneeds : u.pool.needsRegister copy.source = .ok false)
    (hconstant : u.pool.constant? copy.source = some constant) :
    CopiedFrom allocator u copy (.constant (some constant))

/-- After the moves at its position, a copied value is in the register of the target. -/
def CopyArrives (allocator : Allocator) (u : CodeUnit) (copy : Copy) : Prop :=
  ∃ origin register, allocator.CopiedFrom u copy origin ∧
    allocator.placement u copy.target copy.position = .ok register ∧
    allocator.Arrives u copy.position (u.value copy.source).type origin register

/-- The target of a copy is where the source has been. -/
def CopyStays (allocator : Allocator) (u : CodeUnit) (copy : Copy) : Prop :=
  ∃ register, allocator.CopiedFrom u copy (.register register) ∧
    allocator.placement u copy.target copy.position = .ok register

variable {config : Config} {allocation : Allocation} {u : CodeUnit}

/-- What arrives is what the scheduled moves leave in the slots. -/
theorem arrives_iff {position : Position} {type : MoveType} {origin : Allocation.Origin}
    {register : Register} :
    (holding config allocation).Arrives u position type origin register ↔
      (type.footprint register).map
          (RegisterFile.initial.run (Allocation.scheduledAt allocation.moveSets position)).get =
        origin.contents type := by
  simp [Arrives, scheduledMoves_eq]

/-- Where there are no moves, only values that stay in their registers arrive. -/
theorem arrives_iff_of_not_mem {position : Position} {type : MoveType} {origin : Allocation.Origin}
    {register : Register} (h : position ∉ allocation.moveSets.map (·.position)) :
    (holding config allocation).Arrives u position type origin register ↔
      origin = .register register := by
  rw [arrives_iff, Allocation.scheduledAt_of_not_mem h, ← Allocation.Origin.contents_eq_iff]
  rfl

/-- Where there are no moves, a copy arrives only if nothing has to move. -/
theorem copyArrives_iff_of_not_mem {copy : Copy}
    (h : copy.position ∉ allocation.moveSets.map (·.position)) :
    (holding config allocation).CopyArrives u copy ↔
      (holding config allocation).CopyStays u copy := by
  simp only [CopyArrives, CopyStays, arrives_iff_of_not_mem h]
  constructor
  · rintro ⟨_, register, hfrom, htarget, rfl⟩
    exact ⟨register, hfrom, htarget⟩
  · rintro ⟨register, hfrom, htarget⟩
    exact ⟨_, register, hfrom, htarget, rfl⟩

/-- A copied value comes from one place. -/
theorem CopiedFrom.unique {allocator : Allocator} {copy : Copy} {origin other : Allocation.Origin}
    (h : allocator.CopiedFrom u copy origin) (hother : allocator.CopiedFrom u copy other) :
    origin = other := by
  cases h <;> cases hother <;> simp_all

/-- A copy arrives if its source does, from where it is. -/
theorem CopiedFrom.copyArrives_iff {allocator : Allocator} {copy : Copy}
    {origin : Allocation.Origin}
    {register : Register} (h : allocator.CopiedFrom u copy origin)
    (htarget : allocator.placement u copy.target copy.position = .ok register) :
    allocator.CopyArrives u copy ↔
      allocator.Arrives u copy.position (u.value copy.source).type origin register := by
  constructor
  · rintro ⟨other, register', hother, htarget', harrives⟩
    cases htarget.symm.trans htarget'
    rwa [h.unique hother]
  · intro harrives
    exact ⟨origin, register, h, htarget, harrives⟩

/-- What is known of a copy that passes the check: where its source comes from, and that this, or
the definition of a source in no register, arrives. -/
theorem arrives_of_checkCopy {copy : Copy}
    (h : Allocation.checkCopy u allocation.pieces (RegisterFile.initial.run
      (Allocation.scheduledAt allocation.moveSets copy.position)) copy = .ok ()) :
    ∃ origin register, (holding config allocation).CopiedFrom u copy origin ∧
      (holding config allocation).placement u copy.target copy.position = .ok register ∧
      (holding config allocation).Arrives u copy.position (u.value copy.source).type
        (if origin = .register noRegister then .constant (u.pool.definition? copy.source)
          else origin) register := by
  rw [Allocation.checkCopy] at h
  obtain ⟨needs, hneeds, h⟩ := bind_eq_ok h
  have hneeds := mapError_eq_ok hneeds
  cases needs with
  | true =>
    obtain ⟨source, hsource, h⟩ := bind_eq_ok h
    obtain ⟨register, hregister, h⟩ := bind_eq_ok h
    have hbefore := Allocation.registerAt_eq_ok (mapError_eq_ok hsource)
    have htarget := Allocation.registerAt_eq_ok (mapError_eq_ok hregister)
    refine ⟨_, register, .register source hneeds (placement_eq hbefore), placement_eq htarget,
      arrives_iff.mpr ?_⟩
    simpa [Allocation.Origin.ofRegister] using
      Allocation.map_eq_of_checkArrival (mapError_eq_ok h)
  | false =>
    obtain ⟨_, hsource, h⟩ := bind_eq_ok h
    obtain ⟨register, hregister, h⟩ := bind_eq_ok h
    obtain ⟨constant, hconstant⟩ := Pool.exists_constant hneeds
    have htarget := Allocation.registerAt_eq_ok (mapError_eq_ok hregister)
    cases hsource
    refine ⟨_, register, .constant constant hneeds hconstant, placement_eq htarget,
      arrives_iff.mpr ?_⟩
    simpa [Allocation.Origin.ofRegister, Pool.definition?_of_constant? hconstant] using
      Allocation.map_eq_of_checkArrival (mapError_eq_ok h)

/-- What comes from no register does not arrive where the definition does. -/
theorem not_arrives_of_arrives {position : Position} {type : MoveType} {register : Register}
    {constant : Option Constant}
    (h : (holding config allocation).Arrives u position type (.constant constant) register) :
    ¬ (holding config allocation).Arrives u position type (.register noRegister) register := by
  intro hother
  rw [arrives_iff] at h hother
  have hsame := Allocation.Origin.contents_eq_iff.mp (hother.symm.trans h)
  cases hsame

/-- Where the definition is taken for what comes from no register, everything else arrives. -/
theorem arrives_iff_ne {position : Position} {type : MoveType} {register : Register}
    {origin : Allocation.Origin} {constant : Option Constant}
    (h : (holding config allocation).Arrives u position type
      (if origin = .register noRegister then .constant constant else origin) register) :
    ((holding config allocation).Arrives u position type origin register ↔
      origin ≠ .register noRegister) ∧
    (origin = .register noRegister →
      (holding config allocation).Arrives u position type (.constant constant) register) := by
  by_cases horigin : origin = .register noRegister
  · rw [if_pos horigin] at h
    rw [horigin]
    exact ⟨iff_of_false (not_arrives_of_arrives h) (by simp), fun _ => h⟩
  · rw [if_neg horigin] at h
    exact ⟨iff_of_true h horigin, fun h => absurd h horigin⟩

/-- What a check of the whole allocation tells about its moves. -/
theorem checkMoves_of_check {allocator : Allocator} (h : allocator.check u = .ok ()) :
    ∃ config allocation, allocator = holding config allocation ∧ ∀ set ∈ allocation.moveSets,
      Allocation.checkMoves u allocation.pieces allocation.temporary set = .ok () := by
  rw [check] at h
  obtain ⟨allocation, hget, h⟩ := bind_eq_ok h
  obtain ⟨pieces, -, h⟩ := bind_eq_ok h
  obtain ⟨⟨⟩, -, h⟩ := bind_eq_ok h
  obtain ⟨⟨⟩, -, h⟩ := bind_eq_ok h
  obtain ⟨⟨⟩, -, h⟩ := bind_eq_ok h
  obtain ⟨⟨⟩, -, h⟩ := bind_eq_ok h
  refine ⟨allocator.config, allocation, ?_, forM_eq_ok h⟩
  have hget := mapError_eq_ok hget
  obtain ⟨config, holds⟩ := allocator
  cases holds with
  | none => cases hget
  | some held => cases hget; rfl

/-- **What a check of an allocation ensures.** Of the pieces of a value, each but the first receives
its value from the one before, and every copied value arrives, if there are moves at that position
and the value has not been in the register `-1`, or if there are none and nothing has to be moved.
Where there are moves, of a value that has been in the register `-1` its definition arrives as a
constant. -/
theorem arrives_iff_of_check {allocator : Allocator} {u : CodeUnit}
    (h : allocator.check u = .ok ()) :
    ∃ positions, allocator.movePositions u = .ok positions ∧
      (∀ v ∈ u.values, ∃ pieces, allocator.pieces u v = .ok pieces ∧
        ∀ l before after r, pieces = l ++ before :: after :: r →
          (allocator.Arrives u after.start (u.value v).type
              (Allocation.originOf u v before.register) after.register ↔
            if after.start ∈ positions then
              Allocation.originOf u v before.register ≠ .register noRegister
            else Allocation.originOf u v before.register = .register after.register) ∧
          (after.start ∈ positions →
            Allocation.originOf u v before.register = .register noRegister →
            allocator.Arrives u after.start (u.value v).type (.constant (u.pool.definition? v))
              after.register)) ∧
      ∀ copy ∈ u.copies,
        (allocator.CopyArrives u copy ↔
          if copy.position ∈ positions then
            ¬ allocator.CopiedFrom u copy (.register noRegister)
          else allocator.CopyStays u copy) ∧
        (copy.position ∈ positions → allocator.CopiedFrom u copy (.register noRegister) →
          ∃ register, allocator.placement u copy.target copy.position = .ok register ∧
            allocator.Arrives u copy.position (u.value copy.source).type
              (.constant (u.pool.definition? copy.source)) register) := by
  obtain ⟨config, allocation, rfl, hmoves⟩ := checkMoves_of_check h
  refine ⟨_, rfl, fun v hv => ⟨_, rfl, fun l before after r hpieces => ?_⟩, fun copy hcopy => ?_⟩
  · by_cases hmem : after.start ∈ allocation.moveSets.map (·.position)
    · obtain ⟨set, hset, hposition, hscheduled⟩ := Allocation.exists_set_of_mem hmem
      have hchanges := (Allocation.checkMoves_spec (hmoves set hset)).1 v hv
      have harrival := Allocation.checkArrival_of_checkChanges hchanges hpieces hposition.symm
      have harrives : (holding config allocation).Arrives u after.start (u.value v).type _ _ :=
        arrives_iff.mpr (hscheduled ▸ Allocation.map_eq_of_checkArrival harrival)
      obtain ⟨hiff, hconstant⟩ := arrives_iff_ne harrives
      rw [if_pos hmem]
      exact ⟨hiff, fun _ => hconstant⟩
    · rw [if_neg hmem]
      exact ⟨arrives_iff_of_not_mem hmem, fun h => absurd h hmem⟩
  · by_cases hmem : copy.position ∈ allocation.moveSets.map (·.position)
    · obtain ⟨set, hset, hposition, hscheduled⟩ := Allocation.exists_set_of_mem hmem
      have hcheck := (Allocation.checkMoves_spec (hmoves set hset)).2 copy hcopy hposition.symm
      obtain ⟨origin, register, hfrom, htarget, harrives⟩ :=
        @arrives_of_checkCopy config allocation u copy (hscheduled ▸ hcheck)
      obtain ⟨hiff, hconstant⟩ := arrives_iff_ne harrives
      have hnone : (holding config allocation).CopiedFrom u copy (.register noRegister) ↔
          origin = .register noRegister := ⟨hfrom.unique, fun h => h ▸ hfrom⟩
      rw [if_pos hmem, hfrom.copyArrives_iff htarget, hnone]
      exact ⟨hiff, fun _ h => ⟨register, htarget, hconstant h⟩⟩
    · rw [if_neg hmem]
      exact ⟨copyArrives_iff_of_not_mem hmem, fun h => absurd h hmem⟩

/-- At 4, the value `t` gives way to `n`, which gets what is in `y`. -/
def handover : CodeUnit where
  name := "handover"
  pool := {
    values := #[
      { number := 0, name := "t", type := .single, start := 1, stop := 10 },
      { number := 1, name := "y", type := .single, start := 1, stop := 8 },
      { number := 2, name := "n", type := .single, start := 4, stop := 6 }] }
  values := [0, 1, 2]
  copies := [⟨4, 1, 2⟩]

theorem arrives_handover : ∃ next : Allocator,
    ({ config := { registers := 2, maxRegisters := 10 } } : Allocator).run handover = (next, none) ∧
    next.check handover = .ok () ∧
    next.pieces handover 0 = .ok [⟨0, 1, 4, 0⟩, ⟨0, 4, 10, 2⟩] ∧
    next.Arrives handover 4 .single (.register 0) 2 ∧ next.CopyArrives handover ⟨4, 1, 2⟩ := by
  have hnone : (({ config := { registers := 2, maxRegisters := 10 } } : Allocator).run
      handover).2 = none := by decide +kernel
  have hcheck : (({ config := { registers := 2, maxRegisters := 10 } } : Allocator).run
      handover).1.check handover = .ok () := by decide +kernel
  have hpieces : (({ config := { registers := 2, maxRegisters := 10 } } : Allocator).run
      handover).1.pieces handover 0 = .ok [⟨0, 1, 4, 0⟩, ⟨0, 4, 10, 2⟩] := by decide +kernel
  have hpositions : (({ config := { registers := 2, maxRegisters := 10 } } : Allocator).run
      handover).1.movePositions handover = .ok [4] := by decide +kernel
  have hsource : (({ config := { registers := 2, maxRegisters := 10 } } : Allocator).run
      handover).1.placement handover 1 (4 - 1) = .ok 1 := by decide +kernel
  obtain ⟨positions, heq, hvalues, hcopies⟩ := arrives_iff_of_check hcheck
  obtain rfl : [4] = positions := Except.ok.inj (hpositions.symm.trans heq)
  obtain ⟨pieces, heq, harrives⟩ := hvalues 0 (by decide)
  obtain rfl : [⟨0, 1, 4, 0⟩, ⟨0, 4, 10, 2⟩] = pieces := Except.ok.inj (hpieces.symm.trans heq)
  refine ⟨_, Prod.ext rfl hnone, hcheck, hpieces, ?_, ?_⟩
  · exact (harrives [] _ _ [] rfl).1.mpr (by decide)
  · refine (hcopies _ (by decide)).1.mpr ?_
    rw [if_pos (by decide)]
    rintro ⟨_, _, hregister⟩
    cases hsource.symm.trans hregister

/-- A value that nothing defines. -/
def undefinedValue : CodeUnit where
  name := "undefined"
  pool := { values := #[{ number := 0, name := "v", type := .single, start := 1, stop := 8 }] }
  values := [0]

-- The value is said to come from the register `-1`, and the check takes any constant for it.
example : (holding { registers := 4, maxRegisters := 8 } {
    pieces := [⟨0, 1, 4, -1⟩, ⟨0, 4, 8, 2⟩]
    moveSets := [⟨4, [.ofRegisters 2 (-1) .single], [.ofRegisters 2 (-1) .single]⟩]
    temporary := 3
    registersUsed := 5 }).check undefinedValue = .ok () := by decide

/-- Two values that are live side by side. -/
def abreast : CodeUnit where
  name := "abreast"
  pool := {
    values := #[
      { number := 0, name := "a", type := .single, start := 1, stop := 8 },
      { number := 1, name := "b", type := .single, start := 1, stop := 8 }] }
  values := [0, 1]

/-- A copy that is added after the unit has been allocated passes the check and does not arrive. -/
theorem late_copy_passes : ∃ next : Allocator,
    ({ config := { registers := 4, maxRegisters := 8 } } : Allocator).run abreast = (next, none) ∧
    next.check (abreast.addCopy ⟨5, 0, 1⟩) = .ok () ∧
    ¬ next.CopyArrives (abreast.addCopy ⟨5, 0, 1⟩) ⟨5, 0, 1⟩ := by
  have hnone : (({ config := { registers := 4, maxRegisters := 8 } } : Allocator).run
      abreast).2 = none := by decide +kernel
  have hcheck : (({ config := { registers := 4, maxRegisters := 8 } } : Allocator).run
      abreast).1.check (abreast.addCopy ⟨5, 0, 1⟩) = .ok () := by decide +kernel
  have hmoves : (({ config := { registers := 4, maxRegisters := 8 } } : Allocator).run
      abreast).1.scheduledMoves (abreast.addCopy ⟨5, 0, 1⟩) 5 = .ok [] := by decide +kernel
  have hsource : (({ config := { registers := 4, maxRegisters := 8 } } : Allocator).run
      abreast).1.placement (abreast.addCopy ⟨5, 0, 1⟩) 0 (5 - 1) = .ok 0 := by decide +kernel
  have htarget : (({ config := { registers := 4, maxRegisters := 8 } } : Allocator).run
      abreast).1.placement (abreast.addCopy ⟨5, 0, 1⟩) 1 5 = .ok 1 := by decide +kernel
  refine ⟨_, Prod.ext rfl hnone, hcheck, ?_⟩
  rintro ⟨origin, register, hfrom, hregister, moves, hscheduled, harrived⟩
  cases hmoves.symm.trans hscheduled
  cases htarget.symm.trans hregister
  cases hfrom with
  | register origin hneeds horigin =>
    cases hsource.symm.trans horigin
    exact absurd harrived (by decide)
  | constant constant hneeds hconstant => cases hneeds

end Allocator
end RegisterAllocation
