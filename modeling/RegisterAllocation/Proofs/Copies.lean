import RegisterAllocation.Proofs.Moves

/-!
# Copies

A copy hands its target what the source held just before. Its move is left out when the two share a
register then. That is right unless the target comes to that register only at the position of the
copy, from another one: the move that brings it there takes the place of what the source has left
(`Allocator.copy_delivered_iff`).
-/

namespace RegisterAllocation

/-- Running the moves leaves in the register `target` of the copy's target what the register
`origin` of its source held before. -/
def Copy.Delivered (u : CodeUnit) (copy : Copy) (moves : List Move) (origin target : Register) :
    Prop :=
  ∀ file : RegisterFile, ((u.value copy.target).type.footprint target).map (file.run moves).get =
    ((u.value copy.source).type.footprint origin).map file.get

namespace Allocation.Recorded

variable {u : CodeUnit} {config : Config} {allocation : Allocation} {scanned table : MoveTable}

/-- A copy between different registers is delivered. -/
theorem delivered_of_ne (h : Recorded u config allocation scanned table) {copy : Copy}
    (hcopy : copy ∈ u.copies) {origin target : Register} (hne : origin ≠ target)
    (hneeds : u.pool.needsRegister copy.source = .ok true)
    (htarget : Piece.registerAt? allocation.pieces copy.target copy.position = some target)
    (hsource : Piece.registerAt? allocation.pieces copy.source (copy.position - 1) = some origin) :
    copy.Delivered u (scheduledAt allocation.moveSets copy.position) origin target := by
  have hmove := h.mem_of_copy hcopy (.moved target origin htarget hneeds hsource hne)
  obtain ⟨piece, hpiece, -, -, rfl⟩ := Piece.exists_of_registerAt? hsource
  intro file
  rw [MoveType.footprint_congr (h.copies.width copy hcopy), RegisterFile.get_run,
    ← Contents.read_ofRegisters Content.constant file.get (h.nonneg piece hpiece) target]
  exact h.map_run hmove Content.constant file.get

/-- A copy within one register is delivered if the target is not brought there at the same time. -/
theorem delivered_of_eq (h : Recorded u config allocation scanned table)
    (hsound : Sound u config allocation.pieces scanned) {copy : Copy} (hcopy : copy ∈ u.copies)
    {register : Register} (hneeds : u.pool.needsRegister copy.source = .ok true)
    (htarget : Piece.registerAt? allocation.pieces copy.target copy.position = some register)
    (hsource : Piece.registerAt? allocation.pieces copy.source (copy.position - 1) = some register)
    (hstays : ∀ head tail, Piece.ofValue allocation.pieces copy.target = [head, tail] →
      tail.start ≠ copy.position) :
    copy.Delivered u (scheduledAt allocation.moveSets copy.position) register register := by
  obtain ⟨piece, hpiece, hvalue, hcovers, rfl⟩ := Piece.exists_of_registerAt? htarget
  intro file
  rw [MoveType.footprint_congr (h.copies.width copy hcopy), RegisterFile.get_run, ← hvalue]
  refine h.map_run_kept hsound hpiece hcovers (fun head hown => ?_)
    (fun other hother hposition hother' => ?_) _ _
  · exact hstays head piece (hvalue ▸ hown)
  · -- a target is written once at a position, so this is the copy that has no move
    have heq : other = copy :=
      h.copies.copy_unique hother hcopy hposition (hother'.trans hvalue)
    exact heq ▸ .shared piece.register htarget hneeds hsource

/-- A copy within one register to which the target comes at the same time is lost. -/
theorem not_delivered (h : Recorded u config allocation scanned table)
    (hsound : Sound u config allocation.pieces scanned) {copy : Copy} {register : Register}
    (htarget : Piece.registerAt? allocation.pieces copy.target copy.position = some register)
    {head tail : Piece} (hown : Piece.ofValue allocation.pieces copy.target = [head, tail])
    (hstart : tail.start = copy.position) :
    ¬ copy.Delivered u (scheduledAt allocation.moveSets copy.position) register register := by
  obtain ⟨hhead, -, htail, hvalue, hlayout⟩ := hsound.pair hown
  obtain ⟨-, -, -, hstop, hlow, hspill⟩ := hlayout.pair
  have hcovers : tail.covers copy.position = true := by
    rw [Piece.covers_iff, ← hstart]
    exact ⟨Int64.le_refl _, hstop⟩
  have hregister := Piece.registerAt?_eq (hsound.layout tail htail) htail hcovers
  rw [hvalue, htarget] at hregister
  obtain rfl : register = tail.register := Option.some.inj hregister
  have hmove := hstart ▸ h.mem_of_pair hsound hown
  -- the first slot would hold what it held before, and what the move has brought
  intro hdelivered
  have hkept := congrArg List.head? (hdelivered .initial)
  have hbrought := congrArg List.head?
    (h.map_run hmove Content.constant RegisterFile.initial.get)
  rw [RegisterFile.get_run, MoveType.head?_map_footprint, MoveType.head?_map_footprint] at hkept
  rw [Scan.relocation_written, MoveType.head?_map_footprint, Option.some.inj hkept,
    Scan.read_relocation _ _ u (h.nonneg head hhead)] at hbrought
  have hinitial : ∀ slot, RegisterFile.initial.get slot = .initial slot := fun slot => rfl
  split at hbrought
  · rw [MoveType.head?_map_halves, hinitial] at hbrought
    cases hbrought
  · rw [MoveType.head?_map_footprint, hinitial, hinitial] at hbrought
    have heq : tail.register = head.register := Content.initial.inj (Option.some.inj hbrought)
    grind

end Allocation.Recorded

namespace Allocator

/-- **Exactly when a copy is delivered.** A copy of a value that needs no register fills the target
with the constant. Any other is delivered if the registers of source and target differ. If they are
the same it is delivered unless the target comes to that register, from its first one, at the
position of the copy. -/
theorem copy_delivered_iff {allocator next : Allocator} {u : CodeUnit} {copy : Copy}
    (hregisters : 0 ≤ allocator.config.registers) (hrun : allocator.run u = (next, none))
    (hcopy : copy ∈ u.copies) :
    ∃ target moves, next.placement u copy.target copy.position = .ok target ∧
      next.scheduledMoves u copy.position = .ok moves ∧
      (u.pool.needsRegister copy.source = .ok false →
        ∃ constant, u.pool.constant? copy.source = some constant ∧ ∀ file : RegisterFile,
          ((u.value copy.target).type.footprint target).map (file.run moves).get =
            RegisterFile.constantSlots (some constant) (u.value copy.target).type) ∧
      (u.pool.needsRegister copy.source = .ok true →
        ∃ origin, next.placement u copy.source (copy.position - 1) = .ok origin ∧
          (origin ≠ target → copy.Delivered u moves origin target) ∧
          (u.WellFormed allocator.config → (∀ position, u.EndsAt position → ¬ u.FlipsAt position) →
            (copy.Delivered u moves origin target ↔
              ¬ (origin = target ∧ ∃ head tail, next.pieces u copy.target = .ok [head, tail] ∧
                tail.start = copy.position)))) := by
  obtain ⟨allocation, hallocate, rfl⟩ := run_eq_none hrun
  obtain ⟨scanned, table, hrecorded⟩ := Allocation.recorded_of_allocate hregisters hallocate
  obtain ⟨move, hmove⟩ := hrecorded.copies.move copy hcopy
  cases hmove with
  | constant target constant htarget hneeds hconstant =>
    refine ⟨target, _, placement_eq htarget, scheduledMoves_eq _ _ _ _, fun _ => ?_,
      fun htrue => ?_⟩
    · have hmove := hrecorded.mem_of_copy hcopy (.constant target constant htarget hneeds hconstant)
      refine ⟨constant, hconstant, fun file => ?_⟩
      rw [RegisterFile.get_run]
      refine (hrecorded.map_run hmove Content.constant file.get).trans ?_
      rw [← RegisterFile.read_eq, RegisterFile.read]
    · rw [hneeds] at htrue
      cases htrue
  | shared register htarget hneeds hsource =>
    refine ⟨register, _, placement_eq htarget, scheduledMoves_eq _ _ _ _, fun hfalse => ?_,
      fun _ => ⟨register, placement_eq hsource, fun hne => absurd rfl hne, fun hu hends => ?_⟩⟩
    · rw [hneeds] at hfalse
      cases hfalse
    have hsound := hrecorded.sound hu hends
    constructor
    · rintro hdelivered ⟨-, head, tail, hown, hstart⟩
      exact hrecorded.not_delivered hsound htarget (Except.ok.inj hown) hstart hdelivered
    · intro hstays
      refine hrecorded.delivered_of_eq hsound hcopy hneeds htarget hsource ?_
      intro head tail hown hstart
      exact hstays ⟨rfl, head, tail, congrArg Except.ok hown, hstart⟩
  | moved target origin htarget hneeds hsource hne =>
    have hdelivered := hrecorded.delivered_of_ne hcopy hne hneeds htarget hsource
    refine ⟨target, _, placement_eq htarget, scheduledMoves_eq _ _ _ _, fun hfalse => ?_,
      fun _ => ⟨origin, placement_eq hsource, fun _ => hdelivered, fun _ _ => ?_⟩⟩
    · rw [hneeds] at hfalse
      cases hfalse
    · exact ⟨fun _ h => hne h.1, fun _ => hdelivered⟩

/-- Two values that change places at 5. -/
def exchange : CodeUnit where
  name := "exchange"
  pool := {
    values := #[
      { number := 0, name := "a", type := .single, start := 1, stop := 5 },
      { number := 1, name := "b", type := .single, start := 1, stop := 5 },
      { number := 2, name := "a", type := .single, start := 5, stop := 8 },
      { number := 3, name := "b", type := .single, start := 5, stop := 8 }] }
  values := [0, 1, 2, 3]
  copies := [⟨5, 1, 2⟩, ⟨5, 0, 3⟩]

theorem copy_delivered_iff_exchange : exchange.WellFormed { registers := 2, maxRegisters := 8 } ∧
    ∃ next : Allocator,
    ({ config := { registers := 2, maxRegisters := 8 } } : Allocator).run exchange = (next, none) ∧
    next.pieces exchange 2 = .ok [⟨2, 5, 8, 0⟩] ∧
    ∃ target moves origin, next.placement exchange 2 5 = .ok target ∧
      next.scheduledMoves exchange 5 = .ok moves ∧ next.placement exchange 1 4 = .ok origin ∧
      (⟨5, 1, 2⟩ : Copy).Delivered exchange moves origin target := by
  have hu : exchange.WellFormed { registers := 2, maxRegisters := 8 } := by decide
  have hends : ∀ position, exchange.EndsAt position → ¬ exchange.FlipsAt position := by
    rintro position - ⟨v, hv, -⟩
    exact absurd hv List.not_mem_nil
  have hnone : (({ config := { registers := 2, maxRegisters := 8 } } : Allocator).run
      exchange).2 = none := by decide +kernel
  have hpieces : (({ config := { registers := 2, maxRegisters := 8 } } : Allocator).run
      exchange).1.pieces exchange 2 = .ok [⟨2, 5, 8, 0⟩] := by decide +kernel
  obtain ⟨target, moves, htarget, hmoves, -, hcopy⟩ :=
    @copy_delivered_iff _ _ exchange ⟨5, 1, 2⟩ (by decide) (Prod.ext rfl hnone) (by decide)
  obtain ⟨origin, horigin, -, hdelivered⟩ := hcopy rfl
  refine ⟨hu, _, Prod.ext rfl hnone, hpieces, target, moves, origin, htarget, hmoves, horigin, ?_⟩
  refine (hdelivered hu hends).mpr ?_
  rintro ⟨-, head, tail, hown, -⟩
  cases hpieces.symm.trans hown

/-- The value `t` gives way to `n` at 4 and goes where `f` has been, and is to get what `f` has
left. -/
def carry : CodeUnit where
  name := "carry"
  pool := {
    values := #[
      { number := 0, name := "t", type := .single, start := 1, stop := 10 },
      { number := 1, name := "y", type := .single, start := 1, stop := 8 },
      { number := 2, name := "f", type := .single, start := 1, stop := 4, fixed := some 2 },
      { number := 3, name := "n", type := .single, start := 4, stop := 6 }] }
  values := [0, 1, 2, 3]
  copies := [⟨4, 2, 0⟩]

/-- A copy into the register that its target goes to at the same time is lost. -/
theorem carry_not_delivered : carry.WellFormed { registers := 2, maxRegisters := 10 } ∧
    ∃ next : Allocator,
    ({ config := { registers := 2, maxRegisters := 10 } } : Allocator).run carry = (next, none) ∧
    next.placement carry 2 3 = .ok 2 ∧ next.placement carry 0 4 = .ok 2 ∧
    next.scheduledMoves carry 4 = .ok [⟨2, .register 0, .single⟩] ∧
    ¬ (⟨4, 2, 0⟩ : Copy).Delivered carry [⟨2, .register 0, .single⟩] 2 2 := by
  have hnone : (({ config := { registers := 2, maxRegisters := 10 } } : Allocator).run
      carry).2 = none := by decide +kernel
  refine ⟨by decide, _, Prod.ext rfl hnone, by decide +kernel, by decide +kernel, by decide +kernel,
    fun hdelivered => ?_⟩
  exact absurd (hdelivered .initial) (by decide)

end Allocator
end RegisterAllocation
