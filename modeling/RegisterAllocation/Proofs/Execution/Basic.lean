import RegisterAllocation.Allocation.Query
import RegisterAllocation.Proofs.Reserved
import RegisterAllocation.Proofs.Contents

/-!
# Running a unit

A unit is run in two ways. `CodeUnit.execute` keeps track of the contents of values: at each
position all copies there are made at once, then the instruction there is carried out.
`Allocator.execute` keeps track of the contents of registers: at each position the scheduled moves
are carried out one after another, then the instruction reads and writes the registers that the
allocator gives for its operands.

Both tell what every instruction has read. What instructions compute from that is left open
(`Semantics`).
-/

namespace RegisterAllocation

variable {α : Type}

/-- What instructions do, in terms of the contents of slots. -/
structure Semantics (α : Type) where
  /-- The slots of a constant. -/
  load : Option Constant → Nat → α
  /-- The slots of the output of an instruction, given those of its inputs. -/
  compute : InstrId → List (List α) → Nat → α

/-- The contents of all values, slot by slot. -/
abbrev Environment (α : Type) := ValueId → Nat → α

/-- An instruction that has been carried out, and the slots of its inputs. -/
structure Event (α : Type) where
  instr : InstrId
  inputs : List (List α)

/-- Fills the slots of a value in a register. -/
def Contents.put (contents : Contents α) (type : MoveType) (register : Register) (slots : Nat → α) :
    Contents α :=
  ((type.footprint register).zip (type.halves.map slots)).foldl
    (fun contents (slot, content) => Function.update contents slot content) contents

/-! ## The run on values -/

namespace CodeUnit

def slots (u : CodeUnit) (env : Environment α) (v : ValueId) : List α :=
  (u.value v).type.halves.map (env v)

def instrAt? (u : CodeUnit) (position : Position) : Option InstrId :=
  u.instrs.find? fun i => (u.instr i).number = position

/-- The copy to a value at a position. -/
def copyAt? (u : CodeUnit) (position : Position) (v : ValueId) : Option Copy :=
  u.copies.find? fun copy => copy.position = position ∧ copy.target = v

/-- Makes all copies of a position at once. -/
def runCopies (u : CodeUnit) (env : Environment α) (position : Position) : Environment α := fun v =>
  match u.copyAt? position v with
  | some copy => env copy.source
  | none => env v

/-- What an instruction makes of its inputs. -/
def result (u : CodeUnit) (semantics : Semantics α) (i : InstrId) (inputs : List (List α)) :
    Nat → α :=
  if (u.instr i).opcode = .const then semantics.load (some ⟨i, (u.instr i).literal⟩)
  else semantics.compute i inputs

/-- Writes the output of an instruction, if it has one. -/
def setOutput (u : CodeUnit) (env : Environment α) (i : InstrId) (slots : Nat → α) :
    Environment α :=
  match (u.instr i).out with
  | some v => Function.update env v slots
  | none => env

/-- What happens at a position. -/
def step (u : CodeUnit) (semantics : Semantics α) (env : Environment α) (position : Position) :
    Environment α × Option (Event α) :=
  let copied := u.runCopies env position
  match u.instrAt? position with
  | none => (copied, none)
  | some i =>
    let inputs := (u.instr i).inputs.map (u.slots copied)
    (u.setOutput copied i (u.result semantics i inputs), some ⟨i, inputs⟩)

/-- Runs a unit over the given positions. -/
def execute (u : CodeUnit) (semantics : Semantics α) (env : Environment α) :
    List Position → List (Event α)
  | [] => []
  | position :: positions =>
    let (next, event) := u.step semantics env position
    event.toList ++ u.execute semantics next positions

end CodeUnit

/-! ## The run on registers -/

namespace Allocator

/-- The slots of an input. One that needs no register stands in the instruction as a literal. -/
def readInput (allocator : Allocator) (u : CodeUnit) (semantics : Semantics α)
    (contents : Contents α)
    (position : Position) (v : ValueId) : Except Fault (List α) := do
  if ← u.pool.needsRegister v then
    return ((u.value v).type.footprint (← allocator.placement u v position)).map contents
  else
    return (u.value v).type.halves.map (semantics.load (u.pool.constant? v))

/-- Writes an output, if it needs a register. -/
def writeOutput (allocator : Allocator) (u : CodeUnit) (contents : Contents α) (position : Position)
    (slots : Nat → α) : Option ValueId → Except Fault (Contents α)
  | none => .ok contents
  | some v => do
    if ← u.pool.needsRegister v then
      return contents.put (u.value v).type (← allocator.placement u v position) slots
    else
      return contents

/-- What happens at a position. -/
def step (allocator : Allocator) (u : CodeUnit) (semantics : Semantics α) (contents : Contents α)
    (position : Position) : Except Fault (Contents α × Option (Event α)) := do
  let moved := Contents.run semantics.load contents (← allocator.scheduledMoves u position)
  match u.instrAt? position with
  | none => return (moved, none)
  | some i =>
    let inputs ← (u.instr i).inputs.mapM (allocator.readInput u semantics moved position)
    let next ← allocator.writeOutput u moved position (u.result semantics i inputs) (u.instr i).out
    return (next, some ⟨i, inputs⟩)

/-- Runs a unit over the given positions. -/
def execute (allocator : Allocator) (u : CodeUnit) (semantics : Semantics α)
    (contents : Contents α) :
    List Position → Except Fault (List (Event α))
  | [] => .ok []
  | position :: positions => do
    let (next, event) ← allocator.step u semantics contents position
    return event.toList ++ (← allocator.execute u semantics next positions)

end Allocator

/-! ## What a unit and its positions have to satisfy -/

namespace CodeUnit

/-- There is an instruction or a copy at a position. -/
def ActsAt (u : CodeUnit) (position : Position) : Prop :=
  (∃ i ∈ u.instrs, (u.instr i).number = position) ∨ ∃ copy ∈ u.copies, copy.position = position

/-- A value has its contents before anything happens at a position. An argument has them from the
start, except for one that a constant defines. -/
def DefinedBefore (u : CodeUnit) (v : ValueId) (position : Position) : Prop :=
  (v ∈ u.arguments ∧ u.pool.constant? v = none) ∨
    (∃ i ∈ u.instrs, (u.instr i).out = some v ∧ (u.instr i).number < position) ∨
    ∃ copy ∈ u.copies, copy.target = v ∧ copy.position < position

instance (u : CodeUnit) (v : ValueId) (position : Position) :
    Decidable (u.DefinedBefore v position) :=
  inferInstanceAs (Decidable (_ ∨ _ ∨ _))

/-- A value has its contents when the instruction at a position is carried out. -/
def DefinedAt (u : CodeUnit) (v : ValueId) (position : Position) : Prop :=
  u.DefinedBefore v position ∨ ∃ copy ∈ u.copies, copy.target = v ∧ copy.position = position

instance (u : CodeUnit) (v : ValueId) (position : Position) : Decidable (u.DefinedAt v position) :=
  inferInstanceAs (Decidable (_ ∨ _))

/-- A unit in which values are defined before they are read and live where they are needed. -/
structure Executable (u : CodeUnit) (config : Config) : Prop where
  wellFormed : u.WellFormed config
  ascending : u.instrs.Pairwise fun i j => (u.instr i).number < (u.instr j).number
  /-- A value is the output of the instruction that defines it only. -/
  outputs : ∀ i ∈ u.instrs, ∀ v ∈ (u.instr i).out,
    v ∈ u.values ∧ (u.value v).definition = some i
  inputsLive : ∀ i ∈ u.instrs, ∀ v ∈ (u.instr i).inputs, u.pool.needsRegister v = .ok true →
    (u.value v).liveAt (u.instr i).number = true
  outputsLive : ∀ i ∈ u.instrs, ∀ v ∈ (u.instr i).out, u.pool.needsRegister v = .ok true →
    (u.value v).liveAt (u.instr i).number = true
  inputsDefined : ∀ i ∈ u.instrs, ∀ v ∈ (u.instr i).inputs, u.DefinedAt v (u.instr i).number
  sourcesDefined : ∀ copy ∈ u.copies, u.DefinedBefore copy.source copy.position
  argumentsFirst : ∀ v ∈ u.arguments, ∀ w ∈ u.values, (u.value v).start ≤ (u.value w).start
  targetsStart : ∀ copy ∈ u.copies, (u.value copy.target).start = copy.position
  /-- The target of a copy is not a constant. -/
  targetsComputed : ∀ copy ∈ u.copies, u.pool.constant? copy.target = none

end CodeUnit

/-- Positions at which everything happens, in ascending order. Arguments are there from the first
one. -/
structure Allocator.Timeline (allocator : Allocator) (u : CodeUnit) (positions : List Position) :
    Prop where
  ascending : positions.Pairwise (· < ·)
  acts : ∀ position, u.ActsAt position → position ∈ positions
  moves : ∀ moving, allocator.movePositions u = .ok moving →
    ∀ position ∈ moving, position ∈ positions
  arguments : ∀ v ∈ u.arguments, ∀ position ∈ positions, (u.value v).start ≤ position

section Positions

variable {u : CodeUnit} {config : Config} {position : Position}

/-- A copy that is found is one of the unit, at its position and to its target. -/
theorem CodeUnit.copyAt?_eq_some {v : ValueId} {copy : Copy}
    (h : u.copyAt? position v = some copy) :
    copy ∈ u.copies ∧ copy.position = position ∧ copy.target = v :=
  ⟨List.mem_of_find?_eq_some h, by simpa using List.find?_some h⟩

/-- If no copy is found, there is none to the value. -/
theorem CodeUnit.copyAt?_eq_none {v : ValueId} (h : u.copyAt? position v = none) :
    ∀ copy ∈ u.copies, copy.position = position → copy.target ≠ v := by
  simpa [copyAt?] using h

/-- An instruction that is found is one of the unit, at its position. -/
theorem CodeUnit.instrAt?_eq_some {i : InstrId} (h : u.instrAt? position = some i) :
    i ∈ u.instrs ∧ (u.instr i).number = position :=
  ⟨List.mem_of_find?_eq_some h, by simpa using List.find?_some h⟩

/-- If no instruction is found, there is none at the position. -/
theorem CodeUnit.instrAt?_eq_none (h : u.instrAt? position = none) :
    ∀ i ∈ u.instrs, (u.instr i).number ≠ position := by
  simpa [instrAt?] using h

theorem CodeUnit.setOutput_of_eq {i : InstrId} {v : ValueId} (h : (u.instr i).out = some v)
    (env : Environment α) (slots : Nat → α) : u.setOutput env i slots v = slots := by
  rw [setOutput, h]
  exact Function.update_self _ _ _

/-- An instruction changes its output only. -/
theorem CodeUnit.setOutput_of_ne {i : InstrId} {v : ValueId} (h : (u.instr i).out ≠ some v)
    (env : Environment α) (slots : Nat → α) : u.setOutput env i slots v = env v := by
  rw [setOutput]
  cases hout : (u.instr i).out with
  | none => rfl
  | some w =>
    have hne : v ≠ w := by
      rintro rfl
      exact h hout
    exact Function.update_of_ne hne _ _

/-- There is one instruction at a position. -/
theorem CodeUnit.Executable.instr_unique (hu : u.Executable config) {i j : InstrId}
    (hi : i ∈ u.instrs) (hj : j ∈ u.instrs)
    (h : (u.instr i).number = (u.instr j).number) : i = j := by
  have hnodup : (u.instrs.map fun i => (u.instr i).number).Nodup :=
    List.pairwise_map.mpr (hu.ascending.imp Int64.ne_of_lt)
  exact List.inj_on_of_nodup_map hnodup hi hj h

/-- A constant that is an output has been made by its instruction. -/
theorem CodeUnit.Executable.constant_of_output (hu : u.Executable config) {i : InstrId}
    (hi : i ∈ u.instrs) {v : ValueId} (hout : (u.instr i).out = some v) {constant : Constant}
    (h : u.pool.constant? v = some constant) :
    (u.instr i).opcode = .const ∧ constant = ⟨i, (u.instr i).literal⟩ := by
  have hdefinition : (u.pool.value v).definition = some i := (hu.outputs i hi v hout).2
  simp only [Pool.constant?, hdefinition, Option.bind_eq_bind, Option.bind_some] at h
  split at h
  · next hconst =>
    cases h
    exact ⟨hconst, rfl⟩
  · cases h

end Positions

/-- A value that is not an argument is defined within its interval. -/
theorem CodeUnit.Executable.exists_definition {u : CodeUnit} {config : Config}
    (hu : u.Executable config) {v : ValueId} (hneeds : u.pool.needsRegister v = .ok true)
    (hv : v ∉ u.arguments) {position : Position} (h : u.DefinedBefore v position) :
    ∃ definition, u.ActsAt definition ∧ (u.value v).start ≤ definition ∧ definition < position := by
  obtain ⟨harg, -⟩ | ⟨i, hi, hout, hlt⟩ | ⟨copy, hcopy, rfl, hlt⟩ := h
  · exact absurd harg hv
  · have hlive := hu.outputsLive i hi v hout hneeds
    rw [Value.liveAt, Bool.and_eq_true, decide_eq_true_iff] at hlive
    exact ⟨_, .inl ⟨i, hi, rfl⟩, hlive.1, hlt⟩
  · refine ⟨_, .inr ⟨copy, hcopy, rfl⟩, ?_, hlt⟩
    rw [hu.targetsStart copy hcopy]
    exact Int64.le_refl _

/-! ## Slots of outputs -/

namespace Contents

variable (contents : Contents α) (type : MoveType) (register : Register) (slots : Nat → α)

/-- Slots outside the footprint keep their contents. -/
theorem put_of_not_mem {slot : Register} (h : slot ∉ type.footprint register) :
    contents.put type register slots slot = contents slot :=
  @write_of_not_mem α (fun _ => slots) contents contents ⟨register, .missing, type⟩ slot h

/-- The slots of the footprint hold what was put there. -/
theorem map_put :
    (type.footprint register).map (contents.put type register slots) = type.halves.map slots :=
  map_written_write (fun _ => slots) contents contents ⟨register, .missing, type⟩

end Contents

end RegisterAllocation
