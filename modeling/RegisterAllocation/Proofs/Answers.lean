import RegisterAllocation.Proofs.Arrival
import RegisterAllocation.Proofs.Printing

/-!
# What an allocation can be asked

The clients of an allocation ask for the registers of operands at their instructions. There is an
answer for a value that needs a register wherever it is live, and only there. So an instruction can
be printed if and only if its operands are live there, and the unit can be listed if this holds of
all its instructions. The check of an allocation asks for the inputs of ranges only; if they are
live, it ends with success or with a defect that has a text (`Allocator.answers_iff_live`).

Nothing makes sure that operands are live. An instruction may come before the copy that defines its
input (`Allocator.early_input_has_no_register`).
-/

namespace RegisterAllocation

namespace CodeUnit

/-- The operands of an instruction that need registers are live there. -/
def OperandsLive (u : CodeUnit) (i : InstrId) : Prop :=
  ∀ v ∈ u.pool.valuesOf i, u.pool.needsRegister v = .ok true →
    (u.value v).liveAt (u.instr i).number = true

/-- The inputs of all ranges are live. -/
def RangesLive (u : CodeUnit) : Prop :=
  ∀ i ∈ u.instrs, (u.instr i).opcode = .invokeRange →
    ∀ v ∈ (u.instr i).inputs, (u.value v).liveAt (u.instr i).number = true

instance (u : CodeUnit) (i : InstrId) : Decidable (u.OperandsLive i) :=
  inferInstanceAs (Decidable (∀ v ∈ u.pool.valuesOf i, _ → _))

instance (u : CodeUnit) : Decidable u.RangesLive :=
  inferInstanceAs (Decidable (∀ i ∈ u.instrs, _ → ∀ v ∈ (u.instr i).inputs, _))

section Placed

variable {u : CodeUnit} {placement : Placement} (hu : u.Consistent)
  (hplaced : ∀ v ∈ u.values, u.pool.needsRegister v = .ok true → ∀ position,
    (∃ register, placement v position = .ok register) ↔ (u.value v).liveAt position = true)
include hu hplaced

/-- An operand has to be live only where it is needed in a register. -/
theorem operandsLive_iff (i : InstrId) : u.OperandsLive i ↔
    ∀ v ∈ u.pool.valuesOf i, u.pool.needsRegister v = .ok true →
      ∃ register, placement v (u.instr i).number = .ok register :=
  forall₂_congr fun v hv => forall_congr' fun hneeds =>
    (hplaced v (hu.mem_values_of_mem_valuesOf hv) hneeds _).symm

/-- An instruction has a text if and only if its operands are live. -/
theorem exists_encodedText_iff_operandsLive (i : InstrId) :
    (∃ text, u.pool.encodedText placement i = .ok text) ↔ u.OperandsLive i := by
  rw [hu.exists_encodedText_iff, operandsLive_iff hu hplaced]
  exact forall₂_congr fun v _ => hu.exists_operand_iff

/-- The inputs of a range need registers, whatever they are. -/
theorem rangesLive_iff : u.RangesLive ↔ ∀ i ∈ u.instrs, (u.instr i).opcode = .invokeRange →
    ∀ v ∈ (u.instr i).inputs, ∃ register, placement v (u.instr i).number = .ok register := by
  refine forall₂_congr fun i hi => forall_congr' fun hrange => forall₂_congr fun v hv => ?_
  obtain ⟨needs, hneeds⟩ := hu.needsRegister v
  obtain rfl := Pool.needsRegister_of_range hrange (hu.uses i v hv) hneeds
  exact (hplaced v (hu.inputs i v hv) hneeds _).symm

end Placed

end CodeUnit

/-! ## Reports -/

/-- A check can be carried out: it succeeds, or it finds a defect and there is a text for it. -/
def Reports {α : Type} (unit : String) : Except CheckFailure α → Prop
  | .ok _ => True
  | .error (.defect defect) => ∃ text, defect.message unit = .ok text
  | .error (.failure _) => False

namespace Reports

variable {α β δ : Type} {unit : String}

/-- A check in two parts reports its defects if both parts do. -/
theorem bind {x : Except CheckFailure α} {f : α → Except CheckFailure β} (hx : Reports unit x)
    (hf : ∀ a, x = .ok a → Reports unit (f a)) : Reports unit (x >>= f) := by
  cases x with
  | ok a => exact hf a rfl
  | error failure => cases failure <;> exact hx

/-- A computation that succeeds has nothing to report. -/
theorem lift {x : Except Fault α} (h : ∃ a, x = .ok a) : Reports unit (CheckFailure.lift x) := by
  obtain ⟨a, rfl⟩ := h
  trivial

/-- A check reports its defects if each of them has a text. -/
theorem mapError {x : Except δ α} {defect : δ → Defect}
    (h : ∀ e, x = .error e → ∃ text, (defect e).message unit = .ok text) :
    Reports unit (x.mapError fun e => .defect (defect e)) := by
  cases x with
  | ok a => trivial
  | error e => exact h e rfl

/-- A check of every element reports its defects if each check does. -/
theorem forM {xs : List α} {f : α → Except CheckFailure Unit} (h : ∀ x ∈ xs, Reports unit (f x)) :
    Reports unit (xs.forM f) := by
  induction xs with
  | nil => trivial
  | cons x xs ih =>
    obtain ⟨hx, hxs⟩ := List.forall_mem_cons.mp h
    exact hx.bind fun _ _ => ih hxs

end Reports

namespace Allocation

variable {u : CodeUnit} {pieces : List Piece} {placement : Placement} {unit : String}

/-- The check of values reports its defects. -/
theorem reports_checkValues (hu : u.Consistent) (vs : List ValueId) :
    Reports unit (checkValues u pieces vs) := by
  induction vs with
  | nil => trivial
  | cons v vs ih =>
    refine (Reports.lift (hu.needsRegister v)).bind fun needs _ => ?_
    cases needs with
    | false => exact ih
    | true =>
      have hcoverage : Reports unit
          ((checkCoverage u v (Piece.ofValue pieces v)).mapError .defect) := by
        refine Reports.mapError fun defect hdefect => ?_
        unfold checkCoverage at hdefect
        split at hdefect
        · cases hdefect
          exact ⟨_, rfl⟩
        · split at hdefect
          · cases hdefect
          · cases hdefect
            exact ⟨_, rfl⟩
      exact hcoverage.bind fun _ _ => ih.bind fun _ _ => trivial

/-- The check for shared slots reports its defects. -/
theorem reports_checkSharing (pool : Pool) (pieces : List Piece) :
    Reports unit ((checkSharing pool pieces).mapError .defect) := by
  refine Reports.mapError fun defect hdefect => ?_
  induction pieces with
  | nil => cases hdefect
  | cons piece rest ih =>
    rw [checkSharing] at hdefect
    split at hdefect
    · cases hdefect
      exact ⟨_, rfl⟩
    · exact ih hdefect

/-- The check of arguments reports its defects if every argument has a register. -/
theorem reports_checkArguments {register : Register} {vs : List ValueId}
    (h : ∀ v ∈ vs, ∃ found, placement v (u.value v).start = .ok found) :
    Reports unit (checkArguments u placement register vs) := by
  induction vs generalizing register with
  | nil => trivial
  | cons v vs ih =>
    obtain ⟨hv, hvs⟩ := List.forall_mem_cons.mp h
    refine (Reports.lift hv).bind fun found _ => ?_
    split
    · exact ⟨_, rfl⟩
    · exact ih hvs

/-- The check of pinned values reports its defects. -/
theorem reports_checkPinned (hu : u.Consistent) (vs : List ValueId) :
    Reports unit (checkPinned u pieces vs) := by
  induction vs with
  | nil => trivial
  | cons v vs ih =>
    rw [checkPinned]
    split
    · refine (Reports.lift (hu.needsRegister v)).bind fun needs _ => ?_
      split
      · split
        · exact ⟨_, rfl⟩
        · exact ih
      · exact ih
    · exact ih

/-- The check of a row reports its defects if every value of it has a register. -/
theorem reports_checkRow {number : Int64} {register : Register} {vs : List ValueId}
    (h : ∀ v ∈ vs, ∃ found, placement v number = .ok found) :
    Reports unit (checkRow u placement number register vs) := by
  induction vs generalizing register with
  | nil => trivial
  | cons v vs ih =>
    obtain ⟨hv, hvs⟩ := List.forall_mem_cons.mp h
    refine (Reports.lift hv).bind fun found _ => ?_
    split
    · exact ⟨_, rfl⟩
    · exact ih hvs

/-- The check of ranges reports its defects if the inputs of ranges have registers. -/
theorem reports_checkRanges {is : List InstrId}
    (h : ∀ i ∈ is, (u.instr i).opcode = .invokeRange → ∀ v ∈ (u.instr i).inputs,
      ∃ found, placement v (u.instr i).number = .ok found) :
    Reports unit (checkRanges u placement is) := by
  induction is with
  | nil => trivial
  | cons i is ih =>
    obtain ⟨hi, his⟩ := List.forall_mem_cons.mp h
    rw [checkRanges]
    split
    · next hrange =>
      split
      · next first rest hinputs =>
        have hfirst := hi hrange first (hinputs ▸ List.mem_cons_self)
        refine (Reports.lift hfirst).bind fun register _ => ?_
        exact (reports_checkRow (hi hrange)).bind fun _ _ => ih his
      · exact ih his
    · exact ih his

/-- Ranges that pass their check have registers. -/
theorem placement_of_checkRow {number : Int64} {register : Register} {vs : List ValueId}
    (h : checkRow u placement number register vs = .ok ()) :
    ∀ v ∈ vs, ∃ found, placement v number = .ok found := by
  induction vs generalizing register with
  | nil => simp
  | cons v vs ih =>
    obtain ⟨found, hfound, h⟩ := bind_eq_ok h
    split at h
    · cases h
    · exact List.forall_mem_cons.mpr ⟨⟨found, mapError_eq_ok hfound⟩, ih h⟩

/-- If the ranges pass their check, then their inputs have registers. -/
theorem placement_of_checkRanges {is : List InstrId} (h : checkRanges u placement is = .ok ()) :
    ∀ i ∈ is, (u.instr i).opcode = .invokeRange → ∀ v ∈ (u.instr i).inputs,
      ∃ found, placement v (u.instr i).number = .ok found := by
  induction is with
  | nil => simp
  | cons i is ih =>
    rw [checkRanges] at h
    split at h
    · split at h
      · obtain ⟨register, -, h⟩ := bind_eq_ok h
        obtain ⟨⟨⟩, hrow, h⟩ := bind_eq_ok h
        exact List.forall_mem_cons.mpr ⟨fun _ => placement_of_checkRow hrow, ih h⟩
      · next hnone =>
        have hempty : (u.instr i).inputs = [] :=
          List.eq_nil_iff_forall_not_mem.mpr fun v hv => by
            obtain ⟨first, rest, heq⟩ := List.exists_cons_of_ne_nil (List.ne_nil_of_mem hv)
            exact hnone first rest heq
        exact List.forall_mem_cons.mpr ⟨fun _ v hv => by simp [hempty] at hv, ih h⟩
    · next hrange =>
      exact List.forall_mem_cons.mpr ⟨fun hi => absurd hi hrange, ih h⟩

/-! ## The moves -/

/-- There is a text for whatever comes from an origin. -/
def Origin.Printable (origin : Origin) : Prop :=
  ∀ type, ∀ content ∈ origin.contents type, content.Printable

/-- What comes from a register that there is can be printed. -/
theorem Origin.printable_register {register : Register} (hregister : 0 ≤ register) (v : ValueId) :
    (Origin.ofRegister u.pool v register).Printable := by
  have hne : register ≠ noRegister := by
    rintro rfl
    exact absurd hregister (by decide)
  rw [ofRegister, if_neg hne]
  intro type content hcontent
  obtain ⟨slot, -, rfl⟩ := List.mem_map.mp hcontent
  exact ⟨_, rfl⟩

/-- A constant can be printed. -/
theorem Origin.printable_constant (hu : u.Consistent) {v : ValueId} {constant : Constant}
    (hconstant : u.pool.constant? v = some constant) :
    (Origin.ofRegister u.pool v noRegister).Printable := by
  rw [ofRegister, if_pos rfl, Pool.definition?_of_constant? hconstant]
  intro type content hcontent
  obtain ⟨literal, -, htext⟩ := hu.exists_text hconstant
  have hhalf : ∃ half, content = .constant (some constant) half := by
    cases type <;> simp [contents, RegisterFile.constantSlots] at hcontent <;> grind
  obtain ⟨half, rfl⟩ := hhalf
  exact Content.printable_constant htext half

section Moves

variable {file : RegisterFile} {position : Position} {v : ValueId} {defect : MoveDefect}
  (hfile : ∀ slot, (file.get slot).Printable)
include hfile

/-- A value that does not arrive is reported, whatever it is to come from. -/
theorem exists_message_of_checkArrival {origin : Origin} (horigin : origin.Printable)
    {register : Register} (h : checkArrival u file v origin register = .error defect) :
    ∃ text, defect.message = .ok text := by
  simp only [checkArrival] at h
  split at h
  · cases h
  · next slot wanted hfound =>
    cases h
    have hmem := List.of_mem_zip (List.mem_of_find?_eq_some hfound)
    have hmessage : ∃ text, WrongSlot.message ⟨slot, file.get slot, wanted⟩ = .ok text :=
      WrongSlot.exists_message (hfile slot) (horigin _ _ hmem.2)
    obtain ⟨text, htext⟩ := hmessage
    exact ⟨u.label v ++ ": " ++ text, by simp only [MoveDefect.message, htext]; rfl⟩

/-- A value that does not arrive in its next piece is reported. -/
theorem exists_message_of_checkChanges (hu : u.Consistent) {own : List Piece}
    (hnonneg : ∀ piece ∈ own, 0 ≤ piece.register)
    (h : checkChanges u file position v own = .error defect) :
    ∃ text, defect.message = .ok text := by
  match own with
  | [] => cases h
  | [_] => cases h
  | before :: after :: rest =>
    obtain ⟨hbefore, hrest⟩ := List.forall_mem_cons.mp hnonneg
    rw [checkChanges] at h
    split at h
    · obtain harrival | ⟨_, -, h⟩ := bind_eq_error h
      · refine exists_message_of_checkArrival hfile ?_ harrival
        split
        · next hconstant =>
          obtain ⟨constant, hconstant⟩ := Option.isSome_iff_exists.mp hconstant
          exact Origin.printable_constant hu hconstant
        · exact Origin.printable_register hbefore v
      · exact exists_message_of_checkChanges hu hrest h
    · exact exists_message_of_checkChanges hu hrest h

/-- A copy that does not arrive is reported. -/
theorem reports_checkCopy (hu : u.Consistent) (hnonneg : ∀ piece ∈ pieces, 0 ≤ piece.register)
    {copy : Copy} {move : Option Move}
    (hcopy : CopyMove u pieces copy move) : Reports unit (checkCopy u pieces file copy) := by
  have harrival : ∀ {origin : Origin}, origin.Printable → ∀ register,
      Reports unit ((checkArrival u file copy.source origin register).mapError
        fun defect => .defect (.moves copy.position defect)) := by
    intro origin horigin register
    refine Reports.mapError fun defect hdefect => ?_
    obtain ⟨text, htext⟩ := exists_message_of_checkArrival hfile horigin hdefect
    exact ⟨_, by simp only [Defect.message, htext]; rfl⟩
  cases hcopy with
  | constant register constant htarget hneeds hconstant =>
    simp only [checkCopy, hneeds, registerAt, htarget]
    exact harrival (Origin.printable_constant hu hconstant) register
  | shared register htarget hneeds hsource =>
    simp only [checkCopy, hneeds, registerAt, htarget, hsource]
    exact harrival
      (Origin.printable_register (nonneg_of_registerAt? hnonneg hsource) copy.source) register
  | moved register origin htarget hneeds hsource hne =>
    simp only [checkCopy, hneeds, registerAt, htarget, hsource]
    exact harrival
      (Origin.printable_register (nonneg_of_registerAt? hnonneg hsource) copy.source) register

end Moves

/-- A slot with the wrong content is reported. -/
theorem exists_message_of_wrongSlot? {moves scheduled : List Move} {temporary : Register}
    {wrong : WrongSlot} (hmoves : ∀ move ∈ moves, move.Printable)
    (hscheduled : ∀ move ∈ scheduled, move.Printable)
    (h : Move.wrongSlot? moves scheduled temporary = some wrong) :
    ∃ text, wrong.message = .ok text := by
  obtain ⟨slot, -, hslot⟩ := List.exists_of_findSome?_eq_some h
  dsimp only at hslot
  split at hslot
  · cases hslot
  · cases hslot
    exact WrongSlot.exists_message (RegisterFile.printable_run hscheduled slot)
      (RegisterFile.printable_runParallel hmoves slot)

/-- The moves of an allocation can be checked. -/
theorem Recorded.reports_checkMoves {config : Config} {allocation : Allocation}
    {scanned table : MoveTable} (h : Recorded u config allocation scanned table)
    (hu : u.Consistent) {set : MoveSet} (hset : set ∈ allocation.moveSets) :
    Reports unit (checkMoves u allocation.pieces allocation.temporary set) := by
  obtain ⟨hmoves, hscheduled⟩ := List.forall_mem_append.mp (h.printable hu hset)
  have hfile := RegisterFile.printable_run hscheduled
  rw [checkMoves]
  split
  · next wrong hwrong =>
    obtain ⟨text, htext⟩ := exists_message_of_wrongSlot? hmoves hscheduled hwrong
    exact ⟨_, by simp only [Defect.message, MoveDefect.message, htext]; rfl⟩
  · have hchanges : ∀ v ∈ u.values, Reports unit
        ((checkChanges u (RegisterFile.initial.run set.scheduled) set.position v
          (Piece.ofValue allocation.pieces v)).mapError
            fun defect => .defect (.moves set.position defect)) := by
      intro v _
      refine Reports.mapError fun defect hdefect => ?_
      obtain ⟨text, htext⟩ := exists_message_of_checkChanges hfile hu
        (fun piece hpiece => h.nonneg piece (List.mem_of_mem_filter hpiece)) hdefect
      exact ⟨_, by simp only [Defect.message, htext]; rfl⟩
    refine (Reports.forM hchanges).bind fun _ _ => Reports.forM fun copy hcopy => ?_
    obtain ⟨move, hmove⟩ := h.copies.move copy (List.mem_filter.mp hcopy).1
    exact reports_checkCopy hfile hu h.nonneg hmove

end Allocation

/-- The number of registers of a configuration that passes its check is not negative. -/
theorem Config.registers_nonneg_of_check {config : Config} (h : config.check = .ok ()) :
    0 ≤ config.registers := by
  unfold check at h
  split at h
  · cases h
  · grind

namespace Allocator

variable {u : CodeUnit} {config : Config} {allocation : Allocation}

/-- A check can be carried out if arguments and the inputs of ranges have registers. -/
theorem reports_check {scanned table : MoveTable}
    (h : Allocation.Recorded u config allocation scanned table) (hu : u.Consistent)
    (harguments : ∀ v ∈ u.arguments, ∃ register,
      (holding config allocation).placement u v (u.value v).start = .ok register)
    (hranges : ∀ i ∈ u.instrs, (u.instr i).opcode = .invokeRange → ∀ v ∈ (u.instr i).inputs,
      ∃ register, (holding config allocation).placement u v (u.instr i).number = .ok register) :
    Reports u.name ((holding config allocation).check u) := by
  refine (Reports.lift ⟨allocation, rfl⟩).bind fun found hfound => ?_
  cases hfound
  refine (Allocation.reports_checkValues hu u.values).bind fun pieces _ => ?_
  refine (Allocation.reports_checkSharing u.pool _).bind fun _ _ => ?_
  refine (Allocation.reports_checkArguments harguments).bind fun _ _ => ?_
  refine (Allocation.reports_checkPinned hu u.values).bind fun _ _ => ?_
  refine (Allocation.reports_checkRanges hranges).bind fun _ _ => ?_
  exact Reports.forM fun set hset => h.reports_checkMoves hu hset

/-- If an allocation passes its check, then the inputs of ranges have registers. -/
theorem placement_of_check {allocator : Allocator} (h : allocator.check u = .ok ()) :
    ∀ i ∈ u.instrs, (u.instr i).opcode = .invokeRange → ∀ v ∈ (u.instr i).inputs,
      ∃ register, allocator.placement u v (u.instr i).number = .ok register := by
  rw [check] at h
  obtain ⟨allocation, -, h⟩ := bind_eq_ok h
  obtain ⟨pieces, -, h⟩ := bind_eq_ok h
  obtain ⟨⟨⟩, -, h⟩ := bind_eq_ok h
  obtain ⟨⟨⟩, -, h⟩ := bind_eq_ok h
  obtain ⟨⟨⟩, -, h⟩ := bind_eq_ok h
  obtain ⟨⟨⟩, hranges, -⟩ := bind_eq_ok h
  exact Allocation.placement_of_checkRanges hranges

/-- A value has a register where it is live, and nowhere else. -/
theorem exists_placement_iff (hu : u.Consistent)
    (hintervals : ∀ v ∈ u.values, (u.value v).hasInterval = true)
    (hallocate : u.allocate config = .ok allocation) {v : ValueId}
    (hv : v ∈ u.arguments ∨ v ∈ u.values ∧ u.pool.needsRegister v = .ok true)
    {position : Position} :
    (∃ register, (holding config allocation).placement u v position = .ok register) ↔
      (u.value v).liveAt position = true := by
  have hnodup : u.values.Nodup := hu.values.nodup_iff.mpr List.nodup_range
  have hchain := Allocation.chain_of_allocate hnodup
    (fun v hv => hintervals v (hu.arguments v hv)) hallocate hv
  simp only [placement_eq_ok_iff]
  exact Allocation.registerAt?_iff_of_chain hchain

/-- An allocation of a unit that was read has a register for a value at the positions where it is
live, and only there. An instruction can be printed if its operands are live, and the unit can be
listed if all operands are. The allocation can be checked if the inputs of ranges are live, and it
is not accepted otherwise. -/
theorem answers_iff_live {allocator next : Allocator} {expr : SExpr}
    (hread : CodeUnit.ofSExpr expr = .ok u) (hconfig : allocator.config.check = .ok ())
    (hrun : allocator.run u = (next, none)) :
    (∀ v ∈ u.values, u.pool.needsRegister v = .ok true → ∀ position,
      (∃ register, next.placement u v position = .ok register) ↔
        (u.value v).liveAt position = true) ∧
    (∀ i, (∀ v ∈ u.pool.valuesOf i, u.pool.needsRegister v = .ok true →
      ∃ register, next.placement u v (u.instr i).number = .ok register) ↔ u.OperandsLive i) ∧
    (∀ i, (∃ text, u.pool.encodedText (next.placement u) i = .ok text) ↔ u.OperandsLive i) ∧
    ((∃ text, next.listing u = .ok text) ↔ ∀ i ∈ u.instrs, u.OperandsLive i) ∧
    (u.RangesLive → Reports u.name (next.check u)) ∧
    (next.check u = .ok () → u.RangesLive) := by
  obtain ⟨allocation, hallocate, rfl⟩ := run_eq_none hrun
  obtain ⟨hbuilt, hintervals⟩ := CodeUnit.built_of_read hread
  have hu := hbuilt.consistent
  obtain ⟨scanned, table, hrecorded⟩ :=
    Allocation.recorded_of_allocate (Config.registers_nonneg_of_check hconfig) hallocate
  have hplaced : ∀ v ∈ u.values, u.pool.needsRegister v = .ok true → ∀ position, (∃ register,
      (holding allocator.config allocation).placement u v position = .ok register) ↔
        (u.value v).liveAt position = true :=
    fun v hv hneeds position => exists_placement_iff hu hintervals hallocate (.inr ⟨hv, hneeds⟩)
  have hargument : ∀ v ∈ u.arguments, ∃ register,
      (holding allocator.config allocation).placement u v (u.value v).start = .ok register := by
    intro v hv
    have hinterval := hintervals v (hu.arguments v hv)
    refine (exists_placement_iff hu hintervals hallocate (.inl hv)).mpr ?_
    simpa [Value.hasInterval, Value.liveAt] using hinterval
  have htexts := CodeUnit.exists_encodedText_iff_operandsLive hu hplaced
  have hranges := CodeUnit.rangesLive_iff hu hplaced
  refine ⟨hplaced, fun i => (CodeUnit.operandsLive_iff hu hplaced i).symm, htexts, ?_,
    fun hlive => ?_, fun hcheck => ?_⟩
  · have hmoves : ∀ set ∈ allocation.moveSets, ∀ move ∈ set.scheduled, move.Printable :=
      fun set hset => (List.forall_mem_append.mp (hrecorded.printable hu hset)).2
    rw [exists_listing_iff hu hargument hmoves]
    exact forall₂_congr fun i _ => htexts i
  · exact reports_check hrecorded hu hargument (hranges.mp hlive)
  · exact hranges.mpr (placement_of_check hcheck)

/-- The constant `k` needs no register and is copied at 8, where a range has two inputs. -/
def tallyForm : SExpr :=
  .list [.symbol "unit" 1, .symbol "tally" 1,
    .list [.symbol "arguments" 2, .list [.symbol "n" 2, .symbol "single" 2] 2] 2,
    .list [.symbol "instructions" 3,
      .list [.int 2 4, .symbol "const" 4, .list [.symbol "k" 4, .symbol "single" 4] 4, .int 1 4] 4,
      .list [.int 4 5, .symbol "add-int" 5, .list [.symbol "m" 5, .symbol "single" 5] 5,
        .symbol "n" 5, .symbol "k" 5] 5,
      .list [.int 6 6, .symbol "move" 6, .list [.symbol "p" 6, .symbol "single" 6] 6,
        .symbol "n" 6] 6,
      .list [.int 8 7, .symbol "invoke-range" 7, .symbol "f" 7, .list [] 7, .symbol "m" 7,
        .symbol "p" 7] 7] 3,
    .list [.symbol "copies" 8,
      .list [.int 8 8, .symbol "k" 8, .list [.symbol "t" 8, .symbol "single" 8] 8] 8] 8] 1

/-- What is read from `tallyForm`. -/
def tally : CodeUnit where
  name := "tally"
  pool := {
    values := #[
      { number := 0, name := "n", type := .single, start := 0, stop := 7, isArgument := true,
        uses := [1, 2] },
      { number := 1, name := "k", type := .single, start := 2, stop := 8, definition := some 0,
        uses := [1] },
      { number := 2, name := "m", type := .single, start := 4, stop := 9, definition := some 1,
        uses := [3] },
      { number := 3, name := "p", type := .single, start := 6, stop := 9, definition := some 2,
        uses := [3] },
      { number := 4, name := "t", type := .single, start := 8, stop := 9 }]
    instrs := #[
      { number := 2, opcode := .const, literal := some (.int 1), out := some 1 },
      { number := 4, opcode := .add, numeric := some .int, out := some 2, inputs := [0, 1] },
      { number := 6, opcode := .move, out := some 3, inputs := [0] },
      { number := 8, opcode := .invokeRange, method := "f", inputs := [2, 3] }] }
  arguments := [0]
  instrs := [0, 1, 2, 3]
  values := [0, 1, 2, 3, 4]
  copies := [⟨8, 1, 4⟩]

theorem answers_iff_live_tally : CodeUnit.ofSExpr tallyForm = .ok tally ∧ ∃ next : Allocator,
    Allocator.run { config := { registers := 4, maxRegisters := 8 } } tally = (next, none) ∧
    (∃ register, next.placement tally 3 8 = .ok register) ∧
    (¬ ∃ register, next.placement tally 3 5 = .ok register) ∧
    (∃ text, tally.pool.encodedText (next.placement tally) 1 = .ok text) ∧
    (∃ text, next.listing tally = .ok text) ∧
    Reports "tally" (next.check tally) := by
  have hread : CodeUnit.ofSExpr tallyForm = .ok tally := by decide +kernel
  have hrun : Allocator.run { config := { registers := 4, maxRegisters := 8 } } tally = (_, none) :=
    Prod.ext rfl (by decide +kernel)
  have hlive : ∀ i ∈ tally.instrs, tally.OperandsLive i := by decide
  obtain ⟨hplaced, -, htexts, hlisting, hcheck, -⟩ := answers_iff_live hread (by decide) hrun
  refine ⟨hread, _, hrun, ?_, ?_, ?_, hlisting.mpr hlive, hcheck (by decide)⟩
  · exact (hplaced 3 (by decide) (by decide) 8).mpr (by decide)
  · exact fun h => absurd ((hplaced 3 (by decide) (by decide) 5).mp h) (by decide)
  · exact (htexts 1).mpr (hlive 1 (by decide))

/-- The input of an instruction at 2 is defined by a copy at 4. -/
def earlyForm : SExpr :=
  .list [.symbol "unit" 1, .symbol "early" 1,
    .list [.symbol "arguments" 2, .list [.symbol "a" 2, .symbol "single" 2] 2] 2,
    .list [.symbol "instructions" 3,
      .list [.int 2 3, .symbol "invoke-range" 3, .symbol "f" 3, .list [] 3, .symbol "x" 3] 3] 3,
    .list [.symbol "copies" 4,
      .list [.int 4 4, .symbol "a" 4, .list [.symbol "x" 4, .symbol "single" 4] 4] 4] 4] 1

/-- What is read from `earlyForm`. -/
def early : CodeUnit where
  name := "early"
  pool := {
    values := #[
      { number := 0, name := "a", type := .single, start := 0, stop := 4, isArgument := true },
      { number := 1, name := "x", type := .single, start := 4, stop := 5, uses := [0] }]
    instrs := #[{ number := 2, opcode := .invokeRange, method := "f", inputs := [1] }] }
  arguments := [0]
  instrs := [0]
  values := [0, 1]
  copies := [⟨4, 0, 1⟩]

/-- The unit is accepted and allocated, but its instruction cannot be printed, and neither a listing
nor a check of the allocation comes to an end. -/
theorem early_input_has_no_register : CodeUnit.ofSExpr earlyForm = .ok early ∧
    ({} : Config).check = .ok () ∧ early.pool.needsRegister 1 = .ok true ∧ ∃ next : Allocator,
    Allocator.run {} early = (next, none) ∧
    next.placement early 1 2 = .error (.noRegister "early" "x_1" 2) ∧
    early.pool.encodedText (next.placement early) 0 = .error (.noRegister "early" "x_1" 2) ∧
    next.listing early = .error (.noRegister "early" "x_1" 2) ∧
    next.check early = .error (.failure (.fault (.noRegister "early" "x_1" 2))) := by
  have hread : CodeUnit.ofSExpr earlyForm = .ok early := by decide +kernel
  have hrun : Allocator.run {} early =
      (⟨{}, some ⟨[⟨0, 0, 4, 0⟩, ⟨1, 4, 5, 0⟩], [], 1, 1⟩⟩, none) := by
    decide +kernel
  exact ⟨hread, by decide, by decide, _, hrun, by decide +kernel, by decide +kernel,
    by decide +kernel, by decide +kernel⟩

end Allocator
end RegisterAllocation
