import RegisterAllocation.Proofs.Execution.Basic
import RegisterAllocation.Proofs.Moves

/-!
# Allocation preserves meaning

The run on registers reads what the run on values does (`Allocator.execute_eq`). Along the run every
piece that is live holds the contents of its value, if that has been defined (`Allocation.Holds`).
Before a position this is so for the pieces that have begun earlier. The moves make it so for those
that begin there, and the instruction for that of its output. Between two positions of the run
nothing is defined and no value goes to another register, so that it stays so up to the next one.
-/

namespace RegisterAllocation

variable {α : Type}

namespace Allocation

/-- The registers hold what the values do, for the pieces that are `live` and the values that are
`defined`. Constants that are defined have been loaded. -/
structure Holds (u : CodeUnit) (pieces : List Piece) (load : Option Constant → Nat → α)
    (live : Piece → Prop) (defined : ValueId → Prop) (env : Environment α) (contents : Contents α) :
    Prop where
  registers : ∀ piece ∈ pieces, u.pool.needsRegister piece.value = .ok true → live piece →
    defined piece.value →
    ((u.value piece.value).type.footprint piece.register).map contents = u.slots env piece.value
  constants : ∀ v constant, u.pool.constant? v = some constant → defined v →
    env v = load (some constant)

/-- What holds of more pieces and more values holds of fewer. -/
theorem Holds.mono {u : CodeUnit} {pieces : List Piece} {load : Option Constant → Nat → α}
    {live live' : Piece → Prop} {defined defined' : ValueId → Prop} {env : Environment α}
    {contents : Contents α} (h : Holds u pieces load live defined env contents)
    (hlive : ∀ piece ∈ pieces, u.pool.needsRegister piece.value = .ok true → live' piece →
      defined' piece.value → live piece)
    (hdefined : ∀ v, defined' v → defined v) : Holds u pieces load live' defined' env contents := by
  refine ⟨fun piece hpiece hneeds hlive' hdefined' => ?_, fun v constant hconstant hdefined' => ?_⟩
  · exact h.registers piece hpiece hneeds (hlive piece hpiece hneeds hlive' hdefined')
      (hdefined _ hdefined')
  · exact h.constants v constant hconstant (hdefined v hdefined')

/-- A piece has begun before a position and has not ended earlier. Arguments begin before anything
else does. -/
def HasBegun (u : CodeUnit) (position : Position) (piece : Piece) : Prop :=
  (piece.start < position ∨ piece.value ∈ u.arguments ∧ piece.start ≤ position) ∧
    position ≤ piece.stop

/-- What holds before anything has happened at a position. -/
abbrev HoldsBefore (u : CodeUnit) (pieces : List Piece) (load : Option Constant → Nat → α)
    (position : Position) : Environment α → Contents α → Prop :=
  Holds u pieces load (HasBegun u position) (u.DefinedBefore · position)

/-- What holds when the instruction at a position is carried out. -/
abbrev HoldsAt (u : CodeUnit) (pieces : List Piece) (load : Option Constant → Nat → α)
    (position : Position) : Environment α → Contents α → Prop :=
  Holds u pieces load (·.covers position = true) (u.DefinedAt · position)

/-- What holds after the instruction at a position. -/
abbrev HoldsAfter (u : CodeUnit) (pieces : List Piece) (load : Option Constant → Nat → α)
    (position : Position) : Environment α → Contents α → Prop :=
  Holds u pieces load (·.covers position = true) fun v => u.DefinedAt v position ∨
    ∃ i ∈ u.instrs, (u.instr i).number = position ∧ (u.instr i).out = some v

section Moves

variable {u : CodeUnit} {config : Config} {allocation : Allocation} {scanned table : MoveTable}
  {load : Option Constant → Nat → α} {env : Environment α} {contents : Contents α}
  (hu : u.Executable config) (hrec : Recorded u config allocation scanned table)
  (hsound : Sound u config allocation.pieces scanned)

include hrec in
/-- The source of a copy is in a piece that has begun. -/
theorem source_slots {position : Position}
    (hbefore : HoldsBefore u allocation.pieces load position env contents) {v : ValueId}
    (hneeds : u.pool.needsRegister v = .ok true) (hdefined : u.DefinedBefore v position)
    {origin : Register}
    (horigin : Piece.registerAt? allocation.pieces v (position - 1) = some origin) :
    0 ≤ origin ∧ ((u.value v).type.footprint origin).map contents = u.slots env v := by
  obtain ⟨piece, hpiece, rfl, hcovers, rfl⟩ := Piece.exists_of_registerAt? horigin
  have hbegun : HasBegun u position piece := by
    rw [Piece.covers_iff] at hcovers
    exact ⟨.inl (by grind), by grind⟩
  exact ⟨hrec.nonneg piece hpiece, hbefore.registers piece hpiece hneeds hbegun hdefined⟩

include hu hrec hsound

/-- After the moves the target of a copy holds what the source did. -/
theorem map_run_copied {copy : Copy} (hcopy : copy ∈ u.copies)
    (hbefore : HoldsBefore u allocation.pieces load copy.position env contents) {piece : Piece}
    (hpiece : piece ∈ allocation.pieces) (hvalue : piece.value = copy.target)
    (hcovers : piece.covers copy.position = true) :
    ((u.value piece.value).type.footprint piece.register).map
        (Contents.run load contents (scheduledAt allocation.moveSets copy.position)) =
      (u.value piece.value).type.halves.map (env copy.source) := by
  have hdefined := hu.sourcesDefined copy hcopy
  have hwidth := hrec.copies.width copy hcopy
  have hregister := Piece.registerAt?_eq (hsound.layout piece hpiece) hpiece hcovers
  rw [hvalue] at hregister ⊢
  obtain ⟨move, hmove⟩ := hrec.copies.move copy hcopy
  cases hmove with
  | constant register constant htarget hneeds hconstant =>
    obtain rfl : piece.register = register := Option.some.inj (hregister.symm.trans htarget)
    rw [hbefore.constants copy.source constant hconstant hdefined]
    have hmem := hrec.mem_of_copy hcopy (.constant _ constant htarget hneeds hconstant)
    exact hrec.map_run hmem load contents
  | moved register origin htarget hneeds hsource hne =>
    obtain rfl : piece.register = register := Option.some.inj (hregister.symm.trans htarget)
    obtain ⟨hnonneg, hslots⟩ := source_slots hrec hbefore hneeds hdefined hsource
    have hmem := hrec.mem_of_copy hcopy (.moved _ origin htarget hneeds hsource hne)
    have hrun := hrec.map_run hmem load contents
    rw [Contents.read_ofRegisters load contents hnonneg, ← MoveType.footprint_congr hwidth, hslots,
      CodeUnit.slots, MoveType.halves_congr hwidth] at hrun
    exact hrun
  | shared register htarget hneeds hsource =>
    obtain rfl : piece.register = register := Option.some.inj (hregister.symm.trans htarget)
    obtain ⟨-, hslots⟩ := source_slots hrec hbefore hneeds hdefined hsource
    have hkept := hrec.map_run_kept hsound hpiece hcovers (fun head hown => ?_)
      (fun other hother hposition htarget' => ?_) load contents
    · rw [hvalue] at hkept
      rw [hkept, ← MoveType.footprint_congr hwidth, hslots, CodeUnit.slots,
        MoveType.halves_congr hwidth]
    · -- the target begins here, so this is its first piece
      obtain ⟨-, -, -, -, hlayout⟩ := hsound.pair hown
      obtain ⟨hstart, hlt, -⟩ := hlayout.pair
      rw [hstart, hvalue, hu.targetsStart copy hcopy] at hlt
      grind
    · obtain rfl := hrec.copies.copy_unique hother hcopy hposition (htarget'.trans hvalue)
      exact .shared piece.register htarget hneeds hsource

/-- After the moves every other value that is defined is still there. -/
theorem map_run_defined {position : Position}
    (hbefore : HoldsBefore u allocation.pieces load position env contents) {piece : Piece}
    (hpiece : piece ∈ allocation.pieces) (hcovers : piece.covers position = true)
    (hneeds : u.pool.needsRegister piece.value = .ok true)
    (hdefined : u.DefinedBefore piece.value position)
    (hcopy : ∀ copy ∈ u.copies, copy.position = position → copy.target ≠ piece.value) :
    ((u.value piece.value).type.footprint piece.register).map
        (Contents.run load contents (scheduledAt allocation.moveSets position)) =
      u.slots env piece.value := by
  by_cases hsecond : ∃ head, Piece.ofValue allocation.pieces piece.value = [head, piece] ∧
      piece.start = position
  · -- it comes from its first piece, or is loaded again
    obtain ⟨head, hown, hstart⟩ := hsecond
    obtain ⟨hhead, hvalue, -, -, hlayout⟩ := hsound.pair hown
    obtain ⟨-, hlt, hstop, -⟩ := hlayout.pair
    have hmove := hstart ▸ hrec.mem_of_pair hsound hown
    have hrun := hrec.map_run hmove load contents
    rw [Scan.relocation_written, Scan.read_relocation _ _ u (hrec.nonneg head hhead),
      hvalue] at hrun
    refine hrun.trans ?_
    cases hconstant : u.pool.constant? piece.value with
    | some constant => rw [CodeUnit.slots, hbefore.constants _ constant hconstant hdefined]
    | none =>
      have hbegun : HasBegun u position head := ⟨.inl (by grind), by grind⟩
      have hholds := hbefore.registers head hhead (hvalue ▸ hneeds) hbegun (hvalue ▸ hdefined)
      rwa [hvalue] at hholds
  · rw [Piece.covers_iff] at hcovers
    have hbegun : HasBegun u position piece := by
      refine ⟨?_, by grind⟩
      obtain hstart | ⟨head, hown⟩ := hsound.first_or_second hpiece
      · by_cases harg : piece.value ∈ u.arguments
        · exact .inr ⟨harg, hcovers.1⟩
        · obtain ⟨definition, -, hle, hlt⟩ := hu.exists_definition hneeds harg hdefined
          exact .inl (by grind)
      · have hne : piece.start ≠ position := fun heq => hsecond ⟨head, hown, heq⟩
        exact .inl (by grind)
    rw [← hbefore.registers piece hpiece hneeds hbegun hdefined]
    refine hrec.map_run_kept hsound hpiece (Piece.covers_iff.mpr hcovers)
      (fun head hown hstart => ?_) (fun copy hmem hposition htarget => ?_) _ _
    · exact hsecond ⟨head, hown, hstart⟩
    · exact absurd htarget (hcopy copy hmem hposition)

/-- What the moves of a position do is what its copies do. -/
theorem Holds.move {position : Position}
    (hbefore : HoldsBefore u allocation.pieces load position env contents) :
    HoldsAt u allocation.pieces load position (u.runCopies env position)
      (Contents.run load contents (scheduledAt allocation.moveSets position)) := by
  constructor
  · intro piece hpiece hneeds hcovers hdefined
    rw [CodeUnit.slots, CodeUnit.runCopies]
    cases hcopied : u.copyAt? position piece.value with
    | some copy =>
      obtain ⟨hcopy, rfl, htarget⟩ := CodeUnit.copyAt?_eq_some hcopied
      exact map_run_copied hu hrec hsound hcopy hbefore hpiece htarget.symm hcovers
    | none =>
      have hnone := CodeUnit.copyAt?_eq_none hcopied
      refine map_run_defined hu hrec hsound hbefore hpiece hcovers hneeds ?_ hnone
      refine hdefined.resolve_right ?_
      rintro ⟨copy, hcopy, htarget, hposition⟩
      exact hnone copy hcopy hposition htarget
  · intro v constant hconstant hdefined
    -- the target of a copy is not a constant
    have hnone : ∀ copy ∈ u.copies, copy.target ≠ v := by
      rintro copy hcopy rfl
      rw [hu.targetsComputed copy hcopy] at hconstant
      cases hconstant
    rw [CodeUnit.runCopies]
    cases hcopied : u.copyAt? position v with
    | some copy =>
      obtain ⟨hcopy, -, htarget⟩ := CodeUnit.copyAt?_eq_some hcopied
      exact absurd htarget (hnone copy hcopy)
    | none =>
      refine hbefore.constants v constant hconstant (hdefined.resolve_right ?_)
      rintro ⟨copy, hcopy, htarget, -⟩
      exact hnone copy hcopy htarget

end Moves

section Instructions

variable {u : CodeUnit} {config : Config} {allocation : Allocation} {scanned table : MoveTable}
  {semantics : Semantics α} {env : Environment α} {contents : Contents α} {position : Position}
  (hu : u.Executable config) (hrec : Recorded u config allocation scanned table)
  (hsound : Sound u config allocation.pieces scanned)

include hsound in
/-- A value is in a piece wherever it is live. -/
theorem exists_placement {v : ValueId} (hv : v ∈ u.values)
    (hneeds : u.pool.needsRegister v = .ok true) (hlive : (u.value v).liveAt position = true) :
    ∃ piece ∈ allocation.pieces, piece.value = v ∧ piece.covers position = true ∧
      (Allocator.holding config allocation).placement u v position = .ok piece.register := by
  obtain ⟨piece, hpiece, rfl⟩ := hsound.covered v hv hneeds
  obtain ⟨register, hregister⟩ := (hsound.layout piece hpiece).exists_registerAt? hlive
  obtain ⟨found, hfound, hvalue, hcovers, rfl⟩ := Piece.exists_of_registerAt? hregister
  exact ⟨found, hfound, hvalue, hcovers, Allocator.placement_eq hregister⟩

include hu in
/-- What has to be shown of registers that an instruction leaves behind. -/
theorem Holds.after {next : Contents α} {slots : Nat → α}
    (hholds : HoldsAt u allocation.pieces semantics.load position env contents)
    {i : InstrId} (hi : i ∈ u.instrs) (hposition : (u.instr i).number = position)
    (hslots : (u.instr i).opcode = .const → slots = semantics.load (some ⟨i, (u.instr i).literal⟩))
    (hkept : ∀ piece ∈ allocation.pieces, u.pool.needsRegister piece.value = .ok true →
      piece.covers position = true → (u.instr i).out ≠ some piece.value →
      ((u.value piece.value).type.footprint piece.register).map next =
        ((u.value piece.value).type.footprint piece.register).map contents)
    (hwritten : ∀ piece ∈ allocation.pieces, u.pool.needsRegister piece.value = .ok true →
      piece.covers position = true → (u.instr i).out = some piece.value →
      ((u.value piece.value).type.footprint piece.register).map next =
        (u.value piece.value).type.halves.map slots) :
    HoldsAfter u allocation.pieces semantics.load position (u.setOutput env i slots) next := by
  have hdefined : ∀ {v}, (u.instr i).out ≠ some v → (u.DefinedAt v position ∨
      ∃ j ∈ u.instrs, (u.instr j).number = position ∧ (u.instr j).out = some v) →
      u.DefinedAt v position := by
    rintro v hne (hdefined | ⟨j, hj, hnumber, hout⟩)
    · exact hdefined
    · obtain rfl := hu.instr_unique hj hi (hnumber.trans hposition.symm)
      exact absurd hout hne
  constructor
  · intro piece hpiece hneeds hcovers hafter
    rw [CodeUnit.slots]
    by_cases hout : (u.instr i).out = some piece.value
    · rw [CodeUnit.setOutput_of_eq hout]
      exact hwritten piece hpiece hneeds hcovers hout
    · rw [CodeUnit.setOutput_of_ne hout, hkept piece hpiece hneeds hcovers hout]
      exact hholds.registers piece hpiece hneeds hcovers (hdefined hout hafter)
  · intro v constant hconstant hafter
    by_cases hout : (u.instr i).out = some v
    · obtain ⟨hconst, rfl⟩ := hu.constant_of_output hi hout hconstant
      rw [CodeUnit.setOutput_of_eq hout]
      exact hslots hconst
    · rw [CodeUnit.setOutput_of_ne hout]
      exact hholds.constants v constant hconstant (hdefined hout hafter)

include hu hrec hsound

/-- An instruction finds its inputs. -/
theorem readInput_eq (hholds : HoldsAt u allocation.pieces semantics.load position env contents)
    {i : InstrId} (hi : i ∈ u.instrs) (hposition : (u.instr i).number = position) {v : ValueId}
    (hv : v ∈ (u.instr i).inputs) :
    (Allocator.holding config allocation).readInput u semantics contents position v =
      .ok (u.slots env v) := by
  subst hposition
  have hmem := hu.wellFormed.inputs i hi v hv
  have hdefined := hu.inputsDefined i hi v hv
  obtain ⟨needs, hneeds⟩ := (Allocation.checkIntervals_iff.mp hrec.intervals v hmem).1
  rw [Allocator.readInput, hneeds]
  cases needs with
  | true =>
    obtain ⟨piece, hpiece, rfl, hcovers, hplacement⟩ :=
      exists_placement hsound hmem hneeds (hu.inputsLive i hi v hv hneeds)
    rw [← hholds.registers piece hpiece hneeds hcovers hdefined]
    simp only [bind, Except.bind, if_true, hplacement]
    rfl
  | false =>
    obtain ⟨constant, hconstant⟩ := Pool.exists_constant hneeds
    rw [CodeUnit.slots, hholds.constants v constant hconstant hdefined, hconstant]
    rfl

/-- An instruction leaves its output where it belongs, and everything else as it is. -/
theorem Holds.write (hholds : HoldsAt u allocation.pieces semantics.load position env contents)
    {i : InstrId} (hi : i ∈ u.instrs) (hposition : (u.instr i).number = position) {slots : Nat → α}
    (hslots : (u.instr i).opcode = .const →
      slots = semantics.load (some ⟨i, (u.instr i).literal⟩)) :
    ∃ next, (Allocator.holding config allocation).writeOutput u contents position slots
        (u.instr i).out = .ok next ∧
      HoldsAfter u allocation.pieces semantics.load position (u.setOutput env i slots) next := by
  cases hout : (u.instr i).out with
  | none =>
    refine ⟨contents, rfl, hholds.after hu hi hposition hslots (fun _ _ _ _ _ => rfl) ?_⟩
    intro piece _ _ _ hsome
    rw [hout] at hsome
    cases hsome
  | some w =>
    have hmem := (hu.outputs i hi w hout).1
    obtain ⟨needs, hneeds⟩ := (Allocation.checkIntervals_iff.mp hrec.intervals w hmem).1
    cases needs with
    | false =>
      refine ⟨contents, ?_, hholds.after hu hi hposition hslots (fun _ _ _ _ _ => rfl) ?_⟩
      · rw [Allocator.writeOutput, hneeds]
        rfl
      · intro piece _ hneeds' _ hsome
        obtain rfl : w = piece.value := Option.some.inj (hout.symm.trans hsome)
        rw [hneeds] at hneeds'
        cases hneeds'
    | true =>
      obtain ⟨target, htarget, rfl, hcovers, hplacement⟩ :=
        exists_placement hsound hmem hneeds (hposition ▸ hu.outputsLive i hi w hout hneeds)
      refine ⟨contents.put (u.value target.value).type target.register slots, ?_,
        hholds.after hu hi hposition hslots ?_ ?_⟩
      · rw [Allocator.writeOutput, hneeds]
        simp only [bind, Except.bind, if_true, hplacement]
        rfl
      · -- all other live values are in other slots
        intro piece hpiece hneeds' hcovers' hne
        refine List.map_congr_left fun slot hslot => Contents.put_of_not_mem _ _ _ _ ?_
        have hapart := (hsound.apart piece hpiece target htarget).resolve_left
          fun heq => hne (heq ▸ hout)
        have hmeet := Piece.footprintsMeet_of_apart hapart (hsound.fits piece hpiece)
          (hsound.fits target htarget) hcovers' hcovers
        exact MoveType.footprintsMeet_eq_false_iff.mp hmeet slot hslot
      · intro piece hpiece hneeds' hcovers' hsome
        have hvalue : target.value = piece.value := Option.some.inj (hout.symm.trans hsome)
        have heq := (hsound.layout piece hpiece).eq_of_covers
          (Piece.mem_ofValue.mpr ⟨hpiece, rfl⟩) (Piece.mem_ofValue.mpr ⟨htarget, hvalue⟩)
          hcovers' hcovers
        rw [heq]
        exact Contents.map_put _ _ _ _

/-- Both runs make the same step. -/
theorem step_spec (hbefore : HoldsBefore u allocation.pieces semantics.load position env contents) :
    ∃ next, (Allocator.holding config allocation).step u semantics contents position =
        .ok (next, (u.step semantics env position).2) ∧
      HoldsAfter u allocation.pieces semantics.load position (u.step semantics env position).1
        next := by
  have hmoved := hbefore.move hu hrec hsound
  rw [Allocator.step, Allocator.scheduledMoves_eq, CodeUnit.step]
  cases hinstr : u.instrAt? position with
  | none =>
    have hnone := CodeUnit.instrAt?_eq_none hinstr
    refine ⟨_, rfl, hmoved.mono (fun piece _ _ hcovers _ => hcovers) fun v hdefined => ?_⟩
    refine hdefined.resolve_right ?_
    rintro ⟨i, hi, hnumber, -⟩
    exact hnone i hi hnumber
  | some i =>
    obtain ⟨hi, hposition⟩ := CodeUnit.instrAt?_eq_some hinstr
    have hinputs := mapM_eq_ok fun v hv => readInput_eq hu hrec hsound hmoved hi hposition hv
    have hresult : ∀ inputs, (u.instr i).opcode = .const → u.result semantics i inputs =
        semantics.load (some ⟨i, (u.instr i).literal⟩) := fun inputs hconst => if_pos hconst
    obtain ⟨next, hnext, hafter⟩ := hmoved.write hu hrec hsound hi hposition (hresult _)
    refine ⟨next, ?_, hafter⟩
    simp only [bind, Except.bind, hinputs, hnext]
    rfl

end Instructions

section Runs

variable {u : CodeUnit} {config : Config} {allocation : Allocation} {scanned table : MoveTable}
  {semantics : Semantics α} {env : Environment α} {contents : Contents α}
  {positions : List Position}
  (hu : u.Executable config) (hrec : Recorded u config allocation scanned table)
  (hsound : Sound u config allocation.pieces scanned)
  (htimeline : (Allocator.holding config allocation).Timeline u positions)
include hu hrec hsound htimeline

/-- Nothing happens between two positions of the run, so that what holds after the one holds before
the other. -/
theorem Holds.advance {position next : Position} (hmem : position ∈ positions)
    (hlt : position < next) (hbetween : ∀ other ∈ positions, other < next → other ≤ position)
    (hafter : HoldsAfter u allocation.pieces semantics.load position env contents) :
    HoldsBefore u allocation.pieces semantics.load next env contents := by
  refine hafter.mono (fun piece hpiece hneeds hbegun hdefined => ?_) fun v hdefined => ?_
  · have hstart : piece.start ≤ position := by
      obtain hfirst | ⟨head, hown⟩ := hsound.first_or_second hpiece
      · by_cases harg : piece.value ∈ u.arguments
        · rw [hfirst]
          exact htimeline.arguments piece.value harg position hmem
        · obtain ⟨definition, hacts, hle, hbefore⟩ := hu.exists_definition hneeds harg hdefined
          rw [hfirst]
          exact Int64.le_trans hle (hbetween _ (htimeline.acts _ hacts) hbefore)
      · have harg : piece.value ∉ u.arguments := by
          intro harg
          obtain ⟨register, hone⟩ := hsound.arguments piece.value harg
          rw [hown] at hone
          cases hone
        have hlisted := htimeline.moves _ rfl _ (hrec.listed _ _ (hrec.mem_of_pair hsound hown))
        exact hbetween _ hlisted (hbegun.1.resolve_right fun h => harg h.1)
    rw [Piece.covers_iff]
    exact ⟨hstart, Int64.lt_of_lt_of_le hlt hbegun.2⟩
  · obtain hargument | ⟨i, hi, hout, hbefore⟩ | ⟨copy, hcopy, htarget, hbefore⟩ := hdefined
    · exact .inl (.inl (.inl hargument))
    · have hle := hbetween _ (htimeline.acts _ (.inl ⟨i, hi, rfl⟩)) hbefore
      by_cases heq : (u.instr i).number = position
      · exact .inr ⟨i, hi, heq, hout⟩
      · exact .inl (.inl (.inr (.inl ⟨i, hi, hout, by grind⟩)))
    · have hle := hbetween _ (htimeline.acts _ (.inr ⟨copy, hcopy, rfl⟩)) hbefore
      by_cases heq : copy.position = position
      · exact .inl (.inr ⟨copy, hcopy, htarget, heq⟩)
      · exact .inl (.inl (.inr (.inr ⟨copy, hcopy, htarget, by grind⟩)))

/-- Arguments that start in their registers are there before the first position. -/
theorem holdsBefore_first {first : Position} {rest : List Position}
    (heq : positions = first :: rest)
    (hinitial : ∀ v ∈ u.arguments, ∀ register,
      (Allocator.holding config allocation).placement u v (u.value v).start = .ok register →
      ((u.value v).type.footprint register).map contents = u.slots env v) :
    HoldsBefore u allocation.pieces semantics.load first env contents := by
  have hnone : ∀ position ∈ positions, ¬ position < first := by
    have hascending := htimeline.ascending
    rw [heq, List.pairwise_cons] at hascending
    intro position hmem hlt
    rw [heq] at hmem
    obtain rfl | hmem := List.mem_cons.mp hmem
    · exact Int64.lt_irrefl hlt
    · have hafter := hascending.1 position hmem
      grind
  have hargument : ∀ {v}, u.DefinedBefore v first → v ∈ u.arguments ∧
      u.pool.constant? v = none := by
    rintro v (hargument | ⟨i, hi, -, hlt⟩ | ⟨copy, hcopy, -, hlt⟩)
    · exact hargument
    · exact absurd hlt (hnone _ (htimeline.acts _ (.inl ⟨i, hi, rfl⟩)))
    · exact absurd hlt (hnone _ (htimeline.acts _ (.inr ⟨copy, hcopy, rfl⟩)))
  constructor
  · intro piece hpiece hneeds _ hdefined
    obtain ⟨hv, -⟩ := hargument hdefined
    obtain ⟨register, hown⟩ := hsound.arguments piece.value hv
    have hwhole : piece = ⟨piece.value, (u.value piece.value).start, (u.value piece.value).stop,
        register⟩ := by
      rw [← List.mem_singleton, ← hown]
      exact Piece.mem_ofValue.mpr ⟨hpiece, rfl⟩
    have hinterval := (Allocation.checkIntervals_iff.mp hrec.intervals piece.value
      (hu.wellFormed.arguments _ hv)).2 hneeds
    have hcovers : piece.covers (u.value piece.value).start = true := by
      rw [Piece.covers_iff, congrArg Piece.start hwhole, congrArg Piece.stop hwhole]
      exact ⟨Int64.le_refl _, by simpa [Value.hasInterval] using hinterval⟩
    exact hinitial piece.value hv piece.register (Allocator.placement_eq
      (Piece.registerAt?_eq (hsound.layout piece hpiece) hpiece hcovers))
  · intro v constant hconstant hdefined
    rw [(hargument hdefined).2] at hconstant
    cases hconstant

/-- The runs go on alike over the positions that are left. -/
theorem execute_of_holdsBefore {left : List Position} (hascending : left.Pairwise (· < ·))
    (hleft : ∀ position ∈ left, position ∈ positions)
    (hdone : ∀ position ∈ positions, position ∈ left ∨ ∀ other ∈ left, position < other)
    (hbefore : ∀ first ∈ left.head?,
      HoldsBefore u allocation.pieces semantics.load first env contents) :
    (Allocator.holding config allocation).execute u semantics contents left =
      .ok (u.execute semantics env left) := by
  induction left generalizing env contents with
  | nil => rfl
  | cons position left ih =>
    obtain ⟨hlt, hascending⟩ := List.pairwise_cons.mp hascending
    obtain ⟨next, hstep, hafter⟩ := step_spec hu hrec hsound (hbefore position rfl)
    have hdone' : ∀ other ∈ positions, other ∈ left ∨ ∀ later ∈ left, other < later := by
      intro other hother
      obtain hother | hother := hdone other hother
      · obtain rfl | hother := List.mem_cons.mp hother
        · exact .inr hlt
        · exact .inl hother
      · exact .inr fun later hlater => hother later (List.mem_cons_of_mem _ hlater)
    have hnext : ∀ second ∈ left.head?, HoldsBefore u allocation.pieces semantics.load second
        (u.step semantics env position).1 next := by
      intro second hsecond
      obtain ⟨left, rfl⟩ := List.head?_eq_some_iff.mp hsecond
      refine hafter.advance hu hrec hsound htimeline (hleft position List.mem_cons_self)
        (hlt second List.mem_cons_self) fun other hother hless => ?_
      obtain hother | hother := hdone other hother
      · obtain rfl | hother := List.mem_cons.mp hother
        · exact Int64.le_refl _
        · obtain rfl | hother := List.mem_cons.mp hother
          · exact (Int64.lt_irrefl hless).elim
          · have hlater := (List.pairwise_cons.mp hascending).1 other hother
            grind
      · exact Int64.le_of_lt (hother position List.mem_cons_self)
    have hrun := ih hascending (fun other hother => hleft other (List.mem_cons_of_mem _ hother))
      hdone' hnext
    rw [Allocator.execute, hstep]
    simp only [bind, Except.bind, hrun]
    rfl

end Runs

end Allocation

namespace Allocator

/-- **Allocation preserves meaning.** If the arguments start in their registers, then a run on
registers goes through, and every instruction reads there what it reads in the run on values. -/
theorem execute_eq {allocator next : Allocator} {u : CodeUnit}
    (hu : u.Executable allocator.config)
    (hregisters : 0 ≤ allocator.config.registers) (hrun : allocator.run u = (next, none))
    {positions : List Position} (htimeline : next.Timeline u positions) (semantics : Semantics α)
    (env : Environment α) (contents : Contents α)
    (hinitial : ∀ v ∈ u.arguments, ∀ register,
      next.placement u v (u.value v).start = .ok register →
      ((u.value v).type.footprint register).map contents = u.slots env v) :
    next.execute u semantics contents positions = .ok (u.execute semantics env positions) := by
  obtain ⟨allocation, hallocate, rfl⟩ := run_eq_none hrun
  obtain ⟨scanned, table, hrecorded⟩ := Allocation.recorded_of_allocate hregisters hallocate
  -- no interval ends where an argument starts, because arguments start first
  have hends : ∀ position, u.EndsAt position → ¬ u.FlipsAt position := by
    rintro position ⟨v, hv, hinterval, hstop⟩ ⟨w, hw, -, hstart⟩
    have hfirst := hu.argumentsFirst w hw v hv
    grind
  have hsound := hrecorded.sound hu.wellFormed hends
  refine Allocation.execute_of_holdsBefore hu hrecorded hsound htimeline htimeline.ascending
    (fun position hposition => hposition) (fun position hposition => .inl hposition)
    fun first hfirst => ?_
  obtain ⟨rest, hpositions⟩ := List.head?_eq_some_iff.mp hfirst
  exact Allocation.holdsBefore_first hu hrecorded hsound htimeline hpositions hinitial

/-- The constant `k` stands in the first sum, `x` gives way to `y` at 3, and `z` takes over from `y`
at 6. -/
def relay : CodeUnit where
  name := "relay"
  pool := {
    values := #[
      { number := 0, name := "a", type := .single, stop := 8, isArgument := true,
        uses := [1, 2, 3] },
      { number := 1, name := "k", type := .single, definition := some 0, uses := [1] },
      { number := 2, name := "x", type := .single, start := 2, stop := 9, definition := some 1,
        uses := [2, 3] },
      { number := 3, name := "y", type := .single, start := 3, stop := 6, definition := some 2 },
      { number := 4, name := "z", type := .single, start := 6, stop := 8, uses := [3] }]
    instrs := #[
      { number := 1, opcode := .const, literal := some (.int 7), out := some 1 },
      { number := 2, opcode := .add, numeric := some .int, out := some 2, inputs := [0, 1] },
      { number := 3, opcode := .add, numeric := some .int, out := some 3, inputs := [2, 0] },
      { number := 7, opcode := .invoke, method := "m", inputs := [4, 2, 0] }] }
  arguments := [0]
  instrs := [0, 1, 2, 3]
  values := [0, 1, 2, 3, 4]
  copies := [⟨6, 3, 4⟩]

/-- Every constant is 7, and everything else is a sum. -/
def sums : Semantics Nat where
  load _ _ := 7
  compute _ inputs _ := inputs.flatten.sum

theorem execute_eq_relay : relay.Executable { registers := 2, maxRegisters := 12 } ∧
    ∃ next : Allocator,
    ({ config := { registers := 2, maxRegisters := 12 } } : Allocator).run relay = (next, none) ∧
    next.Timeline relay [1, 2, 3, 6, 7] ∧ next.placement relay 0 0 = .ok 0 ∧
    next.execute relay sums (fun register => if register = 0 then 5 else 0) [1, 2, 3, 6, 7] =
      .ok (relay.execute sums (fun v _ => if v = 0 then 5 else 1) [1, 2, 3, 6, 7]) := by
  have hu : relay.Executable { registers := 2, maxRegisters := 12 } := ⟨by decide, by decide,
    by decide, by decide, by decide, by decide, by decide, by decide, by decide, by decide⟩
  have hnone : (({ config := { registers := 2, maxRegisters := 12 } } : Allocator).run
      relay).2 = none := by decide +kernel
  have hmoves : (({ config := { registers := 2, maxRegisters := 12 } } : Allocator).run
      relay).1.movePositions relay = .ok [3] := by decide +kernel
  have hplacement : (({ config := { registers := 2, maxRegisters := 12 } } : Allocator).run
      relay).1.placement relay 0 0 = .ok 0 := by decide +kernel
  have htimeline : (({ config := { registers := 2, maxRegisters := 12 } } : Allocator).run
      relay).1.Timeline relay [1, 2, 3, 6, 7] := by
    refine ⟨by decide, ?_, fun moving hmoving => ?_, ?_⟩
    · rintro position (⟨i, hi, rfl⟩ | ⟨copy, hcopy, rfl⟩)
      · exact (by decide : ∀ i ∈ relay.instrs, (relay.instr i).number ∈ [1, 2, 3, 6, 7]) i hi
      · exact (by decide : ∀ copy ∈ relay.copies, copy.position ∈ [1, 2, 3, 6, 7]) copy hcopy
    · obtain rfl := Except.ok.inj (hmoves.symm.trans hmoving)
      simp
    · simp only [relay, List.forall_mem_cons, List.mem_singleton, forall_eq]
      decide
  refine ⟨hu, _, Prod.ext rfl hnone, htimeline, hplacement, ?_⟩
  refine execute_eq hu (by decide) (Prod.ext rfl hnone) htimeline sums _ _ ?_
  intro v hv register hregister
  obtain rfl : v = 0 := List.mem_singleton.mp hv
  obtain rfl := Except.ok.inj (hplacement.symm.trans hregister)
  rfl

end Allocator
end RegisterAllocation
