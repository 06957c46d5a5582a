import RegisterAllocation.Proofs.Footprint
import RegisterAllocation.Move.RegisterFile
import Mathlib.Data.List.Induction
import Mathlib.Logic.Function.Basic

/-!
# What moves do to the contents of registers

The meaning of moves for contents of any type: `Contents.run` carries them out one after another,
`Contents.runParallel` all at once. A register file is the special case in which contents tell where
they come from (`RegisterFile.get_run`, `RegisterFile.get_runParallel`), so what is proved here
holds of it too.

Everything later proofs need to know about a single move is that it leaves other slots alone
(`Contents.write_of_not_mem`) and fills its own (`Contents.map_written_write`). For moves that write
different slots the parallel run is given by the same two facts.
-/

namespace RegisterAllocation

/-- The contents of all slots. -/
abbrev Contents (α : Type) := Register → α

/-- The numbers of the slots of a value. -/
def MoveType.halves : MoveType → List Nat
  | .wide => [0, 1]
  | _ => [0]

theorem MoveType.halves_congr {type type' : MoveType} (h : type.width = type'.width) :
    type.halves = type'.halves := by
  cases type <;> cases type' <;> first | rfl | exact absurd h (by decide)

theorem MoveType.head?_map_halves {α : Type} (type : MoveType) (f : Nat → α) :
    (type.halves.map f).head? = some (f 0) := by
  cases type <;> rfl

namespace Contents

variable {α : Type}

/-- What a move reads when the slots hold `before`. The slots of a constant are given by `load`. -/
def read (load : Option Constant → Nat → α) (before : Contents α) (move : Move) : List α :=
  match move.source with
  | .register register => (move.type.footprint register).map before
  | .constant constant => move.type.halves.map (load (some constant))
  | .missing => move.type.halves.map (load none)

/-- Writes what a move reads in `before` into the slots that hold `after`. -/
def write (load : Option Constant → Nat → α) (before after : Contents α) (move : Move) :
    Contents α :=
  (move.written.zip (read load before move)).foldl
    (fun contents (slot, content) => Function.update contents slot content) after

def run (load : Option Constant → Nat → α) (before : Contents α) (moves : List Move) :
    Contents α :=
  moves.foldl (fun contents move => write load contents contents move) before

/-- Runs moves in parallel: all of them read what was there `before`. -/
def runParallel (load : Option Constant → Nat → α) (before : Contents α) (moves : List Move) :
    Contents α :=
  moves.foldl (fun after move => write load before after move) before

variable (load : Option Constant → Nat → α)

/-! ## One move -/

/-- A slot that is not written keeps its content. -/
theorem write_of_not_mem (before after : Contents α) {move : Move} {slot : Register}
    (h : slot ∉ move.written) : write load before after move slot = after slot := by
  obtain ⟨first, second⟩ : slot ≠ move.target ∧ ¬(move.type = .wide ∧ slot = move.target + 1) := by
    rw [← not_or, ← Move.mem_written]
    exact h
  unfold write read Move.written
  cases hs : move.source <;> cases ht : move.type <;>
    simp_all [MoveType.footprint, MoveType.halves, Function.update]

/-- A move leaves in its slots what it has read. -/
theorem map_written_write (before after : Contents α) (move : Move) :
    move.written.map (write load before after move) = read load before move := by
  have hne : move.target + 1 ≠ move.target := by grind
  unfold write read Move.written
  cases hs : move.source <;> cases ht : move.type <;>
    simp [MoveType.footprint, MoveType.halves, Function.update, hne.symm]

/-! ## Sequences of moves -/

/-- Running one more move at the end. -/
theorem run_concat (before : Contents α) (moves : List Move) (move : Move) :
    run load before (moves ++ [move]) =
      write load (run load before moves) (run load before moves) move := by
  simp [run]

/-- A slot that no move writes keeps its content. -/
theorem run_of_not_mem (before : Contents α) {moves : List Move} {slot : Register}
    (h : ∀ move ∈ moves, slot ∉ move.written) : run load before moves slot = before slot := by
  induction moves using List.reverseRecOn with
  | nil => rfl
  | append_singleton moves move ih =>
    rw [run_concat, write_of_not_mem load _ _ (h move (by simp))]
    exact ih fun other hother => h other (by simp [hother])

/-! ## Parallel runs -/

/-- Of moves at the same time, the last one writes last and reads what was there before. -/
theorem runParallel_concat (before : Contents α) (moves : List Move) (move : Move) :
    runParallel load before (moves ++ [move]) =
      write load before (runParallel load before moves) move := by
  simp [runParallel]

/-- A slot that none of the moves at the same time writes keeps its content. -/
theorem runParallel_of_not_mem (before : Contents α) {moves : List Move} {slot : Register}
    (h : ∀ move ∈ moves, slot ∉ move.written) :
    runParallel load before moves slot = before slot := by
  induction moves using List.reverseRecOn with
  | nil => rfl
  | append_singleton moves move ih =>
    rw [runParallel_concat, write_of_not_mem load _ _ (h move (by simp))]
    exact ih fun other hother => h other (by simp [hother])

end Contents

/-- Different moves of a list write different slots. -/
def Move.Compatible (moves : List Move) : Prop :=
  ∀ move ∈ moves, ∀ other ∈ moves, move ≠ other → ∀ slot ∈ move.written, slot ∉ other.written

/-- Some of the moves that do not get in each other's way do not either. -/
theorem Move.Compatible.of_subset {moves moves' : List Move} (h : Move.Compatible moves')
    (hsub : moves ⊆ moves') : Move.Compatible moves :=
  fun move hmove other hother => h move (hsub hmove) other (hsub hother)

namespace Contents

variable {α : Type} (load : Option Constant → Nat → α)

/-- In a parallel run of compatible moves every move arrives. -/
theorem map_written_runParallel (before : Contents α) {moves : List Move}
    (hc : Move.Compatible moves) {move : Move} (hmove : move ∈ moves) :
    move.written.map (runParallel load before moves) = read load before move := by
  induction moves using List.reverseRecOn with
  | nil => simp at hmove
  | append_singleton moves last ih =>
    rw [runParallel_concat]
    by_cases heq : move = last
    · rw [heq, map_written_write]
    · have hmem : move ∈ moves := by simpa [heq] using hmove
      rw [← ih (hc.of_subset (by simp)) hmem]
      refine List.map_congr_left fun slot hslot => ?_
      exact write_of_not_mem load _ _ (hc move hmove last (by simp) heq slot hslot)

/-- Contents that agree with what compatible moves do, slot by slot, are those of the parallel
run. -/
theorem eq_runParallel (before after : Contents α) {moves : List Move}
    (hc : Move.Compatible moves) {slot : Register}
    (harrived : ∀ move ∈ moves, slot ∈ move.written →
      move.written.map after = read load before move)
    (hkept : (∀ move ∈ moves, slot ∉ move.written) → after slot = before slot) :
    after slot = runParallel load before moves slot := by
  by_cases h : ∃ move ∈ moves, slot ∈ move.written
  · obtain ⟨move, hmove, hslot⟩ := h
    have heq : move.written.map after = move.written.map (runParallel load before moves) := by
      rw [harrived move hmove hslot, map_written_runParallel load before hc hmove]
    exact List.map_inj_left.mp heq slot hslot
  · have hnone : ∀ move ∈ moves, slot ∉ move.written := fun move hmove hslot =>
      h ⟨move, hmove, hslot⟩
    rw [hkept hnone, runParallel_of_not_mem load before hnone]

end Contents

/-! ## Register files -/

namespace RegisterFile

/-- A slot that is set changes, and no other. -/
theorem get_set (file : RegisterFile) (slot : Register) (content : Content) :
    (file.set slot content).get = Function.update file.get slot content := by
  funext other
  by_cases h : other = slot
  · simp [get, set, h]
  · have hne : (other == slot) = false := by simp [h]
    simp [get, set, h, hne, List.lookup_cons]

/-- A register file reads as contents do. -/
theorem read_eq (file : RegisterFile) (move : Move) :
    file.read move = Contents.read Content.constant file.get move := by
  unfold read Contents.read Move.slotsRead
  cases move.source <;> cases move.type <;> rfl

/-- A register file writes as contents do. -/
theorem get_write (file after : RegisterFile) (move : Move) :
    (after.write move (file.read move)).get
      = Contents.write Content.constant file.get after.get move := by
  rw [read_eq, write, Contents.write]
  generalize move.written.zip (Contents.read Content.constant file.get move) = entries
  induction entries generalizing after with
  | nil => rfl
  | cons entry entries ih => rw [List.foldl_cons, List.foldl_cons, ih, get_set]

/-- A run on a register file is a run on its contents. -/
theorem get_run (file : RegisterFile) (moves : List Move) :
    (file.run moves).get = Contents.run Content.constant file.get moves := by
  induction moves generalizing file with
  | nil => rfl
  | cons move moves ih =>
    have hstep : (file.run (move :: moves))
        = RegisterFile.run (file.write move (file.read move)) moves := rfl
    rw [hstep, ih, get_write]
    rfl

/-- Moves at the same time act on a register file as they act on its contents. -/
theorem get_runParallel (file : RegisterFile) (moves : List Move) :
    (file.runParallel moves).get = Contents.runParallel Content.constant file.get moves := by
  induction moves using List.reverseRecOn with
  | nil => rfl
  | append_singleton moves move ih =>
    have hstep : file.runParallel (moves ++ [move])
        = (file.runParallel moves).write move (file.read move) := by simp [runParallel]
    rw [hstep, get_write, ih, Contents.runParallel_concat]

end RegisterFile
end RegisterAllocation
