import RegisterAllocation.Proofs.Contents

/-!
# Comparing a schedule with its moves

A schedule is compared with its moves in one run of each, on slots whose contents tell where they
come from. That run stands for all others: whatever the slots hold, and whatever the constants are,
the same slots end up with contents from the same places (`Contents.run_comp`,
`Contents.runParallel_comp`). Slots that are not looked at cannot differ, since nothing writes them.
So the comparison is exact (`Move.passes_iff_run_eq_runParallel`).
-/

namespace RegisterAllocation

namespace WordSet

/-- A member that is inserted is there, and no other gets lost. -/
theorem mem_insertMember {x y : Int64} {xs : List Int64} :
    y ∈ insertMember x xs ↔ y = x ∨ y ∈ xs := by
  fun_induction insertMember x xs with
  | case1 => simp
  | case2 z zs hlt => simp
  | case3 zs hlt => simp
  | case4 z zs hlt hne ih => rw [List.mem_cons, ih, List.mem_cons, or_left_comm]

/-- Members that are inserted one after another are there. -/
theorem mem_insertAll {y : Int64} {xs : List Int64} {set : WordSet} :
    y ∈ (set.insertAll xs).members ↔ y ∈ set.members ∨ y ∈ xs := by
  induction xs generalizing set with
  | nil => simp [insertAll]
  | cons x xs ih =>
    have hstep : set.insertAll (x :: xs) = (set.insert x).insertAll xs := rfl
    rw [hstep, ih, insert, mem_insertMember, List.mem_cons, or_comm (a := y = x), or_assoc]

/-- A set has the members of the list. -/
theorem mem_ofList {y : Int64} {xs : List Int64} : y ∈ (ofList xs).members ↔ y ∈ xs := by
  rw [ofList, mem_insertAll]
  simp [empty]

/-- The common members of two sets. -/
theorem mem_inter {y : Int64} {set other : WordSet} :
    y ∈ (set.inter other).members ↔ y ∈ set.members ∧ y ∈ other.members := by
  simp [inter, contains]

end WordSet

namespace Contents

variable {α β : Type} (load : Option Constant → Nat → α) (before after : Contents α)

/-! ## Other contents -/

section Comp

variable (f : α → β)

/-- Changing contents before or after they are read makes no difference. -/
theorem read_comp (move : Move) :
    read (fun constant half => f (load constant half)) (f ∘ before) move =
      (read load before move).map f := by
  unfold read
  cases move.source <;> simp

/-- Changing contents before or after they are written makes no difference. -/
theorem write_comp (move : Move) :
    write (fun constant half => f (load constant half)) (f ∘ before) (f ∘ after) move =
      f ∘ write load before after move := by
  rw [write, write, read_comp]
  generalize read load before move = contents
  generalize move.written = slots
  induction slots generalizing contents after with
  | nil => rfl
  | cons slot slots ih =>
    cases contents with
    | nil => rfl
    | cons content contents =>
      have hupdate : Function.update (f ∘ after) slot (f content) =
          f ∘ Function.update after slot content := (Function.comp_update f after slot content).symm
      simp only [List.map_cons, List.zip_cons_cons, List.foldl_cons, hupdate]
      exact ih _ _

/-- Moves do not look at what they move. -/
theorem run_comp (moves : List Move) :
    run (fun constant half => f (load constant half)) (f ∘ before) moves =
      f ∘ run load before moves := by
  induction moves using List.reverseRecOn with
  | nil => rfl
  | append_singleton moves move ih => rw [run_concat, run_concat, ih, write_comp]

/-- Changing contents before or after moves at the same time makes no difference. -/
theorem runParallel_comp (moves : List Move) :
    runParallel (fun constant half => f (load constant half)) (f ∘ before) moves =
      f ∘ runParallel load before moves := by
  induction moves using List.reverseRecOn with
  | nil => rfl
  | append_singleton moves move ih =>
    rw [runParallel_concat, runParallel_concat, ih, write_comp]

end Comp

end Contents

/-- What the contents that tell where they come from stand for, when the slots held `before` and the
slots of constants are given by `load`. Texts do not come from anywhere. -/
def Content.meaning {α : Type} (load : Option Constant → Nat → α) (before : Contents α) :
    Content → α
  | .initial register => before register
  | .constant known half => load known half
  | .named _ => before 0

namespace RegisterFile

variable {α : Type} (load : Option Constant → Nat → α) (before : Contents α) (moves : List Move)

/-- Running moves from the initial contents tells what they do to any others. -/
theorem run_eq_meaning :
    Contents.run load before moves =
      Content.meaning load before ∘ (RegisterFile.initial.run moves).get := by
  rw [get_run, ← Contents.run_comp]
  rfl

/-- Moves at the same time leave what their symbolic run says. -/
theorem runParallel_eq_meaning :
    Contents.runParallel load before moves =
      Content.meaning load before ∘ (RegisterFile.initial.runParallel moves).get := by
  rw [get_runParallel, ← Contents.runParallel_comp]
  rfl

end RegisterFile

namespace Move

variable {moves scheduled : List Move} {temporary slot : Register}

/-- The slots to be compared are those that the moves write, and registers that the schedule
writes. -/
theorem mem_touched :
    slot ∈ (touched moves scheduled temporary).members ↔
      (∃ move ∈ moves, slot ∈ move.written) ∨
        slot < temporary ∧ ∃ move ∈ scheduled, slot ∈ move.written := by
  rw [touched, WordSet.mem_ofList]
  simp [and_comm]

/-- A schedule passes if it leaves the slots that are looked at as the moves do. -/
theorem wrongSlot?_eq_none :
    wrongSlot? moves scheduled temporary = none ↔
      ∀ slot ∈ (touched moves scheduled temporary).members,
        (RegisterFile.initial.run scheduled).get slot =
          (RegisterFile.initial.runParallel moves).get slot := by
  simp [wrongSlot?, List.findSome?_eq_none_iff]

/-- **The comparison is exact.** A schedule passes if and only if it leaves every slot below the
temporaries, and every slot that one of the moves writes, as the moves do in parallel, whatever the
slots held before and whatever the constants are. -/
theorem passes_iff_run_eq_runParallel (moves scheduled : List Move) (temporary : Register) :
    wrongSlot? moves scheduled temporary = none ↔
      ∀ (α : Type) (load : Option Constant → Nat → α) (before : Contents α) (slot : Register),
        (slot < temporary ∨ ∃ move ∈ moves, slot ∈ move.written) →
          Contents.run load before scheduled slot =
            Contents.runParallel load before moves slot := by
  rw [wrongSlot?_eq_none]
  constructor
  · intro h α load before slot hslot
    by_cases htouched : slot ∈ (touched moves scheduled temporary).members
    · rw [RegisterFile.run_eq_meaning, RegisterFile.runParallel_eq_meaning, Function.comp_apply,
        Function.comp_apply, h slot htouched]
    · -- a slot that is not looked at is below the temporaries, and nothing writes it
      rw [mem_touched, not_or] at htouched
      obtain ⟨hmoves, hscheduled⟩ := htouched
      have hlt : slot < temporary := hslot.resolve_right hmoves
      rw [Contents.run_of_not_mem load before fun move hmove hw =>
          hscheduled ⟨hlt, move, hmove, hw⟩,
        Contents.runParallel_of_not_mem load before fun move hmove hw => hmoves ⟨move, hmove, hw⟩]
  · intro h slot hslot
    rw [RegisterFile.get_run, RegisterFile.get_runParallel]
    refine h Content Content.constant RegisterFile.initial.get slot ?_
    exact (mem_touched.mp hslot).elim .inr fun hbelow => .inl hbelow.1

/-- Two values that change places one after the other do not. -/
example : wrongSlot? [⟨0, .register 1, .single⟩, ⟨1, .register 0, .single⟩]
    [⟨0, .register 1, .single⟩, ⟨1, .register 0, .single⟩] 2 =
      some ⟨1, .initial 1, .initial 0⟩ := by decide

end Move
end RegisterAllocation
