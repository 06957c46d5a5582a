import RegisterAllocation.Allocation.Listing
import RegisterAllocation.Proofs.Comparison
import RegisterAllocation.Proofs.Coverage
import RegisterAllocation.Proofs.Encoding
import RegisterAllocation.Proofs.Reading

/-!
# Printing allocated code

An instruction can be printed if its operands have registers where they need some. Nothing else can
be missing in a consistent unit: every constant has a literal, and so do all constants that moves
load and all contents that they leave behind. A listing is the text of all instructions and moves,
so it exists if all the instructions can be printed (`Allocator.exists_listing_iff`).
-/

namespace RegisterAllocation

/-! ## Operands -/

namespace CodeUnit

variable {u : CodeUnit} {placement : Placement} {number : Int64} {v : ValueId} {i : InstrId}

namespace Consistent

/-- The values of an instruction are values of the unit. -/
theorem mem_values_of_mem_valuesOf (h : u.Consistent) (hv : v ∈ u.pool.valuesOf i) :
    v ∈ u.values := by
  obtain hv | hv := List.mem_append.mp hv
  · exact h.outputs i v (Option.mem_toList.mp hv)
  · exact h.inputs i v hv

/-- A value has an operand if it has a register or needs none. -/
theorem exists_operand_iff (h : u.Consistent) :
    (∃ operand, u.pool.operand placement number v = .ok operand) ↔
      (u.pool.needsRegister v = .ok true → ∃ register, placement v number = .ok register) := by
  constructor
  · rintro ⟨operand, hoperand⟩ hneeds
    obtain ⟨register, -, hregister, -⟩ | ⟨_, _, hnone, -⟩ := Pool.operand_eq_ok hoperand
    · exact ⟨register, hregister⟩
    · cases hneeds.symm.trans hnone
  · intro hregister
    obtain ⟨needs, hneeds⟩ := h.needsRegister v
    cases needs with
    | true =>
      obtain ⟨register, hregister⟩ := hregister hneeds
      exact ⟨.register register, by simp only [Pool.operand, hneeds, hregister]; rfl⟩
    | false =>
      obtain ⟨constant, hconstant⟩ := Pool.exists_constant hneeds
      obtain ⟨literal, hliteral, -⟩ := h.exists_text hconstant
      refine ⟨.literal literal, ?_⟩
      simp only [Pool.operand, hneeds, hconstant, Option.bind_some, hliteral]
      rfl

/-- An output has a text if and only if it has an operand. -/
theorem exists_outText_iff (h : u.Consistent) {out : Option ValueId} :
    (∃ text, u.pool.outText placement number out = .ok text) ↔
      ∀ v ∈ out, ∃ operand, u.pool.operand placement number v = .ok operand := by
  cases out with
  | none => exact ⟨by simp, fun _ => ⟨_, rfl⟩⟩
  | some v =>
    obtain ⟨needs, hneeds⟩ := h.needsRegister v
    simp only [Option.mem_def, Option.some.injEq, forall_eq', Pool.outText, hneeds, bind,
      Except.bind]
    cases needs with
    | true =>
      cases hoperand : u.pool.operand placement number v with
      | error fault => simp
      | ok operand => simp [pure, Except.pure]
    | false =>
      have hnone : ¬ u.pool.needsRegister v = .ok true := by simp [hneeds]
      simp [pure, Except.pure, h.exists_operand_iff, hnone]

/-- An instruction can be printed if all its operands have answers. -/
theorem exists_encodedText_iff (h : u.Consistent) :
    (∃ text, u.pool.encodedText placement i = .ok text) ↔ u.pool.Answers placement i := by
  have hanswers : u.pool.Answers placement i ↔
      (∃ text, u.pool.outText placement (u.pool.instr i).number (u.pool.instr i).out = .ok text) ∧
      ∃ operands, (u.pool.instr i).inputs.mapM
        (u.pool.operand placement (u.pool.instr i).number) = .ok operands := by
    rw [h.exists_outText_iff, exists_mapM_iff, Pool.Answers, Pool.valuesOf, List.forall_mem_append]
    simp
  rw [hanswers]
  constructor
  · rintro ⟨text, htext⟩
    obtain ⟨out, hout, htext⟩ := bind_eq_ok htext
    obtain ⟨operands, hoperands, -⟩ := bind_eq_ok htext
    exact ⟨⟨out, hout⟩, operands, hoperands⟩
  · rintro ⟨⟨out, hout⟩, operands, hoperands⟩
    simp only [Pool.encodedText, hout, hoperands]
    exact ⟨_, rfl⟩

end Consistent
end CodeUnit

/-! ## Moves and contents -/

/-- There is a text for the contents of a slot. -/
def Content.Printable (content : Content) : Prop := ∃ text, content.text = .ok text

/-- There is a text for what a move moves. -/
def Move.Printable (move : Move) : Prop := ∃ text, Move.sourceText move.source = .ok text

/-- A wrong slot can be reported if its contents can be printed. -/
theorem WrongSlot.exists_message {wrong : WrongSlot} (hfound : wrong.found.Printable)
    (hwanted : wrong.wanted.Printable) : ∃ text, wrong.message = .ok text := by
  obtain ⟨found, hfound⟩ := hfound
  obtain ⟨wanted, hwanted⟩ := hwanted
  simp only [message, hfound, hwanted]
  exact ⟨_, rfl⟩

theorem Content.printable_constant {constant : Constant} {text : String}
    (h : constant.text = .ok text) (half : Nat) :
    (Content.constant (some constant) half).Printable := by
  simp only [Content.Printable, Content.text, h]
  exact ⟨_, rfl⟩

namespace Contents

variable {before after : Contents Content} {move : Move}

/-- What a move that can be printed reads can be printed. -/
theorem printable_read (hbefore : ∀ slot, (before slot).Printable) (hmove : move.Printable) :
    ∀ content ∈ read Content.constant before move, content.Printable := by
  obtain ⟨text, htext⟩ := hmove
  intro content hcontent
  rw [read] at hcontent
  cases hsource : move.source with
  | register register =>
    simp only [hsource] at hcontent
    obtain ⟨slot, -, rfl⟩ := List.mem_map.mp hcontent
    exact hbefore slot
  | constant constant =>
    simp only [hsource] at hcontent htext
    obtain ⟨half, -, rfl⟩ := List.mem_map.mp hcontent
    exact Content.printable_constant htext half
  | missing =>
    rw [hsource] at htext
    cases htext

/-- What a move that can be printed leaves can be printed. -/
theorem printable_write (hbefore : ∀ slot, (before slot).Printable)
    (hafter : ∀ slot, (after slot).Printable) (hmove : move.Printable) (slot : Register) :
    (write Content.constant before after move slot).Printable := by
  by_cases hslot : slot ∈ move.written
  · refine printable_read hbefore hmove _ ?_
    rw [← map_written_write Content.constant before after move]
    exact List.mem_map_of_mem hslot
  · rw [write_of_not_mem _ _ _ hslot]
    exact hafter slot

end Contents

namespace RegisterFile

variable {moves : List Move} (h : ∀ move ∈ moves, move.Printable)
include h

/-- Moves that can be printed leave contents that can be printed. -/
theorem printable_run (slot : Register) :
    ((RegisterFile.initial.run moves).get slot).Printable := by
  rw [get_run]
  induction moves using List.reverseRecOn generalizing slot with
  | nil => exact ⟨_, rfl⟩
  | append_singleton moves move ih =>
    have hmoves := ih fun other hother => h other (List.mem_append_left _ hother)
    rw [Contents.run_concat]
    exact Contents.printable_write hmoves hmoves (h move (by simp)) slot

/-- Moves at the same time leave contents that can be printed. -/
theorem printable_runParallel (slot : Register) :
    ((RegisterFile.initial.runParallel moves).get slot).Printable := by
  rw [get_runParallel]
  induction moves using List.reverseRecOn generalizing slot with
  | nil => exact ⟨_, rfl⟩
  | append_singleton moves move ih =>
    have hmoves := ih fun other hother => h other (List.mem_append_left _ hother)
    rw [Contents.runParallel_concat]
    exact Contents.printable_write (fun slot => ⟨_, rfl⟩) hmoves (h move (by simp)) slot

end RegisterFile

/-- The moves of an allocation can be printed, and so can those that carry them out. -/
theorem Allocation.Recorded.printable {u : CodeUnit} {config : Config} {allocation : Allocation}
    {scanned table : MoveTable} (h : Recorded u config allocation scanned table)
    (hu : u.Consistent) {set : MoveSet} (hset : set ∈ allocation.moveSets) :
    ∀ move ∈ set.moves ++ set.scheduled, move.Printable := by
  have hentry : (set.position, set.moves) ∈ table := h.sets ▸ List.mem_map_of_mem hset
  have hmoves : ∀ move ∈ set.moves, move.Printable := by
    intro move hmove
    have hregisters := (h.inRegisters _ hentry move hmove).2
    have hpool := h.fromPool _ hentry move hmove
    cases hsource : move.source with
    | register register => exact ⟨_, by rw [hsource]; rfl⟩
    | constant constant =>
      obtain ⟨v, hconstant⟩ := hpool constant hsource
      obtain ⟨literal, -, htext⟩ := hu.exists_text hconstant
      exact ⟨_, by rw [hsource]; exact htext⟩
    | missing =>
      rw [hsource] at hregisters
      exact hregisters.elim
  obtain ⟨temporaries, hschedule, -⟩ := h.scheduled set hset
  intro move hmove
  obtain hmove | hmove := List.mem_append.mp hmove
  · exact hmoves move hmove
  · obtain ⟨register, hsource⟩ | ⟨other, hother, hsource⟩ := hschedule.sources move hmove
    · exact ⟨_, by rw [hsource]; rfl⟩
    · rw [Move.Printable, ← hsource]
      exact hmoves other hother

/-! ## Listings -/

namespace Listing

variable {u : CodeUnit} {sets : List MoveSet} {is : List InstrId}

/-- The moves of sets are their scheduled moves. -/
theorem mem_movesOf {step : Step} :
    step ∈ sets.flatMap movesOf ↔
      ∃ set ∈ sets, ∃ move ∈ set.scheduled, step = .move set.position move := by
  simp [movesOf, eq_comm]

/-- A listing shows every instruction, and moves of the sets. -/
theorem mem_body {step : Step} (h : step ∈ body u sets is) :
    (∃ i ∈ is, step = .instr i) ∨
      ∃ set ∈ sets, ∃ move ∈ set.scheduled, step = .move set.position move := by
  induction is generalizing sets with
  | nil => exact .inr (mem_movesOf.mp h)
  | cons i is ih =>
    obtain h | h := List.mem_append.mp h
    · obtain ⟨set, hset, hstep⟩ := mem_movesOf.mp h
      exact .inr ⟨set, (List.takeWhile_sublist _).subset hset, hstep⟩
    · obtain rfl | h := List.mem_cons.mp h
      · exact .inl ⟨i, List.mem_cons_self, rfl⟩
      · obtain ⟨j, hj, hstep⟩ | ⟨set, hset, hstep⟩ := ih h
        · exact .inl ⟨j, List.mem_cons_of_mem _ hj, hstep⟩
        · exact .inr ⟨set, (List.dropWhile_sublist _).subset hset, hstep⟩

/-- Every instruction stands in the body. -/
theorem instr_mem_body {i : InstrId} (h : i ∈ is) : .instr i ∈ body u sets is := by
  induction is generalizing sets with
  | nil => simp at h
  | cons j is ih =>
    rw [body]
    refine List.mem_append_right _ ?_
    obtain rfl | h := List.mem_cons.mp h
    · exact List.mem_cons_self
    · exact List.mem_cons_of_mem _ (ih h)

end Listing

namespace Page

variable {u : CodeUnit} {placement : Placement}

/-- A move that can be printed is written. -/
theorem exists_writeMove {move : Move} (h : move.Printable) (page : Page) (position : Position) :
    ∃ written, page.writeMove position move = .ok written := by
  obtain ⟨text, htext⟩ := h
  unfold writeMove
  cases hsource : move.source with
  | register register => exact ⟨_, rfl⟩
  | constant constant =>
    rw [hsource] at htext
    have htext : constant.text = .ok text := htext
    simp only [htext]
    exact ⟨_, rfl⟩
  | missing =>
    rw [hsource] at htext
    cases htext

/-- An instruction is written if and only if it has a text. -/
theorem exists_writeInstr_iff (page : Page) (i : InstrId) :
    (∃ written, page.writeInstr u placement i = .ok written) ↔
      ∃ text, u.pool.encodedText placement i = .ok text := by
  unfold writeInstr
  cases u.pool.encodedText placement i with
  | error fault => simp [bind, Except.bind]
  | ok text => simp [bind, Except.bind, pure, Except.pure]

/-- Arguments are written if each has a register. -/
theorem exists_writeArguments
    (h : ∀ v ∈ u.arguments, ∃ register, placement v (u.value v).start = .ok register)
    (page : Page) : ∃ written, page.writeArguments u placement = .ok written := by
  unfold writeArguments
  split
  · exact ⟨_, rfl⟩
  · have htexts : ∀ v ∈ u.arguments, ∃ text, (do
        return " " ++ u.label v ++ "=r" ++ Decimal.ofWord (← placement v (u.value v).start) :
          Except Fault String) = .ok text := by
      intro v hv
      obtain ⟨register, hregister⟩ := h v hv
      rw [hregister]
      exact ⟨_, rfl⟩
    obtain ⟨texts, htexts⟩ := exists_mapM_iff.mpr htexts
    rw [htexts]
    exact ⟨_, rfl⟩

/-- A value is written whatever its pieces. -/
theorem exists_writeValue (hu : u.Consistent) (pieces : List Piece) (page : Page) (v : ValueId) :
    ∃ written, page.writeValue u pieces v = .ok written := by
  obtain ⟨needs, hneeds⟩ := hu.needsRegister v
  simp only [writeValue, hneeds, bind, Except.bind]
  cases needs <;> exact ⟨_, rfl⟩

end Page

/-- The body of a listing can be written if the instructions in it can be printed. -/
theorem Page.exists_writeSteps_iff {u : CodeUnit} {placement : Placement} {sets : List MoveSet}
    {is : List InstrId} (hmoves : ∀ set ∈ sets, ∀ move ∈ set.scheduled, move.Printable)
    (page : Page) :
    (∃ written, (Listing.body u sets is).foldlM (writeStep u placement) page = .ok written) ↔
      ∀ i ∈ is, ∃ text, u.pool.encodedText placement i = .ok text := by
  have hsteps : (∃ written, (Listing.body u sets is).foldlM (writeStep u placement) page =
      .ok written) ↔ ∀ step ∈ Listing.body u sets is, ∀ i, step = .instr i →
        ∃ text, u.pool.encodedText placement i = .ok text := by
    refine exists_foldlM_iff (fun page step hstep => ?_) page
    obtain ⟨i, -, rfl⟩ | ⟨set, hset, move, hmove, rfl⟩ := Listing.mem_body hstep
    · simpa [writeStep] using page.exists_writeInstr_iff i
    · simpa [writeStep] using page.exists_writeMove (hmoves set hset move hmove) set.position
  rw [hsteps]
  constructor
  · exact fun h i hi => h _ (Listing.instr_mem_body hi) i rfl
  · rintro h step hstep i rfl
    obtain ⟨j, hj, heq⟩ | ⟨_, -, _, -, heq⟩ := Listing.mem_body hstep
    · cases heq
      exact h i hj
    · cases heq

/-- A unit can be listed if all its instructions can be printed: the arguments, the moves and the
values can always be written. -/
theorem Allocator.exists_listing_iff {config : Config} {allocation : Allocation} {u : CodeUnit}
    (hu : u.Consistent)
    (harguments : ∀ v ∈ u.arguments, ∃ register,
      (holding config allocation).placement u v (u.value v).start = .ok register)
    (hmoves : ∀ set ∈ allocation.moveSets, ∀ move ∈ set.scheduled, move.Printable) :
    (∃ text, (holding config allocation).listing u = .ok text) ↔ ∀ i ∈ u.instrs,
      ∃ text, u.pool.encodedText ((holding config allocation).placement u) i = .ok text := by
  obtain ⟨page, hpage⟩ := Page.exists_writeArguments harguments (Page.empty.write
    ("(unit " ++ u.name ++ " registers " ++ Decimal.ofWord allocation.registersUsed))
  rw [← Page.exists_writeSteps_iff hmoves page]
  constructor
  · rintro ⟨text, htext⟩
    obtain ⟨found, hfound, htext⟩ := bind_eq_ok htext
    cases hfound
    obtain ⟨first, hfirst, htext⟩ := bind_eq_ok htext
    cases hpage.symm.trans hfirst
    obtain ⟨written, hwritten, -⟩ := bind_eq_ok htext
    exact ⟨written, hwritten⟩
  · rintro ⟨written, hwritten⟩
    have hvalues : ∃ last, u.values.foldlM (Page.writeValue u allocation.pieces) written =
        .ok last :=
      (exists_foldlM_iff (P := fun _ => True)
        (fun page v _ => by simp [page.exists_writeValue hu]) written).mpr fun _ _ => trivial
    obtain ⟨last, hlast⟩ := hvalues
    refine ⟨(last.write ")").newline.text, ?_⟩
    simp only [listing, get, bind, Except.bind, hpage, hwritten, hlast]
    rfl

end RegisterAllocation
