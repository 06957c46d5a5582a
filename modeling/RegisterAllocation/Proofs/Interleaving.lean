import RegisterAllocation.Proofs.Answers
import RegisterAllocation.Proofs.MovePositions

/-!
# Listings interleave moves and instructions

The body of a listing has every instruction once and the scheduled moves of every position once and
in their order. The moves of a position come after the instructions with lower numbers and before
the others (`Listing.Interleaves`). A listing is made of a title, the arguments, a line for each
step of its body and a row for each value that needs a register (`Allocator.listing_eq`).
-/

namespace RegisterAllocation

/-! ## Bodies -/

namespace Listing
namespace Step

def instr? : Step → Option InstrId
  | .move _ _ => none
  | .instr i => some i

/-- The move at a position that a step shows. -/
def moveAt? (position : Position) : Step → Option Move
  | .move other shown => if other = position then some shown else none
  | .instr _ => none

/-- The steps are in order. A move goes before the instruction with the number of its position. -/
def Precedes (u : CodeUnit) : Step → Step → Prop
  | .move position _, .move other _ => position ≤ other
  | .move position _, .instr i => position ≤ (u.instr i).number
  | .instr i, .move position _ => (u.instr i).number < position
  | .instr i, .instr j => (u.instr i).number < (u.instr j).number

end Step

/-- The steps are the instructions of a unit, each once, and the scheduled moves of all positions,
each once and in the order of the schedule, and every move is in its place between the
instructions. -/
structure Interleaves (u : CodeUnit) (scheduled : Position → List Move) (steps : List Step) :
    Prop where
  instrs : steps.filterMap Step.instr? = u.instrs
  moves : ∀ position, steps.filterMap (Step.moveAt? position) = scheduled position
  ordered : steps.Pairwise (Step.Precedes u)

variable {u : CodeUnit} {sets : List MoveSet} {is : List InstrId}

theorem filterMap_instr?_movesOf (set : MoveSet) : (movesOf set).filterMap Step.instr? = [] := by
  simp [movesOf, Step.instr?]

/-- The steps of a move set are its moves, at its position. -/
theorem filterMap_moveAt?_movesOf (set : MoveSet) (position : Position) :
    (movesOf set).filterMap (Step.moveAt? position) =
      if set.position = position then set.scheduled else [] := by
  rw [movesOf, List.filterMap_map]
  split
  · next heq =>
    have hsome : Step.moveAt? position ∘ Step.move set.position = some := by
      funext move
      exact if_pos heq
    rw [hsome, List.filterMap_some]
  · next hne =>
    have hnone : Step.moveAt? position ∘ Step.move set.position = fun _ => none := by
      funext move
      exact if_neg hne
    rw [hnone, List.filterMap_none]

/-- The body has the instructions of the unit, in their order. -/
theorem filterMap_instr?_body : (body u sets is).filterMap Step.instr? = is := by
  induction is generalizing sets with
  | nil => simp [body, List.filterMap_flatMap, filterMap_instr?_movesOf]
  | cons i is ih =>
    simp [body, List.filterMap_flatMap, filterMap_instr?_movesOf, Step.instr?, ih]

/-- The body has the moves in the order of the sets, wherever the instructions are. -/
theorem filterMap_moveAt?_body (position : Position) :
    (body u sets is).filterMap (Step.moveAt? position) =
      (sets.flatMap movesOf).filterMap (Step.moveAt? position) := by
  induction is generalizing sets with
  | nil => rfl
  | cons i is ih =>
    rw [body, List.filterMap_append, List.filterMap_cons_none rfl, ih, ← List.filterMap_append,
      ← List.flatMap_append, List.takeWhile_append_dropWhile]

/-- The moves of a position are those of its set. -/
theorem filterMap_moveAt?_sets (hnodup : (sets.map (·.position)).Nodup) (position : Position) :
    (sets.flatMap movesOf).filterMap (Step.moveAt? position) =
      Allocation.scheduledAt sets position := by
  induction sets with
  | nil => rfl
  | cons set sets ih =>
    obtain ⟨hnew, hnodup⟩ := List.nodup_cons.mp hnodup
    rw [List.flatMap_cons, List.filterMap_append, filterMap_moveAt?_movesOf, ih hnodup]
    by_cases heq : set.position = position
    · subst heq
      rw [if_pos rfl, Allocation.scheduledAt_of_not_mem hnew, List.append_nil]
      simp [Allocation.scheduledAt]
    · rw [if_neg heq, List.nil_append]
      simp [Allocation.scheduledAt, heq]

/-- The moves of sets stand in the order of their positions. -/
theorem pairwise_movesOf (hsets : sets.Pairwise (·.position < ·.position)) :
    (sets.flatMap movesOf).Pairwise (Step.Precedes u) := by
  rw [List.pairwise_flatMap]
  constructor
  · intro set _
    rw [movesOf, List.pairwise_map]
    exact List.pairwise_of_forall fun _ _ => Int64.le_refl _
  · refine hsets.imp fun hlt step hstep other hother => ?_
    obtain ⟨move, -, rfl⟩ := List.mem_map.mp hstep
    obtain ⟨other, -, rfl⟩ := List.mem_map.mp hother
    exact Int64.le_of_lt hlt

/-- The sets that are left are those beyond the instruction. -/
theorem lt_of_mem_dropWhile {number : Int64} (hsets : sets.Pairwise (·.position < ·.position))
    {set : MoveSet} (h : set ∈ sets.dropWhile (·.position ≤ number)) : number < set.position := by
  induction sets with
  | nil => simp at h
  | cons first sets ih =>
    obtain ⟨hfirst, hsets⟩ := List.pairwise_cons.mp hsets
    rw [List.dropWhile_cons] at h
    split at h
    · exact ih hsets h
    · next hbeyond =>
      have hlt : number < first.position := by simpa using hbeyond
      obtain rfl | h := List.mem_cons.mp h
      · exact hlt
      · exact Int64.lt_trans hlt (hfirst set h)

/-- Everything in the body stands in the order of positions, and moves before instructions. -/
theorem pairwise_body (hsets : sets.Pairwise (·.position < ·.position))
    (his : is.Pairwise fun i j => (u.instr i).number < (u.instr j).number) :
    (body u sets is).Pairwise (Step.Precedes u) := by
  induction is generalizing sets with
  | nil => exact pairwise_movesOf hsets
  | cons i is ih =>
    obtain ⟨hfirst, his⟩ := List.pairwise_cons.mp his
    have hsplit := hsets
    rw [← List.takeWhile_append_dropWhile (p := (·.position ≤ (u.instr i).number)) (l := sets),
      List.pairwise_append] at hsplit
    obtain ⟨htake, hdrop, hacross⟩ := hsplit
    -- the moves up to the instruction, the instruction itself, and what is left of both
    rw [body, List.pairwise_append, List.pairwise_cons]
    refine ⟨pairwise_movesOf htake, ⟨fun step hstep => ?_, ih hdrop his⟩,
      fun step hstep other hother => ?_⟩
    · obtain ⟨j, hj, rfl⟩ | ⟨set, hset, move, -, rfl⟩ := mem_body hstep
      · exact hfirst j hj
      · exact lt_of_mem_dropWhile hsets hset
    · obtain ⟨set, hset, move, -, rfl⟩ := mem_movesOf.mp hstep
      have hle : set.position ≤ (u.instr i).number := by
        simpa using List.all_eq_true.mp List.all_takeWhile set hset
      obtain rfl | hother := List.mem_cons.mp hother
      · exact hle
      · obtain ⟨j, hj, rfl⟩ | ⟨later, hlater, other, -, rfl⟩ := mem_body hother
        · exact Int64.le_trans hle (Int64.le_of_lt (hfirst j hj))
        · exact Int64.le_of_lt (hacross set hset later hlater)

/-- The body interleaves the instructions with the scheduled moves. -/
theorem interleaves_body (hsets : (sets.map (·.position)).Pairwise (· < ·))
    (hinstrs : u.instrs.Pairwise fun i j => (u.instr i).number < (u.instr j).number) :
    Interleaves u (Allocation.scheduledAt sets) (body u sets u.instrs) := by
  refine ⟨filterMap_instr?_body, fun position => ?_,
    pairwise_body (List.pairwise_map.mp hsets) hinstrs⟩
  rw [filterMap_moveAt?_body]
  exact filterMap_moveAt?_sets (hsets.imp Int64.ne_of_lt) position

/-! ## Layout -/

/-- What is between a text that ends in column `used` and one that starts in column `column`. -/
def gap (used column : Nat) : String :=
  if used = column then ""
  else if used < column then "".pushn ' ' (column - used)
  else "\n" ++ "".pushn ' ' column

/-- The start of the line of a position. -/
def margin (position : Position) : String :=
  "\n  " ++ Decimal.ofWord position ++ gap (Page.columnAfter 2 (Decimal.ofWord position)) 8

/-- Where a move comes from, as it is listed. -/
def sourceText : Source → Except Fault String
  | .register register => .ok ("r" ++ Decimal.ofWord register)
  | .constant constant => constant.text.map ("'" ++ ·)
  | .missing => .error .undefined

/-- The line of a step. -/
def Step.line (u : CodeUnit) (placement : Placement) : Step → Except Fault String
  | .move position shown => (sourceText shown.source).map fun source =>
    margin position ++
      ("(move-" ++ shown.type.name ++ " r" ++ Decimal.ofWord shown.target ++ " " ++ source ++ ")")
  | .instr i => (u.pool.encodedText placement i).map (margin (u.instr i).number ++ ·)

/-- The arguments of a unit with their registers. -/
def arguments (u : CodeUnit) (placement : Placement) : Except Fault String :=
  if u.arguments.isEmpty then .ok ""
  else do
    let texts ← u.arguments.mapM fun v => do
      return " " ++ u.label v ++ "=r" ++ Decimal.ofWord (← placement v (u.value v).start)
    return "\n  (arguments" ++ String.join texts ++ ")"

/-- The row of a value: its pieces, if it needs a register. -/
def row (u : CodeUnit) (pieces : ValueId → Except Fault (List Piece)) (v : ValueId) :
    Except Fault String := do
  if ← u.pool.needsRegister v then
    let title := "(" ++ u.label v ++ " " ++ (u.value v).type.name
    let texts := (← pieces v).map fun piece =>
      " [" ++ Decimal.ofWord piece.start ++ "," ++ Decimal.ofWord piece.stop ++ ")=r"
        ++ Decimal.ofWord piece.register
    return "\n  " ++ title ++ gap (Page.columnAfter 2 title) 24 ++ (String.join texts ++ ")")
  else return ""

/-- A move that can be printed has a text for its source. -/
theorem exists_sourceText {move : Move} (h : move.Printable) :
    ∃ text, sourceText move.source = .ok text := by
  obtain ⟨text, htext⟩ := h
  cases hsource : move.source with
  | register register => exact ⟨_, rfl⟩
  | constant constant =>
    rw [hsource] at htext
    exact ⟨_, congrArg (Except.map ("'" ++ ·)) htext⟩
  | missing =>
    rw [hsource] at htext
    cases htext

/-- A list of arguments has a register for each. -/
theorem placement_of_arguments {placement : Placement} {text : String}
    (h : arguments u placement = .ok text) :
    ∀ v ∈ u.arguments, ∃ register, placement v (u.value v).start = .ok register := by
  intro v hv
  rw [arguments, if_neg (by simpa using List.ne_nil_of_mem hv)] at h
  obtain ⟨texts, htexts, -⟩ := bind_eq_ok h
  obtain ⟨_, hargument⟩ := exists_of_mapM_eq_ok htexts v hv
  obtain ⟨register, hregister, -⟩ := bind_eq_ok hargument
  exact ⟨register, hregister⟩

end Listing

namespace Page

open Listing

variable {u : CodeUnit} {placement : Placement}

@[simp] theorem text_write (page : Page) (text : String) :
    (page.write text).text = page.text ++ text := rfl

/-- Padding adds a gap up to the column. -/
@[simp] theorem text_padTo (page : Page) (column : Nat) :
    (page.padTo column).text = page.text ++ gap page.column column := by
  unfold padTo gap
  split_ifs <;> simp [String.append_assoc]

/-- Padding ends in the column. -/
@[simp] theorem column_padTo (page : Page) (column : Nat) :
    (page.padTo column).column = column := by
  unfold padTo
  split_ifs with heq
  · exact heq
  · rfl
  · rfl

/-- A line that is indented starts with two spaces. -/
theorem text_indent (page : Page) : (page.newline.padTo 2).text = page.text ++ "\n  " := by
  rw [text_padTo]
  exact String.append_assoc

theorem text_startPosition (page : Page) (position : Position) :
    (page.startPosition position).text = page.text ++ margin position := by
  rw [startPosition, text_padTo, text_write, text_indent, margin]
  simp [write, String.append_assoc]

/-- A text at a position stands after the margin. -/
theorem text_write_startPosition (page : Page) (position : Position) (text : String) :
    ((page.startPosition position).write text).text = page.text ++ (margin position ++ text) := by
  rw [text_write, text_startPosition, String.append_assoc]

/-- A move is written on a line of its own. -/
theorem writeMove_eq (page : Page) (position : Position) (move : Move) :
    page.writeMove position move = (sourceText move.source).map fun source =>
      (page.startPosition position).write ("(move-" ++ move.type.name ++ " r"
        ++ Decimal.ofWord move.target ++ " " ++ source ++ ")") := by
  rw [writeMove]
  cases move.source with
  | register register => rfl
  | constant constant =>
    rw [sourceText]
    dsimp only
    cases constant.text <;> rfl
  | missing => rfl

/-- A step adds its line, wherever the page ends. -/
theorem text_writeStep (page : Page) (step : Step) :
    (page.writeStep u placement step).map Page.text =
      (step.line u placement).map (page.text ++ ·) := by
  cases step with
  | move position move =>
    rw [writeStep, writeMove_eq, Step.line]
    cases sourceText move.source with
    | error fault => rfl
    | ok source => exact congrArg Except.ok (text_write_startPosition page position _)
  | instr i =>
    rw [writeStep, writeInstr, Step.line]
    cases u.pool.encodedText placement i with
    | error fault => rfl
    | ok text => exact congrArg Except.ok (text_write_startPosition page _ text)

/-- The arguments are written as their list says. -/
theorem text_writeArguments (page : Page) :
    (page.writeArguments u placement).map Page.text =
      (Listing.arguments u placement).map (page.text ++ ·) := by
  rw [writeArguments, Listing.arguments]
  split
  · exact congrArg Except.ok String.append_empty.symm
  · cases u.arguments.mapM (m := Except Fault) fun v => do
        return " " ++ u.label v ++ "=r" ++ Decimal.ofWord (← placement v (u.value v).start) with
    | error fault => rfl
    | ok texts =>
      refine congrArg Except.ok ?_
      rw [text_write, text_indent]
      simp only [String.append_assoc]
      rfl

/-- A value is written as its row says. -/
theorem text_writeValue {allocator : Allocator} {allocation : Allocation}
    (hget : allocator.get u = .ok allocation) (page : Page) (v : ValueId) :
    (page.writeValue u allocation.pieces v).map Page.text =
      (row u (allocator.pieces u) v).map (page.text ++ ·) := by
  rw [writeValue, row]
  cases u.pool.needsRegister v with
  | error fault => rfl
  | ok needs =>
    cases needs with
    | false => exact congrArg Except.ok String.append_empty.symm
    | true =>
      simp only [bind, Except.bind, Allocator.pieces, hget, pure, Except.pure, if_true, Except.map]
      rw [text_write, text_padTo, text_write, text_indent]
      simp [write, String.append_assoc]

/-- Lines that are added one after another are joined. -/
theorem text_foldlM {α : Type} {f : Page → α → Except Fault Page} {line : α → Except Fault String}
    (h : ∀ page x, (f page x).map Page.text = (line x).map (page.text ++ ·)) (xs : List α)
    (page : Page) :
    (xs.foldlM f page).map Page.text =
      (xs.mapM line).map (page.text ++ String.join ·) := by
  induction xs generalizing page with
  | nil => exact congrArg Except.ok String.append_empty.symm
  | cons x xs ih =>
    rw [List.foldlM_cons, List.mapM_cons, map_bind_eq, map_bind_eq]
    refine bind_eq_bind_of_map (h page x) fun next text htext => ?_
    rw [ih next, htext]
    cases xs.mapM line with
    | error fault => rfl
    | ok lines =>
      refine congrArg Except.ok ?_
      simp only [String.join_cons, String.append_assoc]

end Page

namespace Allocator

variable {config : Config} {allocation : Allocation} {u : CodeUnit}

/-- The parts of a listing. -/
theorem listing_eq : (holding config allocation).listing u = (do
    let arguments ← Listing.arguments u ((holding config allocation).placement u)
    let lines ← (Listing.body u allocation.moveSets u.instrs).mapM
      (Listing.Step.line u ((holding config allocation).placement u))
    let rows ← u.values.mapM (Listing.row u ((holding config allocation).pieces u))
    return "(unit " ++ u.name ++ " registers " ++ Decimal.ofWord allocation.registersUsed
      ++ arguments ++ String.join lines ++ String.join rows ++ ")\n") := by
  have hget : (holding config allocation).get u = .ok allocation := rfl
  refine bind_eq_bind_of_map (Page.text_writeArguments _) fun front arguments hfront => ?_
  refine bind_eq_bind_of_map (Page.text_foldlM Page.text_writeStep _ _) fun steps lines hlines => ?_
  refine bind_eq_bind_of_map (Page.text_foldlM (Page.text_writeValue hget) _ _)
    fun values rows hrows => ?_
  refine congrArg Except.ok ?_
  simp only [Page.newline, Page.text_write, hrows, hlines, hfront, String.append_assoc]
  rfl

/-- A value that needs a register has one where it is live. -/
theorem exists_placement_iff_liveAt (hnodup : u.values.Nodup)
    (hallocate : u.allocate config = .ok allocation) {v : ValueId} (hv : v ∈ u.values)
    (hneeds : u.pool.needsRegister v = .ok true) (position : Position) :
    (∃ register, (holding config allocation).placement u v position = .ok register) ↔
      (u.value v).liveAt position = true := by
  simp only [placement_eq_ok_iff]
  exact Allocation.registerAt?_iff_of_chain
    (Allocation.chain_of_needsRegister hnodup hallocate hv hneeds)

/-- An argument has a register at its start, unless its interval is empty. -/
theorem exists_placement_argument_iff (hnodup : u.values.Nodup)
    (hallocate : u.allocate config = .ok allocation) {v : ValueId} (hv : v ∈ u.arguments) :
    (∃ register, (holding config allocation).placement u v (u.value v).start = .ok register) ↔
      (u.value v).hasInterval = true := by
  obtain ⟨register, hown⟩ := Allocation.ofValue_argument hnodup hallocate hv
  simp only [placement_eq_ok_iff, Piece.registerAt?_isSome_iff, hown]
  simp [Piece.covers_iff, Value.hasInterval]

/-- The body of a listing can be written if the instructions can be printed. -/
theorem exists_lines {placement : Placement} {sets : List MoveSet}
    (hmoves : ∀ set ∈ sets, ∀ move ∈ set.scheduled, move.Printable)
    (htexts : ∀ i ∈ u.instrs, ∃ text, u.pool.encodedText placement i = .ok text) :
    ∃ lines, (Listing.body u sets u.instrs).mapM (Listing.Step.line u placement) = .ok lines := by
  refine exists_mapM_iff.mpr fun step hstep => ?_
  obtain ⟨i, hi, rfl⟩ | ⟨set, hset, move, hmove, rfl⟩ := Listing.mem_body hstep
  · obtain ⟨text, htext⟩ := htexts i hi
    rw [Listing.Step.line, htext]
    exact ⟨_, rfl⟩
  · obtain ⟨source, hsource⟩ := Listing.exists_sourceText (hmoves set hset move hmove)
    rw [Listing.Step.line, hsource]
    exact ⟨_, rfl⟩

/-- **Listings interleave moves and instructions.** The positions that have moves ascend, and they
are those at which a value goes on in another piece or a copy does not stay in its register. When
the numbers of the instructions ascend and their operands are live, a listing has a line for every
instruction and for every scheduled move, between the arguments and the rows of the values. The
moves of a position are in their order, after the instructions with lower numbers and before the
others. There is a listing unless an argument has no interval. -/
theorem listing_interleaves {allocator next : Allocator} {u : CodeUnit} (hu : u.Consistent)
    (hregisters : 0 ≤ allocator.config.registers)
    (hnumbers : u.instrs.Pairwise fun i j => (u.instr i).number < (u.instr j).number)
    (hlive : ∀ i ∈ u.instrs, u.OperandsLive i) (hrun : allocator.run u = (next, none)) :
    ∃ positions scheduled used steps lines,
      next.movePositions u = .ok positions ∧ positions.Pairwise (· < ·) ∧
      (∀ position, position ∈ positions ↔
        (∃ v pieces, next.pieces u v = .ok pieces ∧ position ∈ Piece.joints pieces) ∨
          ∃ copy ∈ u.copies, copy.position = position ∧ ¬ next.CopyStays u copy) ∧
      (∀ position, next.scheduledMoves u position = .ok (scheduled position)) ∧
      Listing.Interleaves u scheduled steps ∧
      steps.mapM (Listing.Step.line u (next.placement u)) = .ok lines ∧
      next.registersUsed u = .ok used ∧
      ((∃ text, next.listing u = .ok text) ↔
        ∀ v ∈ u.arguments, (u.value v).hasInterval = true) ∧
      ∀ text, next.listing u = .ok text → ∃ arguments rows,
        Listing.arguments u (next.placement u) = .ok arguments ∧
        u.values.mapM (Listing.row u (next.pieces u)) = .ok rows ∧
        text = "(unit " ++ u.name ++ " registers " ++ Decimal.ofWord used ++ arguments
          ++ String.join lines ++ String.join rows ++ ")\n" := by
  obtain ⟨allocation, hallocate, rfl⟩ := run_eq_none hrun
  have hnodup : u.values.Nodup := hu.values.nodup_iff.mpr List.nodup_range
  obtain ⟨scanned, table, hrecorded⟩ := Allocation.recorded_of_allocate hregisters hallocate
  have hmoves : ∀ set ∈ allocation.moveSets, ∀ move ∈ set.scheduled, move.Printable :=
    fun set hset => (List.forall_mem_append.mp (hrecorded.printable hu hset)).2
  have htexts : ∀ i ∈ u.instrs, ∃ text, u.pool.encodedText
      ((holding allocator.config allocation).placement u) i = .ok text := fun i hi =>
    (CodeUnit.exists_encodedText_iff_operandsLive hu
      (fun _ => exists_placement_iff_liveAt hnodup hallocate) i).mpr (hlive i hi)
  have hascend := (Allocation.positions_of_allocate hnodup hallocate).1
  obtain ⟨lines, hlines⟩ := exists_lines hmoves htexts
  refine ⟨_, _, _, _, lines, rfl, hascend, mem_positions_iff hnodup hallocate,
    fun position => scheduledMoves_eq _ _ _ _, Listing.interleaves_body hascend hnumbers, hlines,
    rfl, ⟨?_, fun hintervals => ?_⟩, ?_⟩
  · rintro ⟨text, htext⟩ v hv
    rw [listing_eq] at htext
    obtain ⟨arguments, harguments, -⟩ := bind_eq_ok htext
    exact (exists_placement_argument_iff hnodup hallocate hv).mp
      (Listing.placement_of_arguments harguments v hv)
  · have harguments := fun v hv => (exists_placement_argument_iff hnodup hallocate hv).mpr
      (hintervals v hv)
    exact (exists_listing_iff hu harguments hmoves).mpr htexts
  · intro text htext
    rw [listing_eq] at htext
    obtain ⟨arguments, harguments, htext⟩ := bind_eq_ok htext
    obtain ⟨found, hfound, htext⟩ := bind_eq_ok htext
    cases hlines.symm.trans hfound
    obtain ⟨rows, hrows, htext⟩ := bind_eq_ok htext
    cases htext
    exact ⟨arguments, rows, harguments, hrows, rfl⟩

/-- With two registers, `x` gives way to `y` at 4, and the copy at 8 does not stay. -/
def detourForm : SExpr :=
  .list [.symbol "unit" 1, .symbol "detour" 1,
    .list [.symbol "arguments" 2, .list [.symbol "n" 2, .symbol "single" 2] 2] 2,
    .list [.symbol "instructions" 3,
      .list [.int 2 4, .symbol "move" 4, .list [.symbol "x" 4, .symbol "single" 4] 4,
        .symbol "n" 4] 4,
      .list [.int 4 5, .symbol "add-int" 5, .list [.symbol "y" 5, .symbol "single" 5] 5,
        .symbol "n" 5, .symbol "x" 5] 5,
      .list [.int 6 6, .symbol "add-int" 6, .list [.symbol "z" 6, .symbol "single" 6] 6,
        .symbol "y" 6, .symbol "n" 6] 6,
      .list [.int 8 7, .symbol "add-int" 7, .list [.symbol "w" 7, .symbol "single" 7] 7,
        .symbol "x" 7, .symbol "t" 7] 7] 3,
    .list [.symbol "copies" 8,
      .list [.int 8 8, .symbol "n" 8, .list [.symbol "t" 8, .symbol "single" 8] 8] 8] 8] 1

/-- What is read from `detourForm`. -/
def detour : CodeUnit where
  name := "detour"
  pool := {
    values := #[
      { number := 0, name := "n", type := .single, start := 0, stop := 8, isArgument := true,
        uses := [0, 1, 2] },
      { number := 1, name := "x", type := .single, start := 2, stop := 9, definition := some 0,
        uses := [1, 3] },
      { number := 2, name := "y", type := .single, start := 4, stop := 7, definition := some 1,
        uses := [2] },
      { number := 3, name := "z", type := .single, start := 6, stop := 7, definition := some 2 },
      { number := 4, name := "w", type := .single, start := 8, stop := 9, definition := some 3 },
      { number := 5, name := "t", type := .single, start := 8, stop := 9, uses := [3] }]
    instrs := #[
      { number := 2, opcode := .move, out := some 1, inputs := [0] },
      { number := 4, opcode := .add, numeric := some .int, out := some 2, inputs := [0, 1] },
      { number := 6, opcode := .add, numeric := some .int, out := some 3, inputs := [2, 0] },
      { number := 8, opcode := .add, numeric := some .int, out := some 4, inputs := [1, 5] }] }
  arguments := [0]
  instrs := [0, 1, 2, 3]
  values := [0, 1, 2, 3, 4, 5]
  copies := [⟨8, 0, 5⟩]

/-- The allocation of `detour` with two registers. -/
def detoured : Allocator where
  config := { registers := 2, maxRegisters := 8 }
  allocation := some {
    pieces := [⟨0, 0, 8, 0⟩, ⟨1, 2, 4, 1⟩, ⟨2, 4, 7, 1⟩, ⟨3, 6, 7, 3⟩, ⟨1, 4, 9, 2⟩, ⟨4, 8, 9, 0⟩,
      ⟨5, 8, 9, 1⟩]
    moveSets := [
      ⟨4, [⟨2, .register 1, .single⟩], [⟨2, .register 1, .single⟩]⟩,
      ⟨8, [⟨1, .register 0, .single⟩], [⟨1, .register 0, .single⟩]⟩]
    temporary := 4
    registersUsed := 4 }

theorem listing_interleaves_detour : CodeUnit.ofSExpr detourForm = .ok detour ∧
    (∀ i ∈ detour.instrs, detour.OperandsLive i) ∧
    Allocator.run { config := { registers := 2, maxRegisters := 8 } } detour = (detoured, none) ∧
    (∀ position : Position, position ∈ [4, 8] ↔
      (∃ v pieces, detoured.pieces detour v = .ok pieces ∧ position ∈ Piece.joints pieces) ∨
        ∃ copy ∈ detour.copies, copy.position = position ∧ ¬ detoured.CopyStays detour copy) ∧
    ∃ scheduled steps lines text arguments rows,
      (∀ position, detoured.scheduledMoves detour position = .ok (scheduled position)) ∧
      Listing.Interleaves detour scheduled steps ∧
      steps.mapM (Listing.Step.line detour (detoured.placement detour)) = .ok lines ∧
      detoured.listing detour = .ok text ∧
      text = "(unit " ++ detour.name ++ " registers " ++ Decimal.ofWord 4 ++ arguments
        ++ String.join lines ++ String.join rows ++ ")\n" := by
  have hread : CodeUnit.ofSExpr detourForm = .ok detour := by decide +kernel
  have hrun : Allocator.run { config := { registers := 2, maxRegisters := 8 } } detour =
      (detoured, none) := by decide +kernel
  have hlive : ∀ i ∈ detour.instrs, detour.OperandsLive i := by decide
  obtain ⟨positions, scheduled, used, steps, lines, hpositions, -, hmem, hscheduled, hinterleaves,
    hlines, hused, hlisting, hlayout⟩ := listing_interleaves
      (CodeUnit.built_of_read hread).1.consistent (by decide) (by decide) hlive hrun
  cases hpositions
  cases hused
  obtain ⟨text, htext⟩ := hlisting.mpr (by decide)
  obtain ⟨arguments, rows, -, -, hparts⟩ := hlayout text htext
  exact ⟨hread, hlive, hrun, hmem, scheduled, steps, lines, text, arguments, rows, hscheduled,
    hinterleaves, hlines, htext, hparts⟩

end Allocator
end RegisterAllocation
