import RegisterAllocation.Proofs.Numbering
import RegisterAllocation.Proofs.Separation

/-!
# The moves of an allocation

Which moves an allocation has at a position: those of the values that go to the spill area there,
and those of the copies there, except for copies between values that share a register. They are
carried out by a schedule (`Allocation.Recorded.schedule`).
-/

namespace RegisterAllocation

/-- The greater of two registers is one of them, and not below the other. -/
theorem Register.max_spec (register other : Register) :
    register ≤ max register other ∧ other ≤ max register other ∧
      (max register other = register ∨ max register other = other) := by
  rw [show max register other = if register ≤ other then other else register from rfl]
  split <;> grind

/-! ## What moves read -/

section Read

variable {α : Type} (load : Option Constant → Nat → α) (before : Contents α)

/-- A move between registers reads the slots of its source. -/
theorem Contents.read_ofRegisters {source : Register} (h : 0 ≤ source) (target : Register)
    (type : MoveType) :
    read load before (.ofRegisters target source type) = (type.footprint source).map before := by
  rw [Move.ofRegisters, if_neg (Register.ne_noRegister h), read]

/-- A value that moves is written to the slots of its next piece. -/
theorem Scan.relocation_written (u : CodeUnit) (head tail : Piece) :
    (relocation u head tail).written = (u.value head.value).type.footprint tail.register := by
  rw [relocation]
  split <;> rfl

/-- A value goes to the spill area from its first register, or from the constant that it is. -/
theorem Scan.read_relocation (u : CodeUnit) {head : Piece} (hhead : 0 ≤ head.register)
    (tail : Piece) :
    Contents.read load before (relocation u head tail) =
      match u.pool.constant? head.value with
      | some constant => (u.value head.value).type.halves.map (load (some constant))
      | none => ((u.value head.value).type.footprint head.register).map before := by
  rw [relocation]
  cases u.pool.constant? head.value with
  | some constant => rfl
  | none => exact Contents.read_ofRegisters load before hhead _ _

end Read

namespace Allocation

variable {u : CodeUnit} {config : Config} {pieces : List Piece}

/-! ## Copies -/

/-- The move that a copy has, if any, when the values are in the given pieces. -/
inductive CopyMove (u : CodeUnit) (pieces : List Piece) (copy : Copy) : Option Move → Prop
  | constant (register : Register) (constant : Constant)
    (htarget : Piece.registerAt? pieces copy.target copy.position = some register)
    (hneeds : u.pool.needsRegister copy.source = .ok false)
    (hconstant : u.pool.constant? copy.source = some constant) :
    CopyMove u pieces copy (some ⟨register, .constant constant, (u.value copy.target).type⟩)
  | shared (register : Register)
    (htarget : Piece.registerAt? pieces copy.target copy.position = some register)
    (hneeds : u.pool.needsRegister copy.source = .ok true)
    (hsource : Piece.registerAt? pieces copy.source (copy.position - 1) = some register) :
    CopyMove u pieces copy none
  | moved (register origin : Register)
    (htarget : Piece.registerAt? pieces copy.target copy.position = some register)
    (hneeds : u.pool.needsRegister copy.source = .ok true)
    (hsource : Piece.registerAt? pieces copy.source (copy.position - 1) = some origin)
    (hne : origin ≠ register) :
    CopyMove u pieces copy (some (.ofRegisters register origin (u.value copy.target).type))

/-- A copy has at most one move. -/
theorem CopyMove.unique {copy : Copy} {move other : Option Move} (h : CopyMove u pieces copy move)
    (h' : CopyMove u pieces copy other) : move = other := by
  cases h <;> cases h' <;> simp_all

/-- A copy writes the slots of its target. -/
theorem CopyMove.written_eq {copy : Copy} {move : Move} (h : CopyMove u pieces copy (some move)) :
    ∃ register, Piece.registerAt? pieces copy.target copy.position = some register ∧
      move.written = (u.value copy.target).type.footprint register := by
  cases h with
  | constant register constant htarget => exact ⟨register, htarget, rfl⟩
  | moved register origin htarget => exact ⟨register, htarget, rfl⟩

theorem registerAt_eq_ok {v : ValueId} {position : Position} {register : Register}
    (h : registerAt u pieces v position = .ok register) :
    Piece.registerAt? pieces v position = some register := by
  rw [registerAt] at h
  split at h
  · next found hfound =>
    cases h
    exact hfound
  · cases h

/-- A copy is made where its target is live and as wide as its source, once for each position. -/
theorem copyMove?_spec {written : List (Position × ValueId)} {copy : Copy} {move : Option Move}
    (h : copyMove? u pieces written copy = .ok move) :
    (u.value copy.target).liveAt copy.position = true ∧
      (u.value copy.source).type.width = (u.value copy.target).type.width ∧
      (copy.position, copy.target) ∉ written ∧ CopyMove u pieces copy move := by
  rw [copyMove?] at h
  by_cases hlive : (!(u.value copy.target).liveAt copy.position) = true
  · simp only [if_pos hlive] at h
    cases h
  simp only [if_neg hlive] at h
  by_cases hwidth : (u.value copy.source).type.width ≠ (u.value copy.target).type.width
  · simp only [if_pos hwidth] at h
    cases h
  simp only [if_neg hwidth] at h
  by_cases hwritten : written.contains (copy.position, copy.target) = true
  · simp only [if_pos hwritten] at h
    cases h
  simp only [if_neg hwritten] at h
  obtain ⟨register, hregister, h⟩ := bind_eq_ok h
  have htarget := registerAt_eq_ok hregister
  obtain ⟨needs, hneeds, h⟩ := bind_eq_ok h
  have hneeds := Failure.lift_eq_ok hneeds
  refine ⟨by simpa using hlive, not_not.mp hwidth, by simpa using hwritten, ?_⟩
  cases needs with
  | true =>
    simp only [if_true] at h
    by_cases hsource : (!(u.value copy.source).liveAt (copy.position - 1)) = true
    · simp only [if_pos hsource] at h
      cases h
    simp only [if_neg hsource] at h
    obtain ⟨origin, horigin, h⟩ := bind_eq_ok h
    cases h
    by_cases heq : origin = register
    · rw [if_pos heq]
      exact .shared register htarget hneeds (heq ▸ registerAt_eq_ok horigin)
    · rw [if_neg heq]
      exact .moved register origin htarget hneeds (registerAt_eq_ok horigin) heq
  | false =>
    simp only [Bool.false_eq_true, if_false] at h
    obtain ⟨constant, hconstant, h⟩ := bind_eq_ok h
    cases h
    have hconstant := Failure.lift_eq_ok hconstant
    unfold Move.ofConstant at hconstant
    split at hconstant
    · next found hfound =>
      cases hconstant
      exact .constant register found htarget hneeds hfound
    · cases hconstant

/-- The moves of a table with those of copies added. -/
structure Extends (u : CodeUnit) (pieces : List Piece) (copies : List Copy)
    (moves table : MoveTable) : Prop where
  ordered : table.Ordered
  mem : ∀ position move, move ∈ table.movesAt position ↔ move ∈ moves.movesAt position ∨
    ∃ copy ∈ copies, copy.position = position ∧ CopyMove u pieces copy (some move)
  live : ∀ copy ∈ copies, (u.value copy.target).liveAt copy.position = true
  width : ∀ copy ∈ copies,
    (u.value copy.source).type.width = (u.value copy.target).type.width
  move : ∀ copy ∈ copies, ∃ move, CopyMove u pieces copy move
  /-- No value is written twice at a position. -/
  nodup : (copies.map fun copy => (copy.position, copy.target)).Nodup

/-- A value is the target of one copy at a position. -/
theorem Extends.copy_unique {copies : List Copy} {moves table : MoveTable}
    (h : Extends u pieces copies moves table) {copy other : Copy} (hcopy : copy ∈ copies)
    (hother : other ∈ copies) (hposition : copy.position = other.position)
    (htarget : copy.target = other.target) : copy = other :=
  List.inj_on_of_nodup_map h.nodup hcopy hother (by rw [hposition, htarget])

/-- Copies are added to the moves so far, and none of them is lost. -/
theorem addCopies_spec {copies : List Copy} {written : List (Position × ValueId)}
    {moves table : MoveTable} (hmoves : moves.Ordered)
    (h : addCopies u pieces written moves copies = .ok table) :
    Extends u pieces copies moves table ∧
      ∀ copy ∈ copies, (copy.position, copy.target) ∉ written := by
  induction copies generalizing written moves with
  | nil =>
    cases h
    exact ⟨⟨hmoves, by simp, by simp, by simp, by simp, by simp⟩, by simp⟩
  | cons copy copies ih =>
    rw [addCopies] at h
    obtain ⟨move, hmove, h⟩ := bind_eq_ok h
    obtain ⟨hlive, hwidth, hwritten, hspec⟩ := copyMove?_spec hmove
    -- the table with the move of this copy
    have hnext : ∃ next : MoveTable, next.Ordered ∧ (∀ position other,
        other ∈ next.movesAt position ↔ other ∈ moves.movesAt position ∨
          copy.position = position ∧ CopyMove u pieces copy (some other)) ∧
        addCopies u pieces ((copy.position, copy.target) :: written) next copies = .ok table := by
      cases move with
      | none =>
        refine ⟨moves, hmoves, fun position other => ?_, h⟩
        have hnone : ¬ CopyMove u pieces copy (some other) := fun hother =>
          absurd (hspec.unique hother) (by simp)
        simp [hnone]
      | some move =>
        refine ⟨moves.add copy.position move, hmoves.add _ _, fun position other => ?_, h⟩
        have hsome : CopyMove u pieces copy (some other) ↔ other = move :=
          ⟨fun hother => (Option.some.inj (hspec.unique hother)).symm, fun heq => heq ▸ hspec⟩
        rw [MoveTable.movesAt_add hmoves, hsome]
        by_cases hposition : position = copy.position
        · rw [if_pos hposition, List.mem_append, List.mem_singleton, hposition]
          simp
        · have hne : copy.position ≠ position := fun heq => hposition heq.symm
          rw [if_neg hposition]
          simp [hne]
    obtain ⟨next, hordered, hmem, h⟩ := hnext
    obtain ⟨hext, hfresh⟩ := ih hordered h
    refine ⟨⟨hext.ordered, fun position other => ?_, ?_, ?_, ?_, ?_⟩, ?_⟩
    · rw [hext.mem, hmem, or_assoc]
      simp
    · simpa using ⟨hlive, hext.live⟩
    · simpa using ⟨hwidth, hext.width⟩
    · simpa using ⟨⟨move, hspec⟩, hext.move⟩
    · refine List.nodup_cons.mpr ⟨fun hmem => ?_, hext.nodup⟩
      obtain ⟨other, hother, heq⟩ := List.mem_map.mp hmem
      exact hfresh other hother (heq ▸ List.mem_cons_self)
    · intro other hother
      obtain rfl | hother := List.mem_cons.mp hother
      · exact hwritten
      · exact fun hmem => hfresh other hother (List.mem_cons_of_mem _ hmem)

/-! ## Temporaries -/

/-- The temporaries start above all pieces whose end does not wrap around, and no higher. -/
theorem firstTemporary_spec (u : CodeUnit) (pieces : List Piece) :
    0 ≤ firstTemporary u pieces ∧
      (∀ piece ∈ pieces, piece.register + u.pool.width piece.value ≤ firstTemporary u pieces) ∧
      (firstTemporary u pieces = 0 ∨ ∃ piece ∈ pieces,
        firstTemporary u pieces = piece.register + u.pool.width piece.value) := by
  have hfold : ∀ highest : Register,
      let last := pieces.foldl
        (fun highest piece => max highest (piece.register + u.pool.width piece.value)) highest
      highest ≤ last ∧ (∀ piece ∈ pieces, piece.register + u.pool.width piece.value ≤ last) ∧
        (last = highest ∨ ∃ piece ∈ pieces,
          last = piece.register + u.pool.width piece.value) := by
    induction pieces with
    | nil => simp
    | cons first rest ih =>
      intro highest
      obtain ⟨hhighest, hfirst, hmax⟩ :=
        Register.max_spec highest (first.register + u.pool.width first.value)
      obtain ⟨hle, hall, hlast⟩ := ih (max highest (first.register + u.pool.width first.value))
      rw [List.foldl_cons]
      refine ⟨Int64.le_trans hhighest hle, ?_, ?_⟩
      · exact List.forall_mem_cons.mpr ⟨Int64.le_trans hfirst hle, hall⟩
      · obtain hlast | ⟨piece, hpiece, hlast⟩ := hlast
        · exact hmax.imp hlast.trans fun heq => ⟨first, List.mem_cons_self, hlast.trans heq⟩
        · exact .inr ⟨piece, List.mem_cons_of_mem _ hpiece, hlast⟩
  exact hfold 0

/-! ## Schedules -/

/-- The moves that are carried out at a position. -/
def scheduledAt (sets : List MoveSet) (position : Position) : List Move :=
  match sets.find? (·.position = position) with
  | some set => set.scheduled
  | none => []

/-- Where there is no set, nothing is scheduled. -/
theorem scheduledAt_of_not_mem {sets : List MoveSet} {position : Position}
    (h : position ∉ sets.map (·.position)) :
    scheduledAt sets position = [] := by
  have hnone : sets.find? (·.position = position) = none := by simpa using h
  rw [scheduledAt, hnone]

/-- Where there are moves, what is scheduled is that of their set. -/
theorem exists_set_of_mem {sets : List MoveSet} {position : Position}
    (h : position ∈ sets.map (·.position)) :
    ∃ set ∈ sets, set.position = position ∧ scheduledAt sets position = set.scheduled := by
  rw [scheduledAt]
  cases hfind : sets.find? (·.position = position) with
  | none =>
    obtain ⟨set, hset, heq⟩ := List.mem_map.mp h
    exact absurd heq (by simpa using List.find?_eq_none.mp hfind set hset)
  | some set =>
    exact ⟨set, List.mem_of_find?_eq_some hfind, by simpa using List.find?_some hfind, rfl⟩

/-- What is scheduled at a position is that of its set. -/
theorem scheduledAt_of_mem {sets : List MoveSet} (hnodup : (sets.map (·.position)).Nodup)
    {set : MoveSet} (hset : set ∈ sets) : scheduledAt sets set.position = set.scheduled := by
  obtain ⟨found, hfound, hposition, hscheduled⟩ := exists_set_of_mem (List.mem_map_of_mem hset)
  rw [hscheduled, List.inj_on_of_nodup_map hnodup hfound hset hposition]

theorem isSchedule_nil {temporary : Register} (h : 0 ≤ temporary) :
    Move.IsSchedule [] [] temporary 0 := by
  refine ⟨Int64.le_refl _, h, by simp, by simp, by simp, by simp, by simp,
    fun _ _ _ _ _ => rfl, ?_⟩
  rintro α load before slot ⟨offset, hnonneg, hneg, -⟩
  grind

/-- A set that is scheduled does what its moves do at the same time. -/
theorem scheduleSet_spec {temporary : Register} (htemporary : 0 ≤ temporary) {position : Position}
    {moves : List Move} (hregisters : ∀ move ∈ moves, move.InRegisters) {set : MoveSet}
    {temporaries : Int64} (h : scheduleSet temporary position moves = .ok (set, temporaries)) :
    set.position = position ∧ set.moves = moves ∧
      Move.IsSchedule moves set.scheduled temporary temporaries := by
  rw [scheduleSet] at h
  obtain ⟨scheduler, hadd, h⟩ := bind_eq_ok h
  obtain ⟨scheduled, hscheduled, h⟩ := bind_eq_ok h
  cases h
  obtain ⟨found, hfound, hspec⟩ := Scheduler.schedule_spec htemporary hadd hregisters
  cases hfound.symm.trans hscheduled
  exact ⟨rfl, rfl, hspec⟩

/-- The sets are those of the table, each with its schedule. The registers used reach as far as the
temporaries of any set and no further. -/
theorem scheduleSets_spec {temporary : Register} (htemporary : 0 ≤ temporary) {table : MoveTable}
    (hregisters : ∀ entry ∈ table, ∀ move ∈ entry.2, move.InRegisters) {used used' : Int64}
    {sets : List MoveSet} (h : scheduleSets temporary used table = .ok (sets, used')) :
    sets.map (fun set => (set.position, set.moves)) = table ∧ used ≤ used' ∧
    (∀ set ∈ sets, ∃ temporaries,
      Move.IsSchedule set.moves set.scheduled temporary temporaries ∧
        temporary + temporaries ≤ used') ∧
    (used' = used ∨ ∃ set ∈ sets, ∃ temporaries,
      Move.IsSchedule set.moves set.scheduled temporary temporaries ∧
        used' = temporary + temporaries) := by
  induction table generalizing used sets with
  | nil =>
    cases h
    exact ⟨rfl, Int64.le_refl _, by simp, .inl rfl⟩
  | cons entry table ih =>
    obtain ⟨position, moves⟩ := entry
    obtain ⟨hfirst, hrest⟩ := List.forall_mem_cons.mp hregisters
    rw [scheduleSets] at h
    obtain ⟨⟨set, temporaries⟩, hset, h⟩ := bind_eq_ok h
    obtain ⟨⟨rest, total⟩, hrestSets, h⟩ := bind_eq_ok h
    cases h
    obtain ⟨rfl, rfl, hspec⟩ := scheduleSet_spec htemporary hfirst hset
    obtain ⟨htable, hle, hall, htotal⟩ := ih hrest hrestSets
    obtain ⟨hused, htemporaries, hmax⟩ := Register.max_spec used (temporary + temporaries)
    refine ⟨by rw [List.map_cons, htable], Int64.le_trans hused hle, ?_, ?_⟩
    · exact List.forall_mem_cons.mpr ⟨⟨_, hspec, Int64.le_trans htemporaries hle⟩, hall⟩
    · obtain rfl | ⟨other, hother, hreached⟩ := htotal
      · exact hmax.imp id fun heq => ⟨set, List.mem_cons_self, temporaries, hspec, heq⟩
      · exact .inr ⟨other, List.mem_cons_of_mem _ hother, hreached⟩

/-! ## All moves of an allocation -/

/-- Where all pieces are in registers that there are, every value is. -/
theorem nonneg_of_registerAt? (hnonneg : ∀ piece ∈ pieces, 0 ≤ piece.register) {v : ValueId}
    {position : Position} {register : Register}
    (h : Piece.registerAt? pieces v position = some register) : 0 ≤ register := by
  obtain ⟨piece, hpiece, -, -, rfl⟩ := Piece.exists_of_registerAt? h
  exact hnonneg piece hpiece

/-- The move of a copy is between registers that there are. -/
theorem CopyMove.inRegisters {copy : Copy} {move : Move} (h : CopyMove u pieces copy (some move))
    (hnonneg : ∀ piece ∈ pieces, 0 ≤ piece.register) : move.InRegisters := by
  cases h with
  | constant register constant htarget => exact ⟨nonneg_of_registerAt? hnonneg htarget, trivial⟩
  | moved register origin htarget hneeds hsource =>
    exact Scan.inRegisters_ofRegisters (nonneg_of_registerAt? hnonneg htarget)
      (nonneg_of_registerAt? hnonneg hsource)

/-- A copy takes its constant from the pool. -/
theorem CopyMove.fromPool {copy : Copy} {move : Move} (h : CopyMove u pieces copy (some move)) :
    move.FromPool u.pool := by
  cases h with
  | constant register constant htarget hneeds hconstant =>
    rintro _ ⟨⟩
    exact ⟨copy.source, hconstant⟩
  | moved register origin => exact Move.fromPool_ofRegisters _ _ _ _

/-- What holds of the pieces and the moves of a unit before the moves are scheduled: `scanned` are
those that the scan has made, `table` has those of the copies too. -/
structure Planned (u : CodeUnit) (config : Config) (pieces : List Piece)
    (scanned table : MoveTable) : Prop where
  intervals : checkIntervals u u.values = .ok ()
  copies : Extends u pieces u.copies scanned table
  nonneg : ∀ piece ∈ pieces, 0 ≤ piece.register
  inRegisters : ∀ entry ∈ table, ∀ move ∈ entry.2, move.InRegisters
  fromPool : ∀ entry ∈ table, ∀ move ∈ entry.2, move.FromPool u.pool
  sound : u.WellFormed config → (∀ position, u.EndsAt position → ¬ u.FlipsAt position) →
    Sound u config pieces scanned

/-- The parts of an allocation are planned together. -/
theorem planned_of_parts {reserved : Reserved} {scan : Scan} {table : MoveTable}
    (hregisters : 0 ≤ config.registers) (hintervals : checkIntervals u u.values = .ok ())
    (hreserved : Reserved.ofUnit u config = .ok reserved)
    (hscan : Scan.ofUnit u config reserved = .ok scan)
    (hpieces : pieces = Reserved.latest reserved.pieces ++ scan.ended ++ scan.active)
    (hcopies : addCopies u pieces [] scan.moves u.copies = .ok table) :
    Planned u config pieces scan.moves table := by
  have hnumbered := Scan.numbered_ofUnit hregisters hscan
  have hnonneg : ∀ piece ∈ pieces, 0 ≤ piece.register := by
    intro piece hpiece
    rw [hpieces, List.append_assoc, List.mem_append] at hpiece
    exact hpiece.elim
      (fun hpiece =>
        (Reserved.pieces_ofUnit hreserved piece (Reserved.mem_of_mem_latest hpiece)).1)
      (hnumbered.nonneg piece)
  obtain ⟨hextends, -⟩ := addCopies_spec hnumbered.ordered hcopies
  have hmoves : ∀ entry ∈ table, ∀ move ∈ entry.2, move.InRegisters ∧ move.FromPool u.pool := by
    intro entry hentry move hmove
    rw [← MoveTable.movesAt_of_mem hextends.ordered hentry, hextends.mem] at hmove
    obtain hmove | ⟨copy, -, -, hcopy⟩ := hmove
    · exact hnumbered.moves _ move hmove
    · exact ⟨hcopy.inRegisters hnonneg, hcopy.fromPool⟩
  refine ⟨hintervals, hextends, hnonneg, fun entry hentry move hmove =>
    (hmoves entry hentry move hmove).1, fun entry hentry move hmove =>
    (hmoves entry hentry move hmove).2, fun hu hends => ?_⟩
  exact hpieces ▸ sound_ofUnit hu hends hregisters hintervals hreserved hscan

/-- What holds of the moves of an allocation. -/
structure Recorded (u : CodeUnit) (config : Config) (allocation : Allocation)
    (scanned table : MoveTable) : Prop
    extends Planned u config allocation.pieces scanned table where
  temporary_eq : allocation.temporary = firstTemporary u allocation.pieces
  sets : allocation.moveSets.map (fun set => (set.position, set.moves)) = table
  temporary_le : allocation.temporary ≤ allocation.registersUsed
  scheduled : ∀ set ∈ allocation.moveSets, ∃ temporaries,
    Move.IsSchedule set.moves set.scheduled allocation.temporary temporaries ∧
      allocation.temporary + temporaries ≤ allocation.registersUsed
  used : allocation.registersUsed = allocation.temporary ∨
    ∃ set ∈ allocation.moveSets, ∃ temporaries,
      Move.IsSchedule set.moves set.scheduled allocation.temporary temporaries ∧
        allocation.registersUsed = allocation.temporary + temporaries
  limit : allocation.registersUsed ≤ config.maxRegisters

/-- An allocation is the record of its parts. -/
theorem recorded_of_allocate {allocation : Allocation} (hregisters : 0 ≤ config.registers)
    (h : u.allocate config = .ok allocation) :
    ∃ scanned table, Recorded u config allocation scanned table := by
  obtain ⟨hintervals, reserved, scan, table, hreserved, hscan, hpieces, hcopies, htemporary, hsets,
    hlimit⟩ := CodeUnit.allocate_eq_ok h
  have hplanned := planned_of_parts hregisters hintervals hreserved hscan hpieces hcopies
  have hnonneg : 0 ≤ allocation.temporary := htemporary ▸ (firstTemporary_spec u _).1
  obtain ⟨htable, hle, hscheduled, hused⟩ :=
    scheduleSets_spec hnonneg hplanned.inRegisters hsets
  exact ⟨scan.moves, table, hplanned, htemporary, htable, hle, hscheduled, hused, hlimit⟩

namespace Recorded

variable {allocation : Allocation} {scanned table : MoveTable}

theorem temporary_nonneg (h : Recorded u config allocation scanned table) :
    0 ≤ allocation.temporary :=
  h.temporary_eq ▸ (firstTemporary_spec u _).1

/-- Every piece ends below the temporaries. -/
theorem below (h : Recorded u config allocation scanned table) : ∀ piece ∈ allocation.pieces,
    piece.register + u.pool.width piece.value ≤ allocation.temporary :=
  h.temporary_eq ▸ (firstTemporary_spec u allocation.pieces).2.1

theorem positions (h : Recorded u config allocation scanned table) :
    allocation.moveSets.map (·.position) = table.map (·.1) := by
  rw [← h.sets, List.map_map]
  rfl

/-- There is one set for a position. -/
theorem nodup_positions (h : Recorded u config allocation scanned table) :
    (allocation.moveSets.map (·.position)).Nodup := by
  rw [h.positions, List.Nodup, List.pairwise_map]
  exact h.copies.ordered.imp Int64.ne_of_lt

/-- A set has the moves of its position. -/
theorem movesAt_set (h : Recorded u config allocation scanned table) {set : MoveSet}
    (hset : set ∈ allocation.moveSets) : table.movesAt set.position = set.moves :=
  MoveTable.movesAt_of_mem h.copies.ordered (h.sets ▸ List.mem_map_of_mem hset)

/-- Every move belongs to a set. -/
theorem listed (h : Recorded u config allocation scanned table) (position : Position) (move : Move)
    (hmove : move ∈ table.movesAt position) :
    position ∈ allocation.moveSets.map (·.position) := by
  by_contra hnot
  rw [h.positions] at hnot
  rw [MoveTable.movesAt_of_not_mem hnot] at hmove
  exact absurd hmove List.not_mem_nil

/-- The moves of every position are carried out by a schedule. -/
theorem schedule (h : Recorded u config allocation scanned table) (position : Position) :
    ∃ temporaries, Move.IsSchedule (table.movesAt position)
      (scheduledAt allocation.moveSets position) allocation.temporary temporaries := by
  by_cases hmem : position ∈ allocation.moveSets.map (·.position)
  · obtain ⟨set, hset, rfl, hscheduled⟩ := exists_set_of_mem hmem
    obtain ⟨temporaries, hschedule, -⟩ := h.scheduled set hset
    exact ⟨temporaries, by rwa [h.movesAt_set hset, hscheduled]⟩
  · rw [scheduledAt_of_not_mem hmem, MoveTable.movesAt_of_not_mem (h.positions ▸ hmem)]
    exact ⟨0, isSchedule_nil h.temporary_nonneg⟩

/-- The move of a copy is among those of its position. -/
theorem mem_of_copy (h : Recorded u config allocation scanned table) {copy : Copy}
    (hcopy : copy ∈ u.copies) {move : Move}
    (hmove : CopyMove u allocation.pieces copy (some move)) :
    move ∈ table.movesAt copy.position :=
  (h.copies.mem copy.position move).mpr (.inr ⟨copy, hcopy, rfl, hmove⟩)

/-- The move from one piece to the next is among those of its position. -/
theorem mem_of_pair (h : Recorded u config allocation scanned table)
    (hsound : Sound u config allocation.pieces scanned) {v : ValueId} {head tail : Piece}
    (hown : Piece.ofValue allocation.pieces v = [head, tail]) :
    Scan.relocation u head tail ∈ table.movesAt tail.start :=
  (h.copies.mem tail.start _).mpr
    (.inl ((hsound.moves tail.start _).mpr ⟨v, head, tail, hown, rfl, rfl⟩))

/-- A move of the table does what it says. -/
theorem map_run (h : Recorded u config allocation scanned table) {position : Position} {move : Move}
    (hmove : move ∈ table.movesAt position) {α : Type} (load : Option Constant → Nat → α)
    (before : Contents α) :
    move.written.map (Contents.run load before (scheduledAt allocation.moveSets position)) =
      Contents.read load before move := by
  obtain ⟨temporaries, hschedule⟩ := h.schedule position
  exact hschedule.arrived load before move hmove

/-- The slots of a piece that no move writes are kept. -/
theorem run_slot (h : Recorded u config allocation scanned table) {piece : Piece}
    (hpiece : piece ∈ allocation.pieces) (hfits : piece.Fits u.pool) {position : Position}
    {slot : Register} (hslot : slot ∈ (u.value piece.value).type.footprint piece.register)
    (hwritten : ∀ move ∈ table.movesAt position, slot ∉ move.written) {α : Type}
    (load : Option Constant → Nat → α) (before : Contents α) :
    Contents.run load before (scheduledAt allocation.moveSets position) slot = before slot := by
  obtain ⟨temporaries, hschedule⟩ := h.schedule position
  have hnonneg := h.nonneg piece hpiece
  have hbelow := h.below piece hpiece
  have hbounds := (MoveType.mem_footprint_iff_of_fits hfits.2).mp hslot
  rw [Pool.width] at hbelow
  refine hschedule.kept_register load before (by grind) ?_ hwritten
  exact Int64.lt_of_lt_of_le hbounds.2 hbelow

end Recorded

/-- Different pieces take different slots wherever both hold. -/
theorem Sound.not_mem_footprint {moves : MoveTable} (h : Sound u config pieces moves)
    {piece other : Piece} (hpiece : piece ∈ pieces) (hother : other ∈ pieces) (hne : piece ≠ other)
    {position : Position} (hcovers : piece.covers position = true)
    (hcovers' : other.covers position = true) {slot : Register}
    (hslot : slot ∈ (u.value piece.value).type.footprint piece.register) :
    slot ∉ (u.value other.value).type.footprint other.register := by
  have hapart := (h.apart piece hpiece other hother).resolve_left hne
  have hmeet := Piece.footprintsMeet_of_apart hapart (h.fits piece hpiece) (h.fits other hother)
    hcovers hcovers'
  exact MoveType.footprintsMeet_eq_false_iff.mp hmeet slot hslot

section Sound

variable {copies : List Copy} {scanned table : MoveTable} (hsound : Sound u config pieces scanned)
  (hcopies : Extends u pieces copies scanned table)
include hsound hcopies

/-- A move fills the piece of a value that holds at its position: the second piece of a value that
starts there, or the piece of the target of a copy. -/
theorem exists_piece_of_move {position : Position} {move : Move}
    (hmove : move ∈ table.movesAt position) :
    ∃ piece ∈ pieces, piece.covers position = true ∧
      move.written = (u.value piece.value).type.footprint piece.register ∧
      ((∃ head, Piece.ofValue pieces piece.value = [head, piece] ∧ piece.start = position ∧
          move = Scan.relocation u head piece) ∨
        ∃ copy ∈ copies, copy.position = position ∧ copy.target = piece.value ∧
          CopyMove u pieces copy (some move)) := by
  rw [hcopies.mem, hsound.moves] at hmove
  obtain ⟨v, head, tail, hpieces, hstart, rfl⟩ | ⟨copy, hcopy, rfl, hmove⟩ := hmove
  · obtain ⟨-, hhead, htail, rfl, hlayout⟩ := hsound.pair hpieces
    refine ⟨tail, htail, ?_, ?_, .inl ⟨head, hpieces, hstart, rfl⟩⟩
    · rw [Piece.covers_iff, ← hstart]
      exact ⟨Int64.le_refl _, hlayout.pair.2.2.2.1⟩
    · rw [Scan.relocation_written, hhead]
  · obtain ⟨register, hregister, hwritten⟩ := hmove.written_eq
    obtain ⟨piece, hpiece, hvalue, hcovers, rfl⟩ := Piece.exists_of_registerAt? hregister
    exact ⟨piece, hpiece, hcovers, hvalue ▸ hwritten, .inr ⟨copy, hcopy, rfl, hvalue.symm, hmove⟩⟩

/-- A piece that no move fills keeps its slots. -/
theorem not_mem_written {position : Position} {piece : Piece} (hpiece : piece ∈ pieces)
    (hcovers : piece.covers position = true)
    (hhead : ∀ head, Piece.ofValue pieces piece.value = [head, piece] → piece.start ≠ position)
    (hcopy : ∀ copy ∈ copies, copy.position = position → copy.target = piece.value →
      CopyMove u pieces copy none)
    {move : Move} (hmove : move ∈ table.movesAt position) {slot : Register}
    (hslot : slot ∈ (u.value piece.value).type.footprint piece.register) : slot ∉ move.written := by
  obtain ⟨other, hother, hcovers', hwritten, hkind⟩ :=
    exists_piece_of_move hsound hcopies hmove
  by_cases heq : piece = other
  · subst heq
    obtain ⟨head, hpieces, hstart, -⟩ | ⟨copy, hmem, hposition, htarget, hspec⟩ := hkind
    · exact absurd hstart (hhead head hpieces)
    · exact absurd (hspec.unique (hcopy copy hmem hposition htarget)) (by simp)
  · rw [hwritten]
    exact hsound.not_mem_footprint hpiece hother heq hcovers hcovers' hslot

end Sound

/-- A piece that no move fills keeps what it holds. -/
theorem Recorded.map_run_kept {allocation : Allocation} {scanned table : MoveTable}
    (h : Recorded u config allocation scanned table)
    (hsound : Sound u config allocation.pieces scanned) {piece : Piece}
    (hpiece : piece ∈ allocation.pieces) {position : Position}
    (hcovers : piece.covers position = true)
    (hhead : ∀ head, Piece.ofValue allocation.pieces piece.value = [head, piece] →
      piece.start ≠ position)
    (hcopy : ∀ copy ∈ u.copies, copy.position = position → copy.target = piece.value →
      CopyMove u allocation.pieces copy none)
    {α : Type} (load : Option Constant → Nat → α) (before : Contents α) :
    ((u.value piece.value).type.footprint piece.register).map
        (Contents.run load before (scheduledAt allocation.moveSets position)) =
      ((u.value piece.value).type.footprint piece.register).map before := by
  refine List.map_congr_left fun slot hslot => ?_
  exact h.run_slot hpiece (hsound.fits piece hpiece) hslot
    (fun move hmove => not_mem_written hsound h.copies hpiece hcovers hhead hcopy hmove hslot) _ _

end Allocation

theorem Allocator.scheduledMoves_eq (config : Config) (allocation : Allocation) (u : CodeUnit)
    (position : Position) :
    (holding config allocation).scheduledMoves u position =
      .ok (Allocation.scheduledAt allocation.moveSets position) := by
  simp only [scheduledMoves, get, bind, Except.bind, Allocation.scheduledAt]
  cases allocation.moveSets.find? (·.position = position) <;> rfl

end RegisterAllocation
