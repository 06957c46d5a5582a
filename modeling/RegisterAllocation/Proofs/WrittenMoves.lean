import RegisterAllocation.Fixture.Run
import RegisterAllocation.Proofs.Comparison
import RegisterAllocation.Proofs.Outcome

/-!
# Written moves

Moves are read exactly if each of them can be read and no slot is written twice
(`Move.setOfSExpr_eq_ok_iff`). That is all a scheduler asks of moves between registers: it takes
every one of them, and what it makes of them passes its check (`Fixture.run_written`).
-/

namespace RegisterAllocation
namespace Move

variable {move : Move} {moves : List Move} {slot : Register}

/-! ## Moves that are apart -/

/-- No slot is written by two of the moves. -/
def Apart (moves : List Move) : Prop :=
  moves.Pairwise fun move other => ∀ slot ∈ move.written, slot ∉ other.written

instance (moves : List Move) : Decidable (Apart moves) :=
  decidable_of_iff (moves.Pairwise fun move other => move.targetsMeet other = false)
    (by simp [Apart, targetsMeet, writes])

/-- The slot is written by two of the moves. -/
def WrittenTwice (moves : List Move) (slot : Register) : Prop :=
  ∃ move other, [move, other].Sublist moves ∧ slot ∈ move.written ∧ slot ∈ other.written

/-- Moves are apart if no slot is written twice. -/
theorem apart_iff : Apart moves ↔ ∀ slot, ¬ WrittenTwice moves slot := by
  rw [Apart, List.pairwise_iff_forall_sublist]
  constructor
  · rintro h slot ⟨move, other, hsub, hmove, hother⟩
    exact h hsub slot hmove hother
  · intro h move other hsub slot hmove hother
    exact h slot ⟨move, other, hsub, hmove, hother⟩

/-- Moves that are apart do not get in each other's way. -/
theorem Apart.compatible (h : Apart moves) : Compatible moves := by
  have hsymm : Std.Symm fun move other : Move => ∀ slot ∈ move.written, slot ∉ other.written :=
    ⟨fun _ _ h slot hother hmove => h slot hmove hother⟩
  exact fun move hmove other hother hne => List.Pairwise.forall h hmove hother hne

theorem Apart.nodup (h : Apart moves) : moves.Nodup :=
  List.Pairwise.imp (fun {move other} hapart (heq : move = other) =>
    hapart _ move.target_mem_written (heq ▸ move.target_mem_written)) h

theorem Apart.of_append {later : List Move} (h : Apart (moves ++ later)) : Apart moves :=
  (List.pairwise_append.mp h).1

/-! ## Reading moves -/

/-- A move from one register to another. -/
def BetweenRegisters (move : Move) : Prop :=
  0 ≤ move.target ∧ ∃ source, move.source = .register source ∧ 0 ≤ source

/-- Moves between registers stay in registers. -/
theorem BetweenRegisters.inRegisters (h : move.BetweenRegisters) : move.InRegisters := by
  obtain ⟨htarget, source, hsource, hnonneg⟩ := h
  rw [InRegisters, hsource]
  exact ⟨htarget, hnonneg⟩

/-- A move that is read is between registers. -/
theorem betweenRegisters_of_read {entry : SExpr} (h : ofSExpr entry = .ok move) :
    move.BetweenRegisters := by
  unfold ofSExpr at h
  split at h
  · split at h
    · cases h
    · obtain ⟨target, -, h⟩ := bind_eq_ok h
      obtain ⟨source, -, h⟩ := bind_eq_ok h
      dsimp only at h
      split at h
      · cases h
      · next hnonneg =>
        cases h
        obtain ⟨htarget, hsource⟩ := not_or.mp hnonneg
        rw [Int64.not_lt] at htarget hsource
        rw [ofRegisters, if_neg (Register.ne_noRegister hsource)]
        exact ⟨htarget, source, rfl, hsource⟩
  · cases h

/-- Moves that are read together can be read one by one. -/
theorem mapM_of_ofSExprs {written : WordSet} {entries : List SExpr}
    (h : ofSExprs written entries = .ok moves) : entries.mapM ofSExpr = .ok moves := by
  induction entries generalizing written moves with
  | nil => exact h
  | cons entry rest ih =>
    obtain ⟨move, hmove, h⟩ := bind_eq_ok h
    dsimp only at h
    split at h
    · cases h
    · obtain ⟨moves, hmoves, h⟩ := bind_eq_ok h
      cases h
      rw [List.mapM_cons, hmove, ih hmoves]
      rfl

/-- Moves that can be read one by one are read together unless they write a slot twice. Here
`written` are the slots that the moves `earlier` write. -/
theorem ofSExprs_spec {written : WordSet} {entries : List SExpr} {earlier : List Move}
    (hwritten : ∀ slot, slot ∈ written.members ↔ ∃ move ∈ earlier, slot ∈ move.written)
    (hearlier : Apart earlier) (hread : entries.mapM ofSExpr = .ok moves) :
    (Apart (earlier ++ moves) ∧ ofSExprs written entries = .ok moves) ∨
      ∃ entry ∈ entries, ∃ slot, WrittenTwice (earlier ++ moves) slot ∧
        ofSExprs written entries = entry.refuse (.writtenTwice slot) := by
  -- each move that is read joins `earlier`, and its slots join `written`
  induction entries generalizing written earlier moves with
  | nil =>
    obtain rfl : [] = moves := Except.ok.inj hread
    exact .inl ⟨by rwa [List.append_nil], rfl⟩
  | cons entry rest ih =>
    obtain ⟨move, moves, hmove, hrest, rfl⟩ := mapM_cons_eq_ok hread
    cases hclash : (written.inter (.ofList move.written)).members with
    | cons slot slots =>
      have hslot : slot ∈ (written.inter (.ofList move.written)).members := hclash ▸ .head _
      rw [WordSet.mem_inter, WordSet.mem_ofList, hwritten] at hslot
      obtain ⟨⟨other, hother, hslot'⟩, hslot⟩ := hslot
      refine .inr ⟨entry, .head _, slot, ⟨other, move, ?_, hslot', hslot⟩, ?_⟩
      · exact (List.singleton_sublist.mpr hother).append (List.singleton_sublist.mpr (.head _))
      · rw [ofSExprs, hmove]
        simp only [bind, Except.bind, hclash]
    | nil =>
      have hstep : ofSExprs written (entry :: rest) =
          (ofSExprs (written.insertAll move.written) rest).map (move :: ·) := by
        rw [ofSExprs, hmove]
        simp only [bind, Except.bind, hclash]
        rfl
      have hwritten' : ∀ slot, slot ∈ (written.insertAll move.written).members ↔
          ∃ other ∈ earlier ++ [move], slot ∈ other.written := by
        intro slot
        rw [WordSet.mem_insertAll, hwritten]
        simp [or_and_right, exists_or]
      have hearlier' : Apart (earlier ++ [move]) := by
        refine List.pairwise_append.mpr ⟨hearlier, List.pairwise_singleton _ _, ?_⟩
        intro other hother last hlast slot hslot hslot'
        obtain rfl := List.mem_singleton.mp hlast
        have hmem : slot ∈ (written.inter (.ofList last.written)).members :=
          WordSet.mem_inter.mpr
            ⟨(hwritten slot).mpr ⟨other, hother, hslot⟩, WordSet.mem_ofList.mpr hslot'⟩
        rw [hclash] at hmem
        cases hmem
      have hall := ih hwritten' hearlier' hrest
      rw [List.append_assoc, List.singleton_append] at hall
      rw [hstep]
      obtain ⟨hapart, hok⟩ | ⟨later, hlater, slot, htwice, hrefused⟩ := hall
      · exact .inl ⟨hapart, by rw [hok]; rfl⟩
      · exact .inr ⟨later, .tail _ hlater, slot, htwice, by rw [hrefused]; rfl⟩

/-- The expression that is written for a set of moves: the word `moves`, and an entry for each
move. -/
def IsForm (expr : SExpr) (entries : List SExpr) : Prop :=
  ∃ wordLine line, expr = .list (.symbol "moves" wordLine :: entries) line

theorem setOfSExpr_of_isForm {expr : SExpr} {entries : List SExpr} (h : IsForm expr entries) :
    setOfSExpr expr = ofSExprs .empty entries := by
  obtain ⟨wordLine, line, rfl⟩ := h
  rfl

/-- Only a form of moves can be read. -/
theorem isForm_of_read {expr : SExpr} (h : setOfSExpr expr = .ok moves) :
    ∃ entries, IsForm expr entries := by
  unfold setOfSExpr at h
  split at h
  · exact ⟨_, _, _, rfl⟩
  · cases h

/-- Moves that can be read one by one are read together unless they write a slot twice. -/
theorem setOfSExpr_spec {expr : SExpr} {entries : List SExpr} (hform : IsForm expr entries)
    (hread : entries.mapM ofSExpr = .ok moves) :
    (Apart moves ∧ setOfSExpr expr = .ok moves) ∨
      ∃ entry ∈ entries, ∃ slot, WrittenTwice moves slot ∧
        setOfSExpr expr = entry.refuse (.writtenTwice slot) := by
  rw [setOfSExpr_of_isForm hform]
  exact ofSExprs_spec (by simp [WordSet.empty]) List.Pairwise.nil hread

/-- A form of moves is read if its entries can be and no slot is written twice. -/
theorem setOfSExpr_eq_ok_iff {expr : SExpr} :
    setOfSExpr expr = .ok moves ↔
      ∃ entries, IsForm expr entries ∧ entries.mapM ofSExpr = .ok moves ∧ Apart moves := by
  constructor
  · intro h
    obtain ⟨entries, hform⟩ := isForm_of_read h
    have hread : entries.mapM ofSExpr = .ok moves :=
      mapM_of_ofSExprs ((setOfSExpr_of_isForm hform).symm.trans h)
    obtain ⟨hapart, -⟩ | ⟨entry, -, slot, -, hrefused⟩ := setOfSExpr_spec hform hread
    · exact ⟨entries, hform, hread, hapart⟩
    · rw [h] at hrefused
      cases hrefused
  · rintro ⟨entries, hform, hread, hapart⟩
    obtain ⟨-, hok⟩ | ⟨entry, -, slot, htwice, -⟩ := setOfSExpr_spec hform hread
    · exact hok
    · exact absurd htwice (apart_iff.mp hapart slot)

theorem betweenRegisters_of_readAll {entries : List SExpr}
    (h : entries.mapM ofSExpr = .ok moves) : ∀ move ∈ moves, move.BetweenRegisters := by
  intro move hmove
  obtain ⟨entry, -, hentry⟩ := exists_of_mem_mapM h hmove
  exact betweenRegisters_of_read hentry

/-! ## The first temporary -/

/-- Two more than the target and the source do not wrap around. -/
def HasRoom (move : Move) : Prop :=
  move.target.toInt + 2 < 2 ^ 63 ∧ ∀ source ∈ move.sourceRegister?, source.toInt + 2 < 2 ^ 63

instance (move : Move) : Decidable move.HasRoom :=
  decidable_of_iff (move.target.toInt + 2 < 2 ^ 63 ∧
      (move.sourceRegister?.all fun source => source.toInt + 2 < 2 ^ 63) = true)
    (by simp [HasRoom, Option.all_eq_true])

end Move

/-- The slots of a value end two registers above it. -/
theorem MoveType.lt_add_two {type : MoveType} {register slot : Register}
    (hroom : register.toInt + 2 < 2 ^ 63) (h : slot ∈ type.footprint register) :
    slot < register + 2 := by
  have hfits : MoveType.wide.Fits register := by
    have hlow := Int64.le_toInt register
    have hwidth : MoveType.wide.width.toInt = 2 := by decide
    rw [Fits, Int64.lt_iff_toInt_lt, Int64.toInt_add, hwidth,
      Int.bmod_eq_of_le (by omega) (by omega)]
    omega
  exact ((mem_footprint_iff_of_fits hfits).mp (footprint_subset_wide type register h)).2

namespace Fixture

variable {moves : List Move}

/-- The search for the first temporary only goes up, past every move. -/
theorem le_foldl_highest (moves : List Move) (highest : Register) :
    let last := moves.foldl (fun highest move =>
      max (max highest (move.target + 2)) ((move.sourceRegister?.getD noRegister) + 2)) highest
    highest ≤ last ∧ ∀ move ∈ moves,
      move.target + 2 ≤ last ∧ move.sourceRegister?.getD noRegister + 2 ≤ last := by
  induction moves generalizing highest with
  | nil => simp
  | cons move moves ih =>
    have htarget := Register.max_spec highest (move.target + 2)
    have hsource := Register.max_spec (max highest (move.target + 2))
      (move.sourceRegister?.getD noRegister + 2)
    obtain ⟨hlast, hmoves⟩ := ih (max (max highest (move.target + 2))
      (move.sourceRegister?.getD noRegister + 2))
    have hmax := Int64.le_trans hsource.1 hlast
    rw [List.foldl_cons]
    refine ⟨Int64.le_trans htarget.1 hmax, List.forall_mem_cons.mpr ⟨⟨?_, ?_⟩, hmoves⟩⟩
    · exact Int64.le_trans htarget.2.1 hmax
    · exact Int64.le_trans hsource.2.1 hlast

theorem firstTemporary_nonneg (moves : List Move) : 0 ≤ firstTemporary moves :=
  (le_foldl_highest moves 0).1

/-- The slots of moves are below the temporaries. -/
theorem slot_lt_firstTemporary {move : Move} (hmove : move ∈ moves) (hroom : move.HasRoom)
    {slot : Register} (hslot : slot ∈ move.written ++ move.slotsRead) :
    slot < firstTemporary moves := by
  obtain ⟨htarget, hsource⟩ := (le_foldl_highest moves 0).2 move hmove
  obtain hslot | hslot := List.mem_append.mp hslot
  · exact Int64.lt_of_lt_of_le (MoveType.lt_add_two hroom.1 hslot) htarget
  · cases heq : move.source with
    | register source =>
      rw [Move.slotsRead, heq] at hslot
      have hregister : move.sourceRegister? = some source := by rw [Move.sourceRegister?, heq]
      rw [hregister] at hsource
      exact Int64.lt_of_lt_of_le (MoveType.lt_add_two (hroom.2 source hregister) hslot) hsource
    | constant constant => simp [Move.slotsRead, heq] at hslot
    | missing => simp [Move.slotsRead, heq] at hslot

end Fixture

/-! ## Scheduling -/

namespace Scheduler

/-- All moves are taken, in their order, if they are apart. -/
theorem addAll_of_apart {scheduler : Scheduler} {moves : List Move}
    (hapart : Move.Apart (scheduler.moves ++ moves))
    (hbelow : ∀ move ∈ moves, ∀ slot ∈ move.written ++ move.slotsRead,
      slot < scheduler.temporary) :
    scheduler.addAll moves = .ok { scheduler with moves := scheduler.moves ++ moves } := by
  induction moves generalizing scheduler with
  | nil =>
    rw [List.append_nil]
    rfl
  | cons move moves ih =>
    obtain ⟨hfirst, hrest⟩ := List.forall_mem_cons.mp hbelow
    rw [← List.singleton_append, ← List.append_assoc] at hapart
    have hnew : ¬ scheduler.moves.contains move = true := by
      have hnodup := hapart.of_append.nodup
      simp only [List.nodup_append, List.mem_singleton] at hnodup
      rw [List.contains_iff_mem]
      exact fun hmem => hnodup.2.2 move hmem move rfl rfl
    have hadd := add_eq_ok hapart.of_append.compatible hfirst
    rw [if_neg hnew] at hadd
    rw [addAll, List.foldlM_cons, hadd]
    have hlast := @ih { scheduler with moves := scheduler.moves ++ [move] } hapart hrest
    rwa [List.append_assoc, List.singleton_append] at hlast

end Scheduler

/-- A schedule whose temporaries do not wrap around passes the comparison with its moves. -/
theorem Move.IsSchedule.passes {moves scheduled : List Move} {temporary : Register} {used : Int64}
    (h : IsSchedule moves scheduled temporary used) (hcompatible : Compatible moves)
    (htemporary : 0 ≤ temporary) (hwrap : temporary.toInt + used.toInt ≤ 2 ^ 63) :
    wrongSlot? moves scheduled temporary = none := by
  -- a temporary that wraps around would be a negative slot, and these are looked at as well
  have hbelow : ∀ slot < temporary, ¬ IsTemporarySlot temporary used slot := by
    rintro slot hlt ⟨offset, hoffset, hused, rfl⟩
    rw [Int64.lt_iff_toInt_lt] at hlt hused
    rw [Int64.le_iff_toInt_le, Int64.toInt_zero] at hoffset htemporary
    rw [Int64.toInt_add, Int.bmod_eq_of_le (by omega) (by omega)] at hlt
    omega
  rw [wrongSlot?_eq_none]
  intro slot hslot
  have hlt : slot < temporary := by
    obtain ⟨move, hmove, hwritten⟩ | ⟨hlt, -⟩ := mem_touched.mp hslot
    · exact (h.below move hmove slot hwritten).2
    · exact hlt
  rw [RegisterFile.get_run, RegisterFile.get_runParallel]
  exact Contents.eq_runParallel _ _ _ hcompatible (fun move hmove _ => h.arrived _ _ move hmove)
    fun hnone => h.kept _ _ slot hnone (hbelow slot hlt)

namespace Fixture

/-- The scheduler that has taken all of the moves. -/
def scheduler (moves : List Move) : Scheduler := { temporary := firstTemporary moves, moves }

/-- The listing of a schedule. -/
def scheduleText (temporary : Register) (used : Int64) (scheduled : List Move) : String :=
  "(scheduled temp " ++ Decimal.ofWord temporary ++ " used " ++ Decimal.ofWord used
    ++ String.join (scheduled.map fun move => "\n  " ++ move.label) ++ ")\n"

/-- Moves that pass the comparison are written out. -/
theorem runMoves_of_passes {moves scheduled : List Move}
    (hadd : Scheduler.addAll { temporary := firstTemporary moves } moves = .ok (scheduler moves))
    (hscheduled : (scheduler moves).schedule.2 = .ok scheduled)
    (hpasses : Move.wrongSlot? moves scheduled (firstTemporary moves) = none) :
    runMoves moves =
      .ok (scheduleText (firstTemporary moves) (scheduler moves).schedule.1.used scheduled) := by
  rw [runMoves, hadd]
  simp only [RunFailure.lift, Except.mapError, bind, Except.bind, hscheduled, hpasses]
  rfl

/-- A fixture of moves runs them. -/
theorem run_of_moves {fixture : Fixture} {text : String} (hunit : fixture.unit = none)
    (hmoves : fixture.moves ≠ []) (htext : runMoves fixture.moves = .ok text) :
    fixture.run = .ok { output := text } := by
  rw [run, hunit, htext]
  simp [hmoves, pure, Except.pure, bind, Except.bind]

/-- **Written moves can be scheduled.** Moves that are read write no slot twice and are between
registers. As long as the registers are small enough that nothing wraps around, the scheduler takes
each of them, its schedule passes the check, and running the moves gives the listing of the
schedule. Moves that can be read one by one but write a slot twice are refused, with the line of one
that writes a slot again. -/
theorem run_written (expr : SExpr) :
    (∀ moves, Move.setOfSExpr expr = .ok moves →
      Move.Apart moves ∧ (∀ move ∈ moves, move.BetweenRegisters) ∧
      (moves ≠ [] → (∀ move ∈ moves, move.HasRoom) →
        (firstTemporary moves).toInt + (scheduler moves).schedule.1.used.toInt ≤ 2 ^ 63 →
        Scheduler.addAll { temporary := firstTemporary moves } moves = .ok (scheduler moves) ∧
        ∃ scheduled, (scheduler moves).schedule.2 = .ok scheduled ∧
          Move.wrongSlot? moves scheduled (firstTemporary moves) = none ∧
          ∀ fixture : Fixture, fixture.unit = none → fixture.moves = moves →
            fixture.run = .ok ⟨scheduleText (firstTemporary moves)
              (scheduler moves).schedule.1.used scheduled, none⟩)) ∧
    ∀ entries moves, Move.IsForm expr entries → entries.mapM Move.ofSExpr = .ok moves →
      ¬ Move.Apart moves →
      ∃ entry ∈ entries, ∃ slot, Move.WrittenTwice moves slot ∧
        Move.setOfSExpr expr = entry.refuse (.writtenTwice slot) := by
  constructor
  · intro moves h
    obtain ⟨entries, -, hread, hapart⟩ := Move.setOfSExpr_eq_ok_iff.mp h
    have hbetween := Move.betweenRegisters_of_readAll hread
    refine ⟨hapart, hbetween, fun hmoves hroom hwrap => ?_⟩
    have hadd : Scheduler.addAll { temporary := firstTemporary moves } moves =
        .ok (scheduler moves) :=
      Scheduler.addAll_of_apart hapart fun move hmove _ hslot =>
        slot_lt_firstTemporary hmove (hroom move hmove) hslot
    obtain ⟨scheduled, hscheduled, hspec⟩ :=
      Scheduler.schedule_spec (firstTemporary_nonneg moves) hadd
      fun move hmove => (hbetween move hmove).inRegisters
    have hpasses := hspec.passes hapart.compatible (firstTemporary_nonneg moves) hwrap
    refine ⟨hadd, scheduled, hscheduled, hpasses, ?_⟩
    rintro fixture hunit rfl
    exact run_of_moves hunit hmoves (runMoves_of_passes hadd hscheduled hpasses)
  · intro entries moves hform hread hclash
    obtain ⟨hapart, -⟩ | hrefused := Move.setOfSExpr_spec hform hread
    · exact absurd hapart hclash
    · exact hrefused

/-- A set of moves with its entries on the lines from 2 on. -/
def written (entries : List (Int64 × Int64 × String)) : SExpr :=
  .list (.symbol "moves" 1 :: entries.mapIdx fun i (target, source, typeName) =>
    .list [.int target (i + 2), .int source (i + 2), .symbol typeName (i + 2)] (i + 2)) 1

/-- Two wide values change places, and a half of one of them is also copied. -/
def crossing : List Move :=
  [⟨0, .register 2, .wide⟩, ⟨2, .register 0, .wide⟩, ⟨5, .register 2, .single⟩]

theorem run_written_crossing :
    Move.setOfSExpr (written [(0, 2, "wide"), (2, 0, "wide"), (5, 2, "single")]) = .ok crossing ∧
      (∀ move ∈ crossing, move.HasRoom) ∧
      (∃ scheduled, (scheduler crossing).schedule.2 = .ok scheduled ∧
        ({ name := "crossing", moves := crossing } : Fixture).run =
          .ok ⟨scheduleText 7 2 scheduled, none⟩) ∧
      ∃ line slot, Move.WrittenTwice [⟨0, .register 2, .wide⟩, ⟨1, .register 4, .single⟩] slot ∧
        Move.setOfSExpr (written [(0, 2, "wide"), (1, 4, "single")]) =
          .error (.malformed ⟨line, .writtenTwice slot⟩) := by
  have hread : Move.setOfSExpr (written [(0, 2, "wide"), (2, 0, "wide"), (5, 2, "single")]) =
      .ok crossing := by rfl
  have hroom : ∀ move ∈ crossing, move.HasRoom := by decide
  have hused : (scheduler crossing).schedule.1.used = 2 := by decide +kernel
  have htemporary : firstTemporary crossing = 7 := by decide
  obtain ⟨-, -, hrun⟩ := (run_written _).1 crossing hread
  obtain ⟨-, scheduled, hscheduled, -, houtput⟩ := hrun (by decide) hroom
    (by rw [hused, htemporary]; decide)
  rw [hused, htemporary] at houtput
  refine ⟨hread, hroom, ⟨scheduled, hscheduled, houtput _ rfl rfl⟩, ?_⟩
  obtain ⟨entry, -, slot, htwice, hrefused⟩ :=
    (run_written (written [(0, 2, "wide"), (1, 4, "single")])).2 _ _ ⟨1, 1, rfl⟩ rfl (by decide)
  exact ⟨entry.line, slot, htwice, hrefused⟩

end Fixture
end RegisterAllocation
