import RegisterAllocation.Proofs.Arrival
import RegisterAllocation.Proofs.Coverage

/-!
# Where there are moves

The scan makes a move where a value goes on in another piece, and nowhere else (`Scan.Split`).
Values with fixed registers stay in one piece. A copy adds a move unless source and target share a
register. So the positions that have moves are the joints of the pieces and the positions of the
copies that do not stay (`Allocator.mem_positions_iff`), and they ascend.
-/

namespace RegisterAllocation

/-- A move that is added adds its position and no other. -/
theorem MoveTable.mem_positions_add {table : MoveTable} {position other : Position} {move : Move} :
    other ∈ (table.add position move).map (·.1) ↔ other = position ∨ other ∈ table.map (·.1) := by
  fun_induction add table position move with
  | case1 => simp
  | case2 moves rest => simp
  | case3 first moves rest hne hlt => simp
  | case4 first moves rest hne hlt ih =>
    rw [List.map_cons, List.map_cons, List.mem_cons, List.mem_cons, ih]
    exact or_left_comm

/-! ## Joints -/

namespace Piece

/-- The positions at which a value goes on in another of its pieces. -/
def joints (pieces : List Piece) : List Position := (pieces.map (·.start)).tail

variable {pieces : List Piece} {piece other : Piece}

/-- The joints do not change when the last piece is replaced by one that starts with it. -/
theorem joints_concat_eq (h : piece.start = other.start) :
    joints (pieces ++ [piece]) = joints (pieces ++ [other]) := by
  simp [joints, h]

/-- One more piece adds a joint at its start. -/
theorem joints_concat_concat :
    joints (pieces ++ [other] ++ [piece]) = joints (pieces ++ [other]) ++ [piece.start] := by
  rw [joints, List.map_append, List.tail_append_of_ne_nil (by simp)]
  rfl

end Piece

/-! ## The scan -/

namespace Scan

variable {u : CodeUnit} {config : Config} {reserved : Reserved} {scan next : Scan} {now : Position}
  {done : List ValueId}

/-- There are moves where values go on in another piece, and nowhere else. -/
structure Split (done : List ValueId) (scan : Scan) : Prop extends Listed done scan where
  ordered : scan.moves.Ordered
  moves : ∀ position, position ∈ scan.moves.map (·.1) ↔
    ∃ v, position ∈ Piece.joints (Piece.ofValue (scan.ended ++ scan.active) v)

/-- Pieces that have ended keep their joints. -/
theorem Split.expire (h : scan.Split done) (position : Position) :
    (scan.expire position).Split done := by
  refine ⟨h.toListed.expire position, h.ordered, fun other => ?_⟩
  simp only [h.ofValue_expire]
  exact h.moves other

/-- A new piece adds no joint. -/
theorem Split.activate (h : scan.Split done) {v : ValueId} (hv : v ∉ done) (register : Register) :
    (scan.activate u v register).Split (v :: done) := by
  refine ⟨h.toListed.activate hv register, h.ordered, fun position => (h.moves position).trans ?_⟩
  refine exists_congr fun w => ?_
  rw [h.ofValue_activate hv]
  split
  · next heq =>
    -- the value had no pieces, and now it has a single one
    have hnone : Piece.ofValue (scan.ended ++ scan.active) v = [] :=
      Piece.ofValue_eq_nil fun piece hpiece hvalue => hv (hvalue ▸ h.among piece hpiece)
    rw [heq, hnone]
    exact Iff.rfl
  · exact Iff.rfl

/-- An active value can go on in other pieces, with moves at the joints that this adds. -/
theorem Split.replaced (h : scan.Split done) {victim tail : Piece} {heads : List Piece}
    {added : List Position} {moves : MoveTable} (hvictim : victim ∈ scan.active)
    (hjoints : ∀ own,
      Piece.joints (own ++ heads ++ [tail]) = Piece.joints (own ++ [victim]) ++ added)
    (hheads : ∀ head ∈ heads, head.value = victim.value) (htail : tail.value = victim.value)
    (hordered : moves.Ordered)
    (hmoves : ∀ position, position ∈ moves.map (·.1) ↔
      position ∈ scan.moves.map (·.1) ∨ position ∈ added) :
    Split done
      { active := scan.active.filter (·.value ≠ victim.value) ++ [tail]
        ended := scan.ended ++ heads
        moves } := by
  refine ⟨h.toListed.evicted hheads htail hvictim moves, hordered, fun position => ?_⟩
  have hown : Piece.ofValue (scan.ended ++ scan.active) victim.value =
      Piece.ofValue scan.ended victim.value ++ [victim] := by
    rw [Piece.ofValue_append, Piece.ofValue_eq_singleton h.nodup hvictim]
  have hvalue : ∀ v, position ∈ Piece.joints (Piece.ofValue (scan.ended ++ heads ++
      (scan.active.filter (·.value ≠ victim.value) ++ [tail])) v) ↔
      position ∈ Piece.joints (Piece.ofValue (scan.ended ++ scan.active) v) ∨
        v = victim.value ∧ position ∈ added := by
    intro v
    rw [ofValue_evicted hheads htail]
    split
    · next heq => rw [heq, hown, hjoints, List.mem_append, eq_self, true_and]
    · next hne => simp [hne]
  rw [hmoves, h.moves, exists_congr hvalue, exists_or, exists_and_right]
  simp

/-- A victim that gives way adds the joint at which it does. -/
theorem Split.evict (h : scan.Split done) {victim : Piece} {position : Position}
    (hvictim : victim ∈ scan.active)
    (hevict : scan.evict u config reserved victim position = .ok next) : next.Split done := by
  rw [evict_eq] at hevict
  obtain ⟨register, -, rfl⟩ := map_eq_ok hevict
  rw [evicted]
  split
  · next hstart =>
    -- the piece moves as a whole, so that there are no more joints
    have hjoints : ∀ own,
        Piece.joints (own ++ [] ++ [{ victim with start := position, register }]) =
          Piece.joints (own ++ [victim]) ++ [] := by
      intro own
      rw [List.append_nil, List.append_nil]
      exact Piece.joints_concat_eq hstart.symm
    have hnext := h.replaced hvictim hjoints (by simp) rfl h.ordered (by simp)
    rw [List.append_nil] at hnext
    exact hnext
  · have hjoints : ∀ own, Piece.joints (own ++ [{ victim with stop := position }] ++
        [{ victim with start := position, register }]) =
          Piece.joints (own ++ [victim]) ++ [position] := by
      intro own
      rw [Piece.joints_concat_concat]
      exact congrArg (· ++ [position]) (Piece.joints_concat_eq rfl)
    refine h.replaced hvictim hjoints (by simp) rfl (h.ordered.add _ _) fun other => ?_
    rw [MoveTable.mem_positions_add, List.mem_singleton, or_comm]

/-- There are moves at the joints whichever way a value finds its place. -/
theorem Split.placeEvicting {v : ValueId} {candidates : List Piece} (h : scan.Split done)
    (hv : v ∉ done) (hcandidates : scan.Evictable u config candidates)
    (hplace : placeEvicting u config reserved v scan candidates = .ok next) :
    next.Split (v :: done) := by
  refine placeEvicting_induction (P := fun current rest =>
    current.Split done ∧ current.Evictable u config rest) ?_ ?_ ?_ ⟨h, hcandidates⟩ hplace
  · rintro current rest ⟨hcurrent, -⟩ hfound
    obtain ⟨register, -, rfl⟩ := Option.map_eq_some_iff.mp hfound
    exact hcurrent.activate hv register
  · rintro current rest ⟨hcurrent, -⟩ - hspill
    obtain ⟨register, -, hspill⟩ := bind_eq_ok hspill
    cases hspill
    exact hcurrent.activate hv register
  · rintro current evicted victim rest ⟨hcurrent, hvictims⟩ - hevict
    have hvictim := (hvictims.candidate victim List.mem_cons_self).1
    exact ⟨hcurrent.evict hvictim hevict, hvictims.evict hevict⟩

/-- There are moves at the joints through the whole scan. -/
theorem Split.placeAll {vs : List ValueId} (h : scan.Split done) (hahead : Ahead u done now vs)
    (hplace : placeAll u config reserved scan vs = .ok next) :
    next.Split (vs.reverse ++ done) := by
  induction vs generalizing scan now done with
  | nil =>
    cases hplace
    exact h
  | cons v vs ih =>
    rw [Scan.placeAll] at hplace
    obtain ⟨placed, hv, hplace⟩ := bind_eq_ok hplace
    obtain ⟨hnew, -, -, hahead⟩ := hahead.step
    have hexpire := h.expire (u.value v).start
    have hplaced := hexpire.placeEvicting hnew (evictable_candidates u config hexpire.nodup) hv
    rw [List.reverse_cons, List.append_assoc]
    exact ih hplaced hahead hplace

/-- After the scan of a unit there are moves at the joints and nowhere else. -/
theorem split_ofUnit (hnodup : u.values.Nodup)
    (hintervals : Allocation.checkIntervals u u.values = .ok ())
    (h : ofUnit u config reserved = .ok scan) : ∃ done, scan.Split done := by
  obtain ⟨vs, hplace, hahead, -⟩ := ofUnit_spec hnodup hintervals h
  have hempty : Split [] {} := ⟨⟨by simp, by simp⟩, .nil, by simp [Piece.joints, Piece.ofValue]⟩
  exact ⟨_, hempty.placeAll hahead hplace⟩

end Scan

/-! ## Allocations -/

namespace Allocation

variable {u : CodeUnit} {config : Config} {allocation : Allocation} {pieces : List Piece}

/-- Copies add moves at the positions at which something has to move. -/
theorem mem_positions_addCopies {copies : List Copy} {written : List (Position × ValueId)}
    {moves table : MoveTable} (h : addCopies u pieces written moves copies = .ok table)
    {position : Position} :
    position ∈ table.map (·.1) ↔ position ∈ moves.map (·.1) ∨
      ∃ copy ∈ copies, copy.position = position ∧ ∃ move, CopyMove u pieces copy (some move) := by
  induction copies generalizing written moves with
  | nil =>
    cases h
    simp
  | cons copy copies ih =>
    rw [addCopies] at h
    obtain ⟨move, hmove, h⟩ := bind_eq_ok h
    obtain ⟨-, -, -, hspec⟩ := copyMove?_spec hmove
    rw [ih h]
    simp only [List.mem_cons, exists_eq_or_imp, ← or_assoc]
    refine or_congr_left ?_
    cases move with
    | none =>
      have hnone : ¬ ∃ move, CopyMove u pieces copy (some move) := by
        rintro ⟨other, hother⟩
        exact absurd (hspec.unique hother) (by simp)
      simp [hnone]
    | some move =>
      have hsome : ∃ move, CopyMove u pieces copy (some move) := ⟨move, hspec⟩
      rw [MoveTable.mem_positions_add, or_comm]
      simp [hsome, eq_comm]

/-- Every position with moves has its set. -/
theorem positions_scheduleSets {temporary : Register} {used used' : Int64} {table : MoveTable}
    {sets : List MoveSet} (h : scheduleSets temporary used table = .ok (sets, used')) :
    sets.map (·.position) = table.map (·.1) := by
  induction table generalizing used sets with
  | nil =>
    cases h
    rfl
  | cons entry table ih =>
    obtain ⟨position, moves⟩ := entry
    rw [scheduleSets] at h
    obtain ⟨⟨set, temporaries⟩, hset, h⟩ := bind_eq_ok h
    obtain ⟨⟨rest, total⟩, hrest, h⟩ := bind_eq_ok h
    cases h
    rw [scheduleSet] at hset
    obtain ⟨scheduler, -, hset⟩ := bind_eq_ok hset
    obtain ⟨scheduled, -, hset⟩ := bind_eq_ok hset
    cases hset
    rw [List.map_cons, List.map_cons, ih hrest]

/-- Fixed values stay in one piece, so that the joints are those of the scan. -/
theorem joints_of_latest (hnodup : u.values.Nodup) (hintervals : checkIntervals u u.values = .ok ())
    {reserved : Reserved} {scan : Scan} (hscan : Scan.ofUnit u config reserved = .ok scan)
    (v : ValueId) :
    Piece.joints
        (Piece.ofValue (Reserved.latest reserved.pieces ++ scan.ended ++ scan.active) v) =
      Piece.joints (Piece.ofValue (scan.ended ++ scan.active) v) := by
  rw [List.append_assoc, Piece.ofValue_append]
  by_cases hplaced : ∃ piece ∈ reserved.pieces, piece.value = v
  · obtain ⟨piece, hpiece, rfl, hlatest⟩ := Reserved.ofValue_latest hplaced
    rw [hlatest, Scan.ofValue_eq_nil_of_reserved hnodup hintervals hscan hpiece]
    rfl
  · have hfree : ∀ piece ∈ reserved.pieces, piece.value ≠ v :=
      fun piece hpiece heq => hplaced ⟨piece, hpiece, heq⟩
    rw [Reserved.ofValue_latest_eq_nil hfree, List.nil_append]

/-- The positions of an allocation ascend. They are those at which a value goes on in another piece
or a copy does not stay in its register. -/
theorem positions_of_allocate (hnodup : u.values.Nodup) (h : u.allocate config = .ok allocation) :
    (allocation.moveSets.map (·.position)).Pairwise (· < ·) ∧
    ∀ position, position ∈ allocation.moveSets.map (·.position) ↔
      (∃ v, position ∈ Piece.joints (Piece.ofValue allocation.pieces v)) ∨
        ∃ copy ∈ u.copies, copy.position = position ∧
          ¬ CopyMove u allocation.pieces copy none := by
  obtain ⟨hintervals, reserved, scan, table, -, hscan, hpieces, hcopies, -, hsets, -⟩ :=
    CodeUnit.allocate_eq_ok h
  obtain ⟨done, hsplit⟩ := Scan.split_ofUnit hnodup hintervals hscan
  obtain ⟨hextends, -⟩ := addCopies_spec hsplit.ordered hcopies
  have hmoved : ∀ copy ∈ u.copies, (∃ move, CopyMove u allocation.pieces copy (some move)) ↔
      ¬ CopyMove u allocation.pieces copy none := by
    intro copy hcopy
    obtain ⟨move, hmove⟩ := hextends.move copy hcopy
    constructor
    · exact fun ⟨other, hother⟩ hnone => absurd (hnone.unique hother) (by simp)
    · intro hnone
      cases move with
      | none => exact absurd hmove hnone
      | some move => exact ⟨move, hmove⟩
  rw [positions_scheduleSets hsets]
  refine ⟨List.pairwise_map.mpr hextends.ordered, fun position => ?_⟩
  rw [mem_positions_addCopies hcopies, hsplit.moves, hpieces]
  simp only [joints_of_latest hnodup hintervals hscan]
  refine or_congr_right (exists_congr fun copy => and_congr_right fun hcopy => ?_)
  rw [← hpieces, hmoved copy hcopy]

end Allocation

namespace Allocator

variable {u : CodeUnit} {config : Config} {allocation : Allocation}

/-- A copy stays if it is the kind that needs no move. -/
theorem copyStays_iff {copy : Copy} :
    (holding config allocation).CopyStays u copy ↔
      Allocation.CopyMove u allocation.pieces copy none := by
  constructor
  · rintro ⟨register, hfrom, htarget⟩
    cases hfrom with
    | register register hneeds hsource =>
      exact .shared register (placement_eq_ok_iff.mp htarget) hneeds
        (placement_eq_ok_iff.mp hsource)
  · intro h
    cases h with
    | shared register htarget hneeds hsource =>
      exact ⟨register, .register register hneeds (placement_eq hsource), placement_eq htarget⟩

/-- There are moves at a position if a value goes on in another piece there, or a copy does not
stay. -/
theorem mem_positions_iff (hnodup : u.values.Nodup) (h : u.allocate config = .ok allocation)
    (position : Position) :
    position ∈ allocation.moveSets.map (·.position) ↔
      (∃ v pieces, (holding config allocation).pieces u v = .ok pieces ∧
        position ∈ Piece.joints pieces) ∨
      ∃ copy ∈ u.copies, copy.position = position ∧
        ¬ (holding config allocation).CopyStays u copy := by
  have hpieces : ∀ v, (holding config allocation).pieces u v =
      .ok (Piece.ofValue allocation.pieces v) := fun v => rfl
  simp only [(Allocation.positions_of_allocate hnodup h).2, copyStays_iff, hpieces,
    Except.ok.injEq, exists_eq_left']

end Allocator
end RegisterAllocation
