import RegisterAllocation.Allocation.Check
import RegisterAllocation.Proofs.Scan.Packing
import RegisterAllocation.Proofs.Sorting

/-!
# The sweep over the pieces

Before a check of an allocation looks at registers that are fixed and at moves, it makes sure that
the pieces of each value tile its live interval, and sweeps over all pieces in the order of their
starts to find two that share a slot. The sweep stops early for each piece, at the first one that
starts when it has ended. Nothing is missed that way, since later pieces start no earlier, so the
sweep is exact (`Allocator.passesSweep_iff`), whatever pieces there are.
-/

namespace RegisterAllocation

namespace Piece

/-- The pieces follow each other from `start` to `stop`. -/
structure Tiles (start stop : Position) (pieces : List Piece) : Prop where
  first : ∀ piece ∈ pieces.head?, piece.start = start
  next : pieces.IsChain fun piece after => after.start = piece.stop
  last : ∀ piece ∈ pieces.getLast?, piece.stop = stop
  empty : pieces = [] → start = stop

/-- Two pieces take a slot at the same position. -/
def Clash (pool : Pool) (piece other : Piece) : Prop :=
  ∃ position, piece.covers position = true ∧ other.covers position = true ∧
    ∃ slot ∈ (pool.value piece.value).type.footprint piece.register,
      slot ∈ (pool.value other.value).type.footprint other.register

variable {start stop : Position} {piece other : Piece} {pieces : List Piece} {pool : Pool}

theorem tiles_nil : Tiles start stop [] ↔ start = stop := by
  constructor
  · exact fun h => h.empty rfl
  · exact fun h => ⟨by simp, .nil, by simp, fun _ => h⟩

/-- Pieces tile an interval if the first starts it and the rest goes on from there. -/
theorem tiles_cons :
    Tiles start stop (piece :: pieces) ↔ piece.start = start ∧ Tiles piece.stop stop pieces := by
  cases pieces with
  | nil =>
    rw [tiles_nil]
    constructor
    · exact fun h => ⟨h.first piece (by simp), h.last piece (by simp)⟩
    · exact fun ⟨hstart, hstop⟩ => ⟨by simpa, .singleton _, by simpa, by simp⟩
  | cons after rest =>
    constructor
    · intro h
      obtain ⟨hnext, hrest⟩ := List.isChain_cons_cons.mp h.next
      exact ⟨h.first piece (by simp), by simpa, hrest, by simpa using h.last, by simp⟩
    · intro ⟨hstart, h⟩
      have hnext : after.start = piece.stop := h.first after (by simp)
      exact ⟨by simpa, List.isChain_cons_cons.mpr ⟨hnext, h.next⟩, by simpa using h.last, by simp⟩

/-- The pieces that tile an interval come one after the other, if none of them is empty. -/
theorem Tiles.pairwise (h : Tiles start stop pieces)
    (hfilled : ∀ piece ∈ pieces, piece.start < piece.stop) :
    (∀ piece ∈ pieces, start ≤ piece.start) ∧
      pieces.Pairwise fun piece after => piece.stop ≤ after.start := by
  induction pieces generalizing start with
  | nil => simp
  | cons piece rest ih =>
    obtain ⟨rfl, hrest⟩ := tiles_cons.mp h
    obtain ⟨hpiece, hfilled⟩ := List.forall_mem_cons.mp hfilled
    obtain ⟨hafter, hpairwise⟩ := ih hrest hfilled
    refine ⟨List.forall_mem_cons.mpr ⟨Int64.le_refl _, fun after hmem => ?_⟩,
      List.pairwise_cons.mpr ⟨hafter, hpairwise⟩⟩
    exact Int64.le_trans (Int64.le_of_lt hpiece) (hafter after hmem)

/-- Pieces that tile an interval are different. -/
theorem Tiles.nodup (h : Tiles start stop pieces)
    (hfilled : ∀ piece ∈ pieces, piece.start < piece.stop) : pieces.Nodup := by
  refine (h.pairwise hfilled).2.imp_of_mem fun {piece after} hpiece _ hle => ?_
  rintro rfl
  exact Int64.not_lt.mpr hle (hfilled piece hpiece)

/-- Of two pieces, the one that starts first has to end in time. -/
theorem clash_iff (hother : other.start < other.stop) (hle : piece.start ≤ other.start) :
    piece.Clash pool other ↔ other.start < piece.stop ∧
      (pool.value piece.value).type.footprintsMeet piece.register
        (pool.value other.value).type other.register = true := by
  rw [MoveType.footprintsMeet_iff]
  constructor
  · intro ⟨position, hcovers, hcovers', hmeet⟩
    rw [covers_iff] at hcovers hcovers'
    exact ⟨Int64.lt_of_le_of_lt hcovers'.1 hcovers.2, hmeet⟩
  · intro ⟨hlt, hmeet⟩
    exact ⟨other.start, covers_iff.mpr ⟨hle, hlt⟩, covers_iff.mpr ⟨Int64.le_refl _, hother⟩, hmeet⟩

/-- A clash goes both ways. -/
theorem Clash.symm (h : piece.Clash pool other) : other.Clash pool piece := by
  obtain ⟨position, hcovers, hcovers', slot, hslot, hslot'⟩ := h
  exact ⟨position, hcovers', hcovers, slot, hslot', hslot⟩

instance : Std.Symm fun piece other : Piece => ¬ piece.Clash pool other :=
  ⟨fun _ _ h => mt Clash.symm h⟩

end Piece

namespace Allocation

variable {u : CodeUnit} {pieces : List Piece} {pool : Pool}

/-! ## Coverage -/

/-- Pieces cover an interval up to its stop if and only if they tile it. -/
theorem coveredUpTo_eq_ok_iff {start stop : Position} :
    coveredUpTo start pieces = .ok stop ↔ Piece.Tiles start stop pieces := by
  induction pieces generalizing start with
  | nil => simp [coveredUpTo, Piece.tiles_nil]
  | cons piece rest ih =>
    rw [coveredUpTo, Piece.tiles_cons, ← ih]
    split <;> simp_all

/-- A value is covered, or the check says where it is not. -/
theorem checkCoverage_spec (u : CodeUnit) (v : ValueId) (pieces : List Piece) :
    Piece.Tiles (u.value v).start (u.value v).stop pieces ∧ checkCoverage u v pieces = .ok () ∨
    ¬ Piece.Tiles (u.value v).start (u.value v).stop pieces ∧
      ∃ position, checkCoverage u v pieces = .error (.uncovered (u.label v) position) := by
  rw [← coveredUpTo_eq_ok_iff, checkCoverage]
  cases coveredUpTo (u.value v).start pieces with
  | error position => simp
  | ok position =>
    by_cases hposition : position = (u.value v).stop <;> simp [hposition]

/-- The pieces of a value tile its live interval, if it needs a register. -/
def Covered (u : CodeUnit) (pieces : List Piece) (v : ValueId) : Prop :=
  u.pool.needsRegister v = .ok true →
    Piece.Tiles (u.value v).start (u.value v).stop (Piece.ofValue pieces v)

/-- The values are all covered, and their pieces are given, or there is one that is not. -/
theorem checkValues_spec {vs : List ValueId} (hvs : vs.Nodup)
    (hneeds : ∀ v ∈ vs, ∃ needs, u.pool.needsRegister v = .ok needs)
    (hfilled : ∀ piece ∈ pieces, piece.value ∈ vs → u.pool.needsRegister piece.value = .ok true →
      piece.start < piece.stop) :
    (∀ v ∈ vs, Covered u pieces v) ∧ (∃ own, checkValues u pieces vs = .ok own ∧ own.Nodup ∧
      ∀ piece, piece ∈ own ↔
        piece ∈ pieces ∧ piece.value ∈ vs ∧ u.pool.needsRegister piece.value = .ok true) ∨
    (¬ ∀ v ∈ vs, Covered u pieces v) ∧
      ∃ value position, checkValues u pieces vs = .error (.defect (.uncovered value position)) := by
  induction vs with
  | nil => exact .inl ⟨by simp, [], rfl, .nil, by simp⟩
  | cons v vs ih =>
    obtain ⟨hv, hvs⟩ := List.nodup_cons.mp hvs
    obtain ⟨⟨needs, hneed⟩, hneeds⟩ := List.forall_mem_cons.mp hneeds
    have hrest := ih hvs hneeds fun piece hpiece hmem =>
      hfilled piece hpiece (List.mem_cons_of_mem _ hmem)
    rw [List.forall_mem_cons]
    cases needs with
    | false =>
      have hskip : checkValues u pieces (v :: vs) = checkValues u pieces vs := by
        simp only [checkValues, hneed]
        rfl
      have hcovered : Covered u pieces v := by simp [Covered, hneed]
      rw [hskip]
      simp only [hcovered, true_and]
      refine hrest.imp_left fun ⟨hcovers, own, hown, hnodup, hmem⟩ =>
        ⟨hcovers, own, hown, hnodup, fun piece => ?_⟩
      rw [hmem, List.mem_cons]
      grind
    | true =>
      have hstep : checkValues u pieces (v :: vs) =
          ((checkCoverage u v (Piece.ofValue pieces v)).mapError .defect >>= fun _ =>
            checkValues u pieces vs >>= fun own => .ok (Piece.ofValue pieces v ++ own)) := by
        simp only [checkValues, hneed]
        rfl
      obtain ⟨htiles, hcheck⟩ | ⟨hbad, position, hcheck⟩ :=
        checkCoverage_spec u v (Piece.ofValue pieces v)
      · rw [hstep, hcheck]
        obtain ⟨hcovers, own, hown, hnodup, hmem⟩ | ⟨hbad, value, position, herror⟩ := hrest
        · refine .inl ⟨⟨fun _ => htiles, hcovers⟩,
            Piece.ofValue pieces v ++ own, by rw [hown]; rfl, ?_, fun piece => ?_⟩
          · refine List.nodup_append'.mpr ⟨htiles.nodup fun piece hpiece => ?_, hnodup, ?_⟩
            · obtain ⟨hmem', rfl⟩ := Piece.mem_ofValue.mp hpiece
              exact hfilled piece hmem' List.mem_cons_self hneed
            · intro piece hpiece hother
              obtain ⟨-, rfl⟩ := Piece.mem_ofValue.mp hpiece
              exact hv ((hmem piece).mp hother).2.1
          · rw [List.mem_append, hmem, Piece.mem_ofValue, List.mem_cons]
            grind
        · refine .inr ⟨fun h => hbad h.2, value, position, ?_⟩
          rw [herror]
          rfl
      · refine .inr ⟨fun h => hbad (h.1 hneed), u.label v, position, ?_⟩
        rw [hstep, hcheck]
        rfl

/-! ## Sharing -/

/-- No piece is passed over: those behind one that starts too late start too late as well. -/
theorem sharer?_eq_none_iff {piece : Piece} (hordered : pieces.Pairwise (·.start ≤ ·.start)) :
    sharer? pool piece pieces = none ↔
      ∀ other ∈ pieces, ¬ (other.start < piece.stop ∧
        (pool.value piece.value).type.footprintsMeet piece.register
          (pool.value other.value).type other.register = true) := by
  induction pieces with
  | nil => simp [sharer?]
  | cons other rest ih =>
    obtain ⟨hother, hrest⟩ := List.pairwise_cons.mp hordered
    rw [sharer?, List.forall_mem_cons, ← ih hrest]
    split
    · next hlate =>
      have hall : sharer? pool piece rest = none := by
        refine (ih hrest).mpr fun later hlater => ?_
        have hle := Int64.le_trans hlate (hother later hlater)
        exact fun h => Int64.not_lt.mpr hle h.1
      simp [hall, Int64.not_lt.mpr hlate]
    · next hearly =>
      split
      · next hmeet => simp [Int64.not_le.mp hearly, hmeet]
      · next hmeet => simp [hmeet]

/-- No two pieces clash, or the check names two that do. -/
theorem checkSharing_spec (pool : Pool) (hordered : pieces.Pairwise (·.start ≤ ·.start))
    (hfilled : ∀ piece ∈ pieces, piece.start < piece.stop) :
    (pieces.Pairwise fun piece other => ¬ piece.Clash pool other) ∧
      checkSharing pool pieces = .ok () ∨
    (¬ pieces.Pairwise fun piece other => ¬ piece.Clash pool other) ∧
      ∃ first second, checkSharing pool pieces = .error (.shared first second) := by
  induction pieces with
  | nil => exact .inl ⟨.nil, rfl⟩
  | cons piece rest ih =>
    obtain ⟨hpiece, hrest⟩ := List.pairwise_cons.mp hordered
    have hfilled' := (List.forall_mem_cons.mp hfilled).2
    have hnone : sharer? pool piece rest = none ↔ ∀ other ∈ rest, ¬ piece.Clash pool other := by
      rw [sharer?_eq_none_iff hrest]
      exact forall₂_congr fun other hother => by
        rw [Piece.clash_iff (hfilled' other hother) (hpiece other hother)]
    rw [List.pairwise_cons, ← hnone, checkSharing]
    cases hsharer : sharer? pool piece rest with
    | some other => exact .inr ⟨by simp, _, _, rfl⟩
    | none => simpa using ih hrest hfilled'

end Allocation

/-! ## What comes after the sweep -/

/-- The defects that the sweep reports. -/
def CheckFailure.IsOfSweep : CheckFailure → Prop
  | .defect (.uncovered _ _) => True
  | .defect (.shared _ _) => True
  | _ => False

/-- A part of a check that reports no defect of the sweep. -/
def Beyond {α : Type} (result : Except CheckFailure α) : Prop :=
  ∀ failure, result = .error failure → ¬ failure.IsOfSweep

namespace Beyond

variable {α β ε : Type}

theorem ok (a : α) : Beyond (.ok a) := by simp [Beyond]

theorem error {failure : CheckFailure} (h : ¬ failure.IsOfSweep) :
    Beyond (.error failure : Except CheckFailure α) := by
  rintro _ ⟨⟩
  exact h

/-- A check in two parts is beyond the sweep if both parts are. -/
theorem bind {x : Except CheckFailure α} {f : α → Except CheckFailure β} (hx : Beyond x)
    (hf : ∀ a, Beyond (f a)) : Beyond (x >>= f) := by
  cases x with
  | ok a => exact hf a
  | error failure => exact error (hx failure rfl)

theorem mapError {x : Except ε α} {f : ε → CheckFailure} (h : ∀ e, ¬ (f e).IsOfSweep) :
    Beyond (x.mapError f) := by
  cases x with
  | ok a => exact ok a
  | error e => exact error (h e)

theorem lift (x : Except Fault α) : Beyond (CheckFailure.lift x) :=
  mapError fun _ => id

/-- A check of every element is beyond the sweep if each check is. -/
theorem forM {xs : List α} {f : α → Except CheckFailure Unit} (h : ∀ x, Beyond (f x)) :
    Beyond (xs.forM f) := by
  induction xs with
  | nil => exact ok _
  | cons x xs ih => exact (h x).bind fun _ => ih

end Beyond

namespace Allocation

variable {u : CodeUnit} {pieces : List Piece} {placement : Placement}

/-- The check of arguments is beyond the sweep. -/
theorem beyond_checkArguments (register : Register) (vs : List ValueId) :
    Beyond (checkArguments u placement register vs) := by
  induction vs generalizing register with
  | nil => exact .ok _
  | cons v vs ih =>
    refine (Beyond.lift _).bind fun found => ?_
    split
    · exact .error id
    · exact ih _

/-- The check of pinned values is beyond the sweep. -/
theorem beyond_checkPinned (vs : List ValueId) : Beyond (checkPinned u pieces vs) := by
  induction vs with
  | nil => exact .ok _
  | cons v vs ih =>
    rw [checkPinned]
    split
    · refine (Beyond.lift _).bind fun needs => ?_
      split
      · split
        · exact .error id
        · exact ih
      · exact ih
    · exact ih

theorem beyond_checkRow (number : Int64) (register : Register) (vs : List ValueId) :
    Beyond (checkRow u placement number register vs) := by
  induction vs generalizing register with
  | nil => exact .ok _
  | cons v vs ih =>
    refine (Beyond.lift _).bind fun found => ?_
    split
    · exact .error id
    · exact ih _

/-- The check of ranges is beyond the sweep. -/
theorem beyond_checkRanges (is : List InstrId) : Beyond (checkRanges u placement is) := by
  induction is with
  | nil => exact .ok _
  | cons i is ih =>
    rw [checkRanges]
    split
    · split
      · exact (Beyond.lift _).bind fun register => (beyond_checkRow _ _ _).bind fun _ => ih
      · exact ih
    · exact ih

/-- The check of a copy is beyond the sweep. -/
theorem beyond_checkCopy (file : RegisterFile) (copy : Copy) :
    Beyond (checkCopy u pieces file copy) := by
  refine (Beyond.lift _).bind fun needs => ?_
  have harrival : ∀ source, Beyond (do
      let register ← (registerAt u pieces copy.target copy.position).mapError .failure
      (checkArrival u file copy.source (.ofRegister u.pool copy.source source) register).mapError
        fun defect => CheckFailure.defect (.moves copy.position defect)) := fun source =>
    (Beyond.mapError fun _ => id).bind fun register => Beyond.mapError fun _ => id
  split
  · exact (Beyond.mapError fun _ => id).bind harrival
  · exact harrival _

/-- The check of moves is beyond the sweep. -/
theorem beyond_checkMoves (temporary : Register) (set : MoveSet) :
    Beyond (checkMoves u pieces temporary set) := by
  rw [checkMoves]
  split
  · exact .error id
  · refine (Beyond.forM fun v => Beyond.mapError fun _ => id).bind fun _ => ?_
    exact Beyond.forM fun copy => beyond_checkCopy _ copy

end Allocation

namespace Allocator

/-- A check gets past the sweep: it finds neither a gap nor a shared slot. -/
def PassesSweep (allocator : Allocator) (u : CodeUnit) : Prop := Beyond (allocator.check u)

/-- A check is the sweep and something that reports no defect of the sweep. -/
theorem check_eq {allocator : Allocator} (u : CodeUnit) {allocation : Allocation}
    (hallocation : allocator.allocation = some allocation) :
    ∃ rest : Except CheckFailure Unit, Beyond rest ∧
      allocator.check u = (Allocation.checkValues u allocation.pieces u.values >>= fun own =>
        (Allocation.checkSharing u.pool (Allocation.byStart own)).mapError .defect >>= fun _ =>
          rest) := by
  refine ⟨_, ?_, by rw [check, get, hallocation]; rfl⟩
  refine (Allocation.beyond_checkArguments _ _).bind fun _ => ?_
  refine (Allocation.beyond_checkPinned _).bind fun _ => ?_
  refine (Allocation.beyond_checkRanges _).bind fun _ => ?_
  exact Beyond.forM fun set => Allocation.beyond_checkMoves _ set

/-- **The sweep is exact.** A check of any pieces, none of them empty, gets past the sweep if and
only if the pieces of each value that needs a register tile its live interval, and no two different
ones take a slot at the same position. -/
theorem passesSweep_iff {allocator : Allocator} {u : CodeUnit} {allocation : Allocation}
    (hallocation : allocator.allocation = some allocation) (hvalues : u.values.Nodup)
    (hneeds : ∀ v ∈ u.values, ∃ needs, u.pool.needsRegister v = .ok needs)
    (hfilled : ∀ piece ∈ allocation.pieces, u.Needy piece.value → piece.start < piece.stop)
    (hclose : ∀ piece ∈ allocation.pieces, ∀ other ∈ allocation.pieces, u.Needy piece.value →
      u.Needy other.value → piece.start.toInt - other.start.toInt < 2 ^ 63) :
    allocator.PassesSweep u ↔
      (∀ v, u.Needy v →
        Piece.Tiles (u.value v).start (u.value v).stop (Piece.ofValue allocation.pieces v)) ∧
      ∀ piece ∈ allocation.pieces, ∀ other ∈ allocation.pieces, u.Needy piece.value →
        u.Needy other.value → piece ≠ other → ¬ piece.Clash u.pool other := by
  obtain ⟨rest, hbeyond, hcheck⟩ := check_eq u hallocation
  have htiles : (∀ v, u.Needy v → Piece.Tiles (u.value v).start (u.value v).stop
      (Piece.ofValue allocation.pieces v)) ↔
      ∀ v ∈ u.values, Allocation.Covered u allocation.pieces v := by
    simp [CodeUnit.Needy, Allocation.Covered, and_imp]
  rw [PassesSweep, hcheck, htiles]
  obtain ⟨hcovered, own, hown, hnodup, hmem⟩ | ⟨hbad, value, position, herror⟩ :=
    Allocation.checkValues_spec hvalues hneeds fun piece hpiece hv hneed =>
      hfilled piece hpiece ⟨hv, hneed⟩
  · rw [hown]
    have hown' : ∀ piece ∈ own, piece ∈ allocation.pieces ∧ u.Needy piece.value :=
      fun piece hpiece => (hmem piece).mp hpiece
    have hstarts : ∀ piece ∈ own, ∀ other ∈ own,
        piece.start.toInt - other.start.toInt < 2 ^ 63 := fun piece hpiece other hother =>
      hclose piece (hown' piece hpiece).1 other (hown' other hother).1 (hown' piece hpiece).2
        (hown' other hother).2
    have hperm : (Allocation.byStart own).Perm own := stableSortByKey_perm hstarts
    have hordered : (Allocation.byStart own).Pairwise (·.start ≤ ·.start) :=
      stableSortByKey_ordered hstarts
    -- That no two pieces clash does not depend on their order.
    have hapart : (Allocation.byStart own).Pairwise
        (fun piece other => ¬ piece.Clash u.pool other) ↔
        ∀ piece ∈ allocation.pieces, ∀ other ∈ allocation.pieces, u.Needy piece.value →
          u.Needy other.value → piece ≠ other → ¬ piece.Clash u.pool other := by
      constructor
      · intro h piece hpiece other hother hneed hneed' hne
        exact h.forall (hperm.mem_iff.mpr ((hmem piece).mpr ⟨hpiece, hneed⟩))
          (hperm.mem_iff.mpr ((hmem other).mpr ⟨hother, hneed'⟩)) hne
      · intro h
        refine (hperm.nodup_iff.mpr hnodup).pairwise_of_forall_ne
          fun piece hpiece other hother => ?_
        obtain ⟨hpiece, hneed⟩ := hown' piece (hperm.mem_iff.mp hpiece)
        obtain ⟨hother, hneed'⟩ := hown' other (hperm.mem_iff.mp hother)
        exact h piece hpiece other hother hneed hneed'
    have hfilled' : ∀ piece ∈ Allocation.byStart own, piece.start < piece.stop :=
      fun piece hpiece => by
        obtain ⟨hpiece, hneed⟩ := hown' piece (hperm.mem_iff.mp hpiece)
        exact hfilled piece hpiece hneed
    rw [← hapart]
    show Beyond ((Allocation.checkSharing u.pool (Allocation.byStart own)).mapError .defect
      >>= fun _ => rest) ↔ _
    obtain ⟨hpairwise, hsharing⟩ | ⟨hbad, first, second, hsharing⟩ :=
      Allocation.checkSharing_spec u.pool hordered hfilled'
    · rw [hsharing]
      exact iff_of_true hbeyond ⟨hcovered, hpairwise⟩
    · rw [hsharing]
      exact iff_of_false (fun h => h _ rfl trivial) fun h => hbad h.2
  · rw [herror]
    exact iff_of_false (fun h => h _ rfl trivial) fun h => hbad h.1

/-- A wide value that changes its registers at 3, one that ends, and one that starts, at 4. -/
def relayed : CodeUnit where
  name := "relayed"
  pool := {
    values := #[
      { number := 0, name := "a", type := .wide, start := 1, stop := 6 },
      { number := 1, name := "b", type := .single, start := 2, stop := 4 },
      { number := 2, name := "c", type := .object, start := 4, stop := 8 }] }
  values := [0, 1, 2]

/-- An allocation in which `c` is in the given register. -/
def relayedWith (register : Register) : Allocation where
  pieces := [⟨0, 1, 3, 0⟩, ⟨1, 2, 4, 2⟩, ⟨0, 3, 6, 4⟩, ⟨2, 4, 8, register⟩]
  moveSets := []
  temporary := 6
  registersUsed := 6

theorem passesSweep_iff_relayed :
    (∃ allocator : Allocator, allocator.allocation = some (relayedWith 2) ∧
      allocator.check relayed = .ok () ∧
      Piece.Tiles 1 6 [⟨0, 1, 3, 0⟩, ⟨0, 3, 6, 4⟩] ∧
      ¬ Piece.Clash relayed.pool ⟨0, 3, 6, 4⟩ ⟨2, 4, 8, 2⟩) ∧
    ∃ allocator : Allocator, allocator.allocation = some (relayedWith 5) ∧
      Piece.Clash relayed.pool ⟨0, 3, 6, 4⟩ ⟨2, 4, 8, 5⟩ ∧ ¬ allocator.PassesSweep relayed := by
  have hneeds : ∀ v ∈ relayed.values, relayed.pool.needsRegister v = .ok true := by decide
  have hfilled : ∀ register, ∀ piece ∈ (relayedWith register).pieces, piece.start < piece.stop := by
    intro register
    simp only [relayedWith, List.forall_mem_cons]
    decide
  have hclose : ∀ register, ∀ piece ∈ (relayedWith register).pieces,
      ∀ other ∈ (relayedWith register).pieces,
        piece.start.toInt - other.start.toInt < 2 ^ 63 := by
    intro register
    simp only [relayedWith, List.forall_mem_cons]
    decide
  have hexact := fun register => @passesSweep_iff { allocation := some (relayedWith register) }
    relayed (relayedWith register) rfl (by decide) (fun v hv => ⟨_, hneeds v hv⟩)
    (fun piece hpiece _ => hfilled register piece hpiece)
    (fun piece hpiece other hother _ _ => hclose register piece hpiece other hother)
  have hcheck : ({ allocation := some (relayedWith 2) } : Allocator).check relayed = .ok () := by
    decide +kernel
  have hclash : Piece.Clash relayed.pool ⟨0, 3, 6, 4⟩ ⟨2, 4, 8, 5⟩ :=
    ⟨4, rfl, rfl, 5, by decide, by decide⟩
  have hpasses : ({ allocation := some (relayedWith 2) } : Allocator).PassesSweep relayed := by
    rw [PassesSweep, hcheck]
    exact .ok _
  obtain ⟨htiles, hapart⟩ := (hexact 2).mp hpasses
  refine ⟨⟨_, rfl, hcheck, htiles 0 ⟨by decide, hneeds 0 (by decide)⟩, ?_⟩,
    { allocation := some (relayedWith 5) }, rfl, hclash, ?_⟩
  · exact hapart _ (by decide) _ (by decide) ⟨by decide, hneeds 0 (by decide)⟩
      ⟨by decide, hneeds 2 (by decide)⟩ (by decide)
  · exact fun h => ((hexact 5).mp h).2 _ (by decide) _ (by decide)
      ⟨by decide, hneeds 0 (by decide)⟩ ⟨by decide, hneeds 2 (by decide)⟩ (by decide) hclash

end Allocator
end RegisterAllocation
