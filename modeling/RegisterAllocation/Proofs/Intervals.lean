import RegisterAllocation.Proofs.Building
import Mathlib.Order.Bounds.Basic

/-!
# Computed live intervals

A value without an interval gets one that spans what happens to it: from its first definition
through its last definition or read (`CodeUnit.Spans`). Only a value that nothing defines cannot get
one.

The beginnings and ends are collected on three walks, over the arguments, the instructions and the
copies. `CodeUnit.Extents.Tracks` says what is known after a part of them: the least of the
definitions and the greatest of all positions that have been met. One update keeps this, so the
walks do, and `CodeUnit.extents_starts` and `CodeUnit.extents_ends` say what is known in the end.
`CodeUnit.Filling` says what going through a list of values does then, and the main result is
`CodeUnit.computeIntervals_exact`.
-/

namespace RegisterAllocation

/-! ## Positions -/

/-- A position with positions on both sides of it. -/
def Position.IsInner (position : Position) : Prop :=
  position ≠ Int64.minValue ∧ position ≠ Int64.maxValue

instance (position : Position) : Decidable position.IsInner :=
  inferInstanceAs (Decidable (_ ∧ _))

instance : Std.LawfulOrderMax Position where
  max_eq_or position other := by
    rw [show max position other = if position ≤ other then other else position from rfl]
    split <;> grind
  max_le_iff position other bound := by
    rw [show max position other = if position ≤ other then other else position from rfl]
    split <;> grind

/-- Positions count like numbers before the last one. -/
theorem Position.toInt_add_one {position : Position} (h : position ≠ Int64.maxValue) :
    (position + 1).toInt = position.toInt + 1 := by
  have hlow := Int64.le_toInt position
  have hhigh := Int64.toInt_lt position
  have hmax : position.toInt ≠ 2 ^ 63 - 1 := by
    intro heq
    exact h (Int64.toInt_inj.mp (heq.trans (by decide)))
  rw [Int64.toInt_add, show (1 : Int64).toInt = 1 by decide]
  exact Int.bmod_eq_of_le (by omega) (by omega)

/-- The position before another is not the last. -/
theorem Position.sub_one_ne_maxValue {position : Position} (h : position ≠ Int64.minValue) :
    position - 1 ≠ Int64.maxValue := by
  intro heq
  apply h
  rw [show position = position - 1 + 1 by grind, heq]
  decide

/-- An interval that has positions can be set. -/
theorem Pool.exists_setInterval (pool : Pool) (v : ValueId) {start stop : Position}
    (h : start < stop) : ∃ next, pool.setInterval v start stop = .ok next := by
  rw [Pool.setInterval, Value.setInterval, if_neg (Int64.not_le.mpr h)]
  exact ⟨_, rfl⟩

namespace CodeUnit

variable {u next : CodeUnit} {v w : ValueId} {position : Position}

/-! ## Events -/

/-- Where a value is defined: arguments at zero, outputs at their instructions, and the targets of
copies at the copies. -/
inductive DefinesAt (u : CodeUnit) (v : ValueId) : Position → Prop
  | argument (hv : v ∈ u.arguments) : DefinesAt u v 0
  | output {i : InstrId} (hi : i ∈ u.instrs) (hout : (u.instr i).out = some v) :
    DefinesAt u v (u.instr i).number
  | target {copy : Copy} (hcopy : copy ∈ u.copies) (htarget : copy.target = v) :
    DefinesAt u v copy.position

/-- Where a value is read: inputs at their instructions, and the sources of copies just before the
copies. -/
inductive ReadsAt (u : CodeUnit) (v : ValueId) : Position → Prop
  | input {i : InstrId} (hi : i ∈ u.instrs) (hv : v ∈ (u.instr i).inputs) :
    ReadsAt u v (u.instr i).number
  | source {copy : Copy} (hcopy : copy ∈ u.copies) (hsource : copy.source = v) :
    ReadsAt u v (copy.position - 1)

/-- The interval from `start` to `stop` spans all that happens to a value from its first definition
on. -/
structure Spans (u : CodeUnit) (v : ValueId) (start stop : Position) : Prop where
  first : IsLeast {position | u.DefinesAt v position} start
  last : ∃ last, IsGreatest {position | u.DefinesAt v position ∨ u.ReadsAt v position} last ∧
    stop.toInt = last.toInt + 1

/-- Where values are read, as a list. -/
def reads (u : CodeUnit) : List (ValueId × Position) :=
  u.instrs.flatMap (fun i => (u.instr i).inputs.map (·, (u.instr i).number))
    ++ u.copies.map fun copy => (copy.source, copy.position - 1)

/-- The positions that belong to a value. -/
def positionsOf (v : ValueId) (events : List (ValueId × Position)) : List Position :=
  events.filterMap fun (w, position) => if w = v then some position else none

def firstDefinition? (u : CodeUnit) (v : ValueId) : Option Position :=
  (positionsOf v u.definitions).min?

/-- The position after the last definition or read of a value. -/
def lastEvent? (u : CodeUnit) (v : ValueId) : Option Position :=
  ((positionsOf v (u.definitions ++ u.reads)).map (· + 1)).max?

/-- The positions of a value are those of its events. -/
theorem mem_positionsOf {events : List (ValueId × Position)} :
    position ∈ positionsOf v events ↔ (v, position) ∈ events := by
  simp only [positionsOf, List.mem_filterMap]
  constructor
  · rintro ⟨⟨w, other⟩, hmem, heq⟩
    dsimp only at heq
    split at heq
    · next hw =>
      cases heq
      exact hw ▸ hmem
    · cases heq
  · exact fun hmem => ⟨(v, position), hmem, by simp⟩

/-- The definitions of a unit are where it defines values. -/
theorem mem_definitions : (v, position) ∈ u.definitions ↔ u.DefinesAt v position := by
  simp only [definitions, List.mem_append, List.mem_map, List.mem_filterMap]
  constructor
  · rintro ((⟨w, hw, heq⟩ | ⟨i, hi, heq⟩) | ⟨copy, hcopy, heq⟩)
    · cases heq
      exact .argument hw
    · obtain ⟨w, hout, heq⟩ := Option.map_eq_some_iff.mp heq
      cases heq
      exact .output hi hout
    · cases heq
      exact .target hcopy rfl
  · rintro (hv | ⟨hi, hout⟩ | ⟨hcopy, rfl⟩)
    · exact .inl (.inl ⟨v, hv, rfl⟩)
    · exact .inl (.inr ⟨_, hi, by rw [hout]; rfl⟩)
    · exact .inr ⟨_, hcopy, rfl⟩

/-- The reads of a unit are where it reads values. -/
theorem mem_reads : (v, position) ∈ u.reads ↔ u.ReadsAt v position := by
  simp only [reads, List.mem_append, List.mem_map, List.mem_flatMap]
  constructor
  · rintro (⟨i, hi, w, hw, heq⟩ | ⟨copy, hcopy, heq⟩)
    · cases heq
      exact .input hi hw
    · cases heq
      exact .source hcopy rfl
  · rintro (⟨hi, hv⟩ | ⟨hcopy, rfl⟩)
    · exact .inl ⟨_, hi, v, hv, rfl⟩
    · exact .inr ⟨_, hcopy, rfl⟩

/-- The first definition of a value is the least position at which it is defined. -/
theorem firstDefinition?_eq_some {start : Position} :
    u.firstDefinition? v = some start ↔ IsLeast {position | u.DefinesAt v position} start := by
  rw [firstDefinition?, List.min?_eq_some_iff]
  simp only [mem_positionsOf, mem_definitions]
  rfl

/-- There is no first definition of a value that is never defined. -/
theorem firstDefinition?_eq_none :
    u.firstDefinition? v = none ↔ ∀ position, ¬ u.DefinesAt v position := by
  rw [firstDefinition?, List.min?_eq_none_iff, List.eq_nil_iff_forall_not_mem]
  simp only [mem_positionsOf, mem_definitions]

/-- The last event of a value ends right after the last position at which it is defined or read. -/
theorem lastEvent?_eq_some {stop : Position} :
    u.lastEvent? v = some stop ↔
      (∃ last, (u.DefinesAt v last ∨ u.ReadsAt v last) ∧ last + 1 = stop) ∧
        ∀ position, u.DefinesAt v position ∨ u.ReadsAt v position → position + 1 ≤ stop := by
  rw [lastEvent?, List.max?_eq_some_iff]
  simp only [List.mem_map, mem_positionsOf, List.mem_append, mem_definitions, mem_reads,
    forall_exists_index, and_imp, forall_apply_eq_imp_iff₂]

/-- A value that is defined has a last event. -/
theorem DefinesAt.exists_lastEvent? (h : u.DefinesAt v position) :
    ∃ stop, u.lastEvent? v = some stop := by
  have hmem : position ∈ positionsOf v (u.definitions ++ u.reads) :=
    mem_positionsOf.mpr (List.mem_append_left _ (mem_definitions.mpr h))
  cases hlast : u.lastEvent? v with
  | some stop => exact ⟨stop, rfl⟩
  | none =>
    rw [lastEvent?, List.max?_eq_none_iff, List.map_eq_nil_iff] at hlast
    rw [hlast] at hmem
    cases hmem

/-! ## The walks -/

/-- One more event adds its position to its own value. -/
theorem positionsOf_concat (v w : ValueId) (position : Position)
    (events : List (ValueId × Position)) :
    positionsOf v (events ++ [(w, position)]) =
      if w = v then positionsOf v events ++ [position] else positionsOf v events := by
  split
  · next h => simp [positionsOf, h]
  · next h => simp [positionsOf, h]

/-- A further position counts if it is less than the least one. -/
theorem min?_concat (xs : List Position) (x : Position) :
    (xs ++ [x]).min? = if xs.min?.all (x < ·) then some x else xs.min? := by
  cases xs with
  | nil => rfl
  | cons y ys =>
    have hmin : ∀ a b : Position, min a b = if a ≤ b then a else b := fun _ _ => rfl
    rw [List.cons_append, List.min?_cons', List.min?_cons', List.foldl_append]
    simp only [List.foldl_cons, List.foldl_nil, Option.all_some, decide_eq_true_eq, hmin]
    split <;> grind

/-- A further position counts if it is greater than the greatest one. -/
theorem max?_concat (xs : List Position) (x : Position) :
    (xs ++ [x]).max? = if xs.max?.all (· < x) then some x else xs.max? := by
  cases xs with
  | nil => rfl
  | cons y ys =>
    have hmax : ∀ a b : Position, max a b = if a ≤ b then b else a := fun _ _ => rfl
    rw [List.cons_append, List.max?_cons', List.max?_cons', List.foldl_append]
    simp only [List.foldl_cons, List.foldl_nil, Option.all_some, decide_eq_true_eq, hmax]
    split <;> grind

/-- The greatest element depends on the members only. -/
theorem max?_congr {xs ys : List Position} (h : ∀ x, x ∈ xs ↔ x ∈ ys) : xs.max? = ys.max? := by
  refine Option.ext fun x => ?_
  rw [List.max?_eq_some_iff, List.max?_eq_some_iff, h]
  simp only [h]

namespace Extents

/-- What is known when the definitions `defined`, and all in all the positions `met`, have been gone
through. -/
structure Tracks (extents : Extents) (defined met : List (ValueId × Position)) : Prop where
  starts : ∀ v, extents.starts.get? v = (positionsOf v defined).min?
  ends : ∀ v, extents.ends.get? v = ((positionsOf v met).map (· + 1)).max?

namespace Tracks

variable {extents : Extents} {defined met : List (ValueId × Position)}

theorem empty : Tracks {} [] [] := ⟨fun _ => rfl, fun _ => rfl⟩

/-- Extending the interval of a value keeps track of one more event. -/
theorem extend (h : extents.Tracks defined met) (v : ValueId) (position : Position) :
    (extents.extend v position).Tracks defined (met ++ [(v, position)]) := by
  constructor
  · intro w
    unfold Extents.extend
    split <;> exact h.starts w
  · intro w
    have hw := h.ends w
    rw [positionsOf_concat]
    by_cases hvw : v = w
    · subst hvw
      rw [if_pos rfl, List.map_append, List.map_singleton, max?_concat, ← hw, Extents.extend]
      split <;> simp
    · rw [if_neg hvw, ← hw, Extents.extend]
      split <;> simp [hvw]

/-- Beginning the interval of a value keeps track of one more definition. -/
theorem begin (h : extents.Tracks defined met) (v : ValueId) (position : Position) :
    (extents.begin v position).Tracks (defined ++ [(v, position)]) (met ++ [(v, position)]) := by
  have hbegun : Tracks (if (extents.starts.get? v).all (position < ·) then
      { extents with starts := extents.starts.set v position } else extents)
      (defined ++ [(v, position)]) met := by
    constructor
    · intro w
      have hw := h.starts w
      rw [positionsOf_concat]
      by_cases hvw : v = w
      · subst hvw
        rw [if_pos rfl, min?_concat, ← hw]
        split <;> simp
      · rw [if_neg hvw, ← hw]
        split <;> simp [hvw]
    · intro w
      rw [← h.ends w]
      split <;> rfl
  exact hbegun.extend v position

/-- The walk over the arguments. -/
theorem arguments (h : extents.Tracks defined met) (vs : List ValueId) :
    (vs.foldl (fun extents v => extents.begin v 0) extents).Tracks
      (defined ++ vs.map (·, 0)) (met ++ vs.map (·, 0)) := by
  induction vs generalizing extents defined met with
  | nil => simpa using h
  | cons v vs ih => simpa using ih (h.begin v 0)

/-- The inputs of an instruction are events of its position. -/
theorem inputs (h : extents.Tracks defined met) (vs : List ValueId) (position : Position) :
    (vs.foldl (fun extents v => extents.extend v position) extents).Tracks
      defined (met ++ vs.map (·, position)) := by
  induction vs generalizing extents met with
  | nil => simpa using h
  | cons v vs ih => simpa using ih (h.extend v position)

/-- An instruction is walked through with its output and its inputs. -/
theorem addInstr (h : extents.Tracks defined met) (instr : Instruction) :
    (extents.addInstr instr).Tracks (defined ++ (instr.out.map (·, instr.number)).toList)
      (met ++ (instr.out.toList ++ instr.inputs).map (·, instr.number)) := by
  unfold Extents.addInstr
  cases instr.out with
  | none => simpa using h.inputs instr.inputs instr.number
  | some v => simpa using (h.begin v instr.number).inputs instr.inputs instr.number

/-- The walk over the instructions. -/
theorem instrs (h : extents.Tracks defined met) (u : CodeUnit) (is : List InstrId) :
    (is.foldl (fun extents i => extents.addInstr (u.instr i)) extents).Tracks
      (defined ++ is.filterMap fun i => (u.instr i).out.map (·, (u.instr i).number))
      (met ++ is.flatMap fun i =>
        ((u.instr i).out.toList ++ (u.instr i).inputs).map (·, (u.instr i).number)) := by
  induction is generalizing extents defined met with
  | nil => simpa using h
  | cons i is ih =>
    have hnext := ih (h.addInstr (u.instr i))
    cases hout : (u.instr i).out <;> simpa [hout] using hnext

/-- The walk over the copies. -/
theorem copies (h : extents.Tracks defined met) (copies : List Copy) :
    (copies.foldl Extents.addCopy extents).Tracks
      (defined ++ copies.map fun copy => (copy.target, copy.position))
      (met ++ copies.flatMap fun copy =>
        [(copy.source, copy.position - 1), (copy.target, copy.position)]) := by
  induction copies generalizing extents defined met with
  | nil => simpa using h
  | cons copy copies ih =>
    have hcopy : (extents.addCopy copy).Tracks _ _ :=
      (h.extend copy.source (copy.position - 1)).begin copy.target copy.position
    simpa using ih hcopy

end Tracks
end Extents

/-- All that happens to values, in the order of the walks. -/
def events (u : CodeUnit) : List (ValueId × Position) :=
  u.arguments.map (·, 0)
    ++ u.instrs.flatMap (fun i =>
      ((u.instr i).out.toList ++ (u.instr i).inputs).map (·, (u.instr i).number))
    ++ u.copies.flatMap fun copy =>
      [(copy.source, copy.position - 1), (copy.target, copy.position)]

/-- The events of a unit are where it defines or reads values. -/
theorem mem_events : (v, position) ∈ u.events ↔ u.DefinesAt v position ∨ u.ReadsAt v position := by
  simp only [events, List.mem_append, List.mem_map, List.mem_flatMap, List.mem_cons,
    Option.mem_toList, List.not_mem_nil, or_false]
  constructor
  · rintro ((⟨w, hw, heq⟩ | ⟨i, hi, w, hw | hw, heq⟩) | ⟨copy, hcopy, heq | heq⟩)
    · cases heq
      exact .inl (.argument hw)
    · cases heq
      exact .inl (.output hi hw)
    · cases heq
      exact .inr (.input hi hw)
    · cases heq
      exact .inr (.source hcopy rfl)
    · cases heq
      exact .inl (.target hcopy rfl)
  · rintro ((hv | ⟨hi, hout⟩ | ⟨hcopy, rfl⟩) | (⟨hi, hv⟩ | ⟨hcopy, rfl⟩))
    · exact .inl (.inl ⟨v, hv, rfl⟩)
    · exact .inl (.inr ⟨_, hi, v, .inl hout, rfl⟩)
    · exact .inr ⟨_, hcopy, .inr rfl⟩
    · exact .inl (.inr ⟨_, hi, v, .inr hv, rfl⟩)
    · exact .inr ⟨_, hcopy, .inl rfl⟩

/-- The three walks keep track of all definitions and all events of the unit. -/
theorem tracks_extents (u : CodeUnit) : u.extents.Tracks u.definitions u.events := by
  have htracks := ((Extents.Tracks.empty.arguments u.arguments).instrs u u.instrs).copies u.copies
  rwa [List.nil_append] at htracks

/-- After the three walks, a value begins at its first definition. -/
theorem extents_starts (u : CodeUnit) (v : ValueId) :
    u.extents.starts.get? v = u.firstDefinition? v :=
  u.tracks_extents.starts v

/-- After the three walks, a value ends after its last definition or read. -/
theorem extents_ends (u : CodeUnit) (v : ValueId) : u.extents.ends.get? v = u.lastEvent? v := by
  refine (u.tracks_extents.ends v).trans (max?_congr fun position => ?_)
  simp only [List.mem_map, mem_positionsOf, mem_events, List.mem_append, mem_definitions, mem_reads]

/-! ## Units without positions at the ends of the range -/

/-- No instruction and no copy stands at an end of the range of positions. -/
structure Inner (u : CodeUnit) : Prop where
  instrs : ∀ i ∈ u.instrs, Position.IsInner (u.instr i).number
  copies : ∀ copy ∈ u.copies, Position.IsInner copy.position

/-- Within a unit nothing happens at the last position. -/
theorem Inner.ne_maxValue (hinner : u.Inner) (h : u.DefinesAt v position ∨ u.ReadsAt v position) :
    position ≠ Int64.maxValue := by
  rcases h with (hv | ⟨hi, hout⟩ | ⟨hcopy, htarget⟩) | (⟨hi, hv⟩ | ⟨hcopy, hsource⟩)
  · decide
  · exact (hinner.instrs _ hi).2
  · exact (hinner.copies _ hcopy).2
  · exact (hinner.instrs _ hi).2
  · exact Position.sub_one_ne_maxValue (hinner.copies _ hcopy).1

/-- The position after the last event is one more than the last event. -/
theorem Inner.isGreatest (hinner : u.Inner) {stop : Position} (hstop : u.lastEvent? v = some stop) :
    ∃ last, IsGreatest {position | u.DefinesAt v position ∨ u.ReadsAt v position} last ∧
      stop.toInt = last.toInt + 1 := by
  obtain ⟨⟨last, hlast, rfl⟩, hbound⟩ := lastEvent?_eq_some.mp hstop
  have hnext := Position.toInt_add_one (hinner.ne_maxValue hlast)
  refine ⟨last, ⟨hlast, fun position hposition => ?_⟩, hnext⟩
  have hle := Int64.le_iff_toInt_le.mp (hbound position hposition)
  rw [hnext, Position.toInt_add_one (hinner.ne_maxValue hposition)] at hle
  exact Int64.le_iff_toInt_le.mpr (by omega)

/-- The first definition and the last event span the interval of a value. -/
theorem Inner.spans (hinner : u.Inner) {start stop : Position}
    (hstart : u.firstDefinition? v = some start) (hstop : u.lastEvent? v = some stop) :
    u.Spans v start stop :=
  ⟨firstDefinition?_eq_some.mp hstart, hinner.isGreatest hstop⟩

namespace Spans

variable {start stop : Position}

/-- Everything that happens to a value happens before its interval stops. -/
theorem lt_stop (h : u.Spans v start stop) (hat : u.DefinesAt v position ∨ u.ReadsAt v position) :
    position < stop := by
  obtain ⟨last, hlast, hstop⟩ := h.last
  have hle := Int64.le_iff_toInt_le.mp (hlast.2 hat)
  exact Int64.lt_iff_toInt_lt.mpr (by omega)

theorem start_lt_stop (h : u.Spans v start stop) : start < stop := h.lt_stop (.inl h.first.1)

/-- A value is live at its events from its first definition on. -/
theorem liveAt_iff (h : u.Spans v start stop) {value : Value}
    (hat : u.DefinesAt v position ∨ u.ReadsAt v position) :
    { value with start, stop }.liveAt position = true ↔ start ≤ position := by
  simp [Value.liveAt, h.lt_stop hat]

end Spans

/-! ## Filling in the intervals -/

/-- Two units with the same code: they differ at most in what is recorded about their values. -/
structure SameCode (u next : CodeUnit) : Prop where
  unit : next = { u with pool := next.pool }
  instrs : next.pool.instrs = u.pool.instrs
  size : next.pool.values.size = u.pool.values.size

namespace SameCode

theorem refl : u.SameCode u := ⟨rfl, rfl, rfl⟩

theorem trans {last : CodeUnit} (h : u.SameCode next) (hlast : next.SameCode last) :
    u.SameCode last where
  unit := by rw [hlast.unit, h.unit]
  instrs := hlast.instrs.trans h.instrs
  size := hlast.size.trans h.size

/-- The instructions stay. -/
theorem instr_eq (h : u.SameCode next) (i : InstrId) : next.instr i = u.instr i := by
  simp only [instr, Pool.instr, h.instrs]

/-- The definitions stay. -/
theorem definitions_eq (h : u.SameCode next) : next.definitions = u.definitions := by
  simp only [definitions, h.instr_eq]
  rw [h.unit]

/-- Values are defined at the same positions. -/
theorem definesAt_iff (h : u.SameCode next) {position : Position} :
    next.DefinesAt v position ↔ u.DefinesAt v position := by
  rw [← mem_definitions, ← mem_definitions, h.definitions_eq]

/-- The reads stay. -/
theorem reads_eq (h : u.SameCode next) : next.reads = u.reads := by
  simp only [reads, h.instr_eq]
  rw [h.unit]

/-- The first definition of a value stays. -/
theorem firstDefinition?_eq (h : u.SameCode next) :
    next.firstDefinition? v = u.firstDefinition? v := by
  rw [firstDefinition?, firstDefinition?, h.definitions_eq]

/-- The last event of a value stays. -/
theorem lastEvent?_eq (h : u.SameCode next) : next.lastEvent? v = u.lastEvent? v := by
  rw [lastEvent?, lastEvent?, h.definitions_eq, h.reads_eq]

/-- Nothing happens at the last position either. -/
theorem inner (h : u.SameCode next) (hinner : u.Inner) : next.Inner where
  instrs i hi := by
    rw [h.instr_eq]
    rw [h.unit] at hi
    exact hinner.instrs i hi
  copies copy hcopy := by
    rw [h.unit] at hcopy
    exact hinner.copies copy hcopy

/-- Setting an interval does not change the code. -/
theorem setInterval {pool : Pool} {start stop : Position}
    (h : u.pool.setInterval v start stop = .ok pool) : u.SameCode { u with pool } := by
  obtain ⟨-, hinstrs, hsize, -⟩ := Pool.setInterval_spec h
  exact ⟨rfl, hinstrs, hsize⟩

end SameCode

/-- What going through the values `vs` makes of a unit: `fault` is about the first of them that has
no interval and no definition. Where there is none, each of them that had no interval got one, and
no other value changed. -/
structure Filling (u : CodeUnit) (vs : List ValueId) (filled : CodeUnit) (fault : Option Fault) :
    Prop where
  sameCode : u.SameCode filled
  lost : ∀ complaint, fault = some complaint →
    ∃ v ∈ vs, (u.value v).hasInterval = false ∧ u.firstDefinition? v = none ∧
      complaint = .neverDefined u.name (u.label v)
  kept : fault = none → ∀ v, v ∉ vs ∨ (u.value v).hasInterval = true → filled.value v = u.value v
  given : fault = none → ∀ v ∈ vs, (u.value v).hasInterval = false →
    ∃ start stop, u.firstDefinition? v = some start ∧ u.lastEvent? v = some stop ∧
      filled.value v = { u.value v with start, stop }

theorem Filling.nil : u.Filling [] u none where
  sameCode := .refl
  lost _ h := by cases h
  kept _ _ _ := rfl
  given _ _ h := by cases h

/-- A value that has an interval is passed over. -/
theorem Filling.skip {vs : List ValueId} {fault : Option Fault}
    (hv : (u.value v).hasInterval = true)
    (h : u.Filling vs next fault) : u.Filling (v :: vs) next fault where
  sameCode := h.sameCode
  lost complaint hcomplaint := by
    obtain ⟨w, hw, hrest⟩ := h.lost complaint hcomplaint
    exact ⟨w, .tail _ hw, hrest⟩
  kept hnone w hw := h.kept hnone w (hw.imp_left fun hw hmem => hw (.tail _ hmem))
  given hnone w hw hbare := by
    cases hw with
    | head => exact absurd hv (by rw [hbare]; decide)
    | tail _ hw => exact h.given hnone w hw hbare

/-- The value gets the interval that is set. -/
theorem value_setInterval_self {pool : Pool} {start stop : Position}
    (hsize : v < u.pool.values.size) (hpool : u.pool.setInterval v start stop = .ok pool) :
    { u with pool }.value v = { u.value v with start, stop } := by
  obtain ⟨-, -, -, hvalue⟩ := Pool.setInterval_spec hpool
  exact (hvalue v).trans (if_pos ⟨rfl, hsize⟩)

/-- No other value gets the interval that is set. -/
theorem value_setInterval_of_ne {pool : Pool} {start stop : Position} (hne : v ≠ w)
    (hpool : u.pool.setInterval v start stop = .ok pool) : { u with pool }.value w = u.value w := by
  obtain ⟨-, -, -, hvalue⟩ := Pool.setInterval_spec hpool
  exact (hvalue w).trans (if_neg fun h => hne h.1)

/-- A value without an interval gets the one from its first definition through its last event, and
is passed over from then on. -/
theorem Filling.fill {vs : List ValueId} {pool : Pool} {filled : CodeUnit} {fault : Option Fault}
    {start stop : Position} (hsize : v < u.pool.values.size) (hv : (u.value v).hasInterval = false)
    (hstart : u.firstDefinition? v = some start) (hstop : u.lastEvent? v = some stop)
    (hpool : u.pool.setInterval v start stop = .ok pool)
    (h : { u with pool }.Filling vs filled fault) : u.Filling (v :: vs) filled fault := by
  have hsame := SameCode.setInterval hpool
  have hself := value_setInterval_self hsize hpool
  constructor
  · exact hsame.trans h.sameCode
  · intro complaint hcomplaint
    obtain ⟨w, hw, hbare, hnever, hcase⟩ := h.lost complaint hcomplaint
    rw [hsame.firstDefinition?_eq] at hnever
    have hne : v ≠ w := by
      intro heq
      rw [← heq, hstart] at hnever
      cases hnever
    have hother := value_setInterval_of_ne hne hpool
    rw [hother] at hbare
    exact ⟨w, .tail _ hw, hbare, hnever,
      hcase.trans (congrArg (fun value => Fault.neverDefined u.name value.label) hother)⟩
  · intro hnone w hw
    have hne : v ≠ w := by
      intro heq
      rcases hw with hw | hw
      · exact hw (heq ▸ .head _)
      · rw [← heq, hv] at hw
        cases hw
    have hother := value_setInterval_of_ne hne hpool
    rw [← hother] at hw ⊢
    exact h.kept hnone w (hw.imp_left fun hw hmem => hw (.tail _ hmem))
  · intro hnone w hw hbare
    by_cases heq : v = w
    · -- if the value is listed again it has its interval by then
      subst heq
      have hdone : ({ u with pool }.value v).hasInterval = true := by
        rw [hself, Value.hasInterval]
        exact decide_eq_true (Pool.setInterval_spec hpool).1
      exact ⟨start, stop, hstart, hstop, (h.kept hnone v (.inr hdone)).trans hself⟩
    · have hother := value_setInterval_of_ne heq hpool
      have hmem : w ∈ vs := (List.mem_cons.mp hw).resolve_left (Ne.symm heq)
      rw [← hother] at hbare ⊢
      rw [← hsame.firstDefinition?_eq, ← hsame.lastEvent?_eq]
      exact h.given hnone w hmem hbare

/-- A value that nothing defines stops the filling. -/
theorem Filling.stop {vs : List ValueId} (hv : (u.value v).hasInterval = false)
    (hnever : u.firstDefinition? v = none) :
    u.Filling (v :: vs) u (some (.neverDefined u.name (u.label v))) where
  sameCode := .refl
  lost complaint h := by
    cases h
    exact ⟨v, .head _, hv, hnever, rfl⟩
  kept h := by cases h
  given h := by cases h

/-- The extents of a unit. -/
structure HasExtents (u : CodeUnit) (extents : Extents) : Prop where
  starts : ∀ v, extents.starts.get? v = u.firstDefinition? v
  ends : ∀ v, extents.ends.get? v = u.lastEvent? v

theorem hasExtents (u : CodeUnit) : u.HasExtents u.extents := ⟨u.extents_starts, u.extents_ends⟩

/-- The extents of a unit are those of every unit with the same code. -/
theorem SameCode.hasExtents {extents : Extents} (h : u.SameCode next)
    (hextents : u.HasExtents extents) : next.HasExtents extents where
  starts v := by rw [h.firstDefinition?_eq, hextents.starts]
  ends v := by rw [h.lastEvent?_eq, hextents.ends]

/-- Filling in intervals gives every value its extent, up to the first one that has none. -/
theorem fillIntervals_filling {extents : Extents} {vs : List ValueId} (hinner : u.Inner)
    (hextents : u.HasExtents extents) (hvs : ∀ v ∈ vs, v < u.pool.values.size) :
    u.Filling vs (u.fillIntervals extents vs).1 (u.fillIntervals extents vs).2 := by
  induction vs generalizing u with
  | nil => exact .nil
  | cons v vs ih =>
    have hrest : ∀ w ∈ vs, w < u.pool.values.size := fun w hw => hvs w (.tail _ hw)
    rw [fillIntervals]
    cases hv : (u.value v).hasInterval with
    | true => exact .skip hv (ih hinner hextents hrest)
    | false =>
      rw [hextents.starts, hextents.ends]
      cases hstart : u.firstDefinition? v with
      | none => exact .stop hv hstart
      | some start =>
        obtain ⟨stop, hstop⟩ := (firstDefinition?_eq_some.mp hstart).1.exists_lastEvent?
        have hspans := hinner.spans hstart hstop
        obtain ⟨pool, hpool⟩ := Pool.exists_setInterval u.pool v hspans.start_lt_stop
        -- the unit that the walk goes on in has the same code, so all events are where they were
        have hsame := SameCode.setInterval hpool
        simp only [hstop, Option.getD_some, hpool]
        exact .fill (hvs v (.head _)) hv hstart hstop hpool
          (ih (hsame.inner hinner) (hsame.hasExtents hextents) fun w hw => hsame.size ▸ hrest w hw)

/-! ## The computed intervals -/

/-- In a unit without positions at the ends of the range, computing the intervals fails exactly if
some value without an interval is never defined. Otherwise values with an interval keep it, and all
others get the interval that spans their events: they are live at each of their definitions, and at
each of their reads that does not come before the first definition. -/
theorem computeIntervals_exact (u : CodeUnit) (hinner : u.Inner)
    (hvalues : ∀ v ∈ u.values, v < u.pool.values.size) :
    (u.computeIntervals.2 ≠ none ↔
        ∃ v ∈ u.values, (u.value v).hasInterval = false ∧ ∀ position, ¬ u.DefinesAt v position) ∧
      (∀ fault, u.computeIntervals.2 = some fault →
        ∃ v ∈ u.values, (u.value v).hasInterval = false ∧ (∀ position, ¬ u.DefinesAt v position) ∧
          fault = .neverDefined u.name (u.label v)) ∧
      u.SameCode u.computeIntervals.1 ∧
      (u.computeIntervals.2 = none →
        (∀ v, v ∉ u.values ∨ (u.value v).hasInterval = true →
          u.computeIntervals.1.value v = u.value v) ∧
        ∀ v ∈ u.values, (u.value v).hasInterval = false →
          ∃ start stop, u.computeIntervals.1.value v = { u.value v with start, stop } ∧
            u.Spans v start stop ∧
            (∀ position, u.DefinesAt v position →
              (u.computeIntervals.1.value v).liveAt position = true) ∧
            ∀ position, u.ReadsAt v position →
              ((u.computeIntervals.1.value v).liveAt position = true ↔ start ≤ position)) := by
  have hfilling : u.Filling u.values u.computeIntervals.1 u.computeIntervals.2 :=
    fillIntervals_filling hinner u.hasExtents hvalues
  have hlost : ∀ fault, u.computeIntervals.2 = some fault →
      ∃ v ∈ u.values, (u.value v).hasInterval = false ∧ (∀ position, ¬ u.DefinesAt v position) ∧
        fault = .neverDefined u.name (u.label v) := by
    intro fault hfault
    obtain ⟨v, hv, hbare, hnever, hcase⟩ := hfilling.lost fault hfault
    exact ⟨v, hv, hbare, firstDefinition?_eq_none.mp hnever, hcase⟩
  refine ⟨⟨fun hne => ?_, ?_⟩, hlost, hfilling.sameCode, fun hnone => ⟨hfilling.kept hnone, ?_⟩⟩
  · obtain ⟨fault, hfault⟩ := Option.ne_none_iff_exists'.mp hne
    obtain ⟨v, hv, hbare, hnever, -⟩ := hlost fault hfault
    exact ⟨v, hv, hbare, hnever⟩
  · rintro ⟨v, hv, hbare, hnever⟩ hnone
    obtain ⟨start, _, hstart, -⟩ := hfilling.given hnone v hv hbare
    exact hnever start (firstDefinition?_eq_some.mp hstart).1
  · intro v hv hbare
    obtain ⟨start, stop, hstart, hstop, hgot⟩ := hfilling.given hnone v hv hbare
    have hspans := hinner.spans hstart hstop
    rw [hgot]
    exact ⟨start, stop, rfl, hspans,
      fun position hat => (hspans.liveAt_iff (.inl hat)).mpr (hspans.first.2 hat),
      fun position hat => hspans.liveAt_iff (.inr hat)⟩

/-- The value 2 is defined by two copies: by the one at 6 from the value 1, and before by the one at
4 from the argument. The value 3 has its interval already. -/
def merged : CodeUnit where
  name := "merged"
  pool :=
    { values := #[
        { number := 0, name := "a", type := .single, isArgument := true, uses := [0] },
        { number := 1, name := "b", type := .single, definition := some 0 },
        { number := 2, name := "c", type := .single, uses := [1] },
        { number := 3, name := "d", type := .single, start := 1, stop := 3 }]
      instrs := #[
        { number := 2, opcode := .add, numeric := some .int, out := some 1, inputs := [0, 0] },
        { number := 8, opcode := .ret, inputs := [2] }] }
  arguments := [0]
  instrs := [0, 1]
  values := [0, 1, 2, 3]
  copies := [⟨6, 1, 2⟩, ⟨4, 0, 2⟩]

theorem computeIntervals_exact_merged :
    merged.Inner ∧ (∀ v ∈ merged.values, v < merged.pool.values.size) ∧
      merged.computeIntervals.2 = none ∧ merged.Spans 2 4 9 ∧
      (merged.computeIntervals.1.value 1).liveAt 5 = true ∧
      merged.computeIntervals.1.value 3 = merged.value 3 := by
  have hinner : merged.Inner := ⟨by decide, by decide⟩
  have hvalues : ∀ v ∈ merged.values, v < merged.pool.values.size := by decide
  have hnone : merged.computeIntervals.2 = none := by decide
  obtain ⟨-, -, -, hdone⟩ := computeIntervals_exact merged hinner hvalues
  obtain ⟨hkept, hgiven⟩ := hdone hnone
  obtain ⟨start, stop, hvalue, hspans, -⟩ := hgiven 2 (by decide) (by decide)
  have hstart : start = 4 := (congrArg Value.start hvalue).symm.trans (by decide)
  have hstop : stop = 9 := (congrArg Value.stop hvalue).symm.trans (by decide)
  obtain ⟨first, _, hsource, -, -, hread⟩ := hgiven 1 (by decide) (by decide)
  have hfirst : first = 2 := (congrArg Value.start hsource).symm.trans (by decide)
  have hlive := (hread 5 (@ReadsAt.source merged 1 ⟨6, 1, 2⟩ (by decide) rfl)).mpr
    (by rw [hfirst]; decide)
  exact ⟨hinner, hvalues, hnone, hstart ▸ hstop ▸ hspans, hlive, hkept 3 (by decide)⟩

end CodeUnit
end RegisterAllocation
