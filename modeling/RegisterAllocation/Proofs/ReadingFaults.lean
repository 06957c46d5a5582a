import RegisterAllocation.Proofs.ClauseOrder
import RegisterAllocation.Proofs.ReadingFaults.Instructions

/-!
# Faults of reading

Reading a form gives a unit or refuses the form. Everything that could go wrong while the unit is
built is looked at before: names are entered once, outputs are defined once, instructions are in
order, and no interval is empty. The one exception is an interval that is computed for a value
defined at the last of all positions, which has no position after it
(`CodeUnit.ofSExpr_faults_only_at_limit`).
-/

namespace RegisterAllocation

/-! ## Clauses -/

namespace Clauses

variable {clauses next : Clauses}

/-- The head of the clauses of a kind. -/
def Kind.head : Kind → String
  | .arguments => "arguments"
  | .instructions => "instructions"
  | .fixed => "fixed"
  | .intervals => "intervals"
  | .copies => "copies"

/-- A kind of clause is found by its head. -/
theorem Kind.eq_head_of_ofHead? {head : String} {kind : Kind} (h : ofHead? head = some kind) :
    head = kind.head := by
  unfold ofHead? at h
  split at h <;> cases h <;> rfl

/-- A clause that is added goes to the place of its kind. -/
theorem add_spec {clause : SExpr} (h : clauses.add clause = .ok next) :
    ∃ kind, Kind.ofHead? clause.head = some kind ∧ next = clauses.put clause kind := by
  rw [add_eq] at h
  split at h
  · cases h
  · next kind hkind =>
    split at h
    · cases h
    · cases h
      exact ⟨kind, hkind, rfl⟩

/-- Clauses are found by their heads. -/
theorem mem_of_foldlM {exprs : List SExpr} (h : exprs.foldlM add clauses = .ok next) (kind : Kind) :
    ∀ clause ∈ next.get kind, clause ∈ clauses.get kind ∨
      clause ∈ exprs ∧ Kind.ofHead? clause.head = some kind := by
  induction exprs generalizing clauses with
  | nil =>
    cases h
    exact fun _ => .inl
  | cons expr exprs ih =>
    obtain ⟨middle, hmiddle, h⟩ := bind_eq_ok h
    obtain ⟨added, hadded, rfl⟩ := add_spec hmiddle
    intro clause hclause
    rcases ih h clause hclause with hold | ⟨hmem, hhead⟩
    · rw [get_put] at hold
      split at hold
      · next heq =>
        cases hold
        exact .inr ⟨.head _, heq ▸ hadded⟩
      · exact .inl hold
    · exact .inr ⟨.tail _ hmem, hhead⟩

/-- Clauses are collected without a fault. -/
theorem yields_ofList (exprs : List SExpr) : Yields (fun _ => True) (ofList exprs) := by
  refine Yields.foldlM (fun clauses _ clause _ => ?_) trivial
  rw [add_eq]
  split
  · exact .malformed _
  · split
    · exact .malformed _
    · exact .ok trivial

/-- All symbols of the entries are among `names`, and the positions of instructions and copies
among `positions`. -/
structure WrittenIn (names : List String) (positions : List Position) (clauses : Clauses) :
    Prop where
  symbols : ∀ kind, ∀ entry ∈ entries (clauses.get kind), entry.symbols ⊆ names
  positions : ∀ kind, kind = .instructions ∨ kind = .copies →
    ∀ entry ∈ entries (clauses.get kind), ∀ position ∈ entry.position?, position ∈ positions

/-- The entries of a kind stand in a clause of that kind. -/
theorem mem_of_ofList {exprs : List SExpr} (h : ofList exprs = .ok clauses) {kind : Kind}
    {entry : SExpr} (hentry : entry ∈ entries (clauses.get kind)) :
    ∃ clause ∈ exprs, Kind.ofHead? clause.head = some kind ∧ entry ∈ clause.items.tail := by
  cases hclause : clauses.get kind with
  | none =>
    rw [hclause] at hentry
    cases hentry
  | some clause =>
    rw [hclause] at hentry
    have hnone : clause ∉ ({} : Clauses).get kind := by cases kind <;> exact Option.not_mem_none _
    obtain ⟨hmem, hhead⟩ := (mem_of_foldlM h kind clause hclause).resolve_left hnone
    exact ⟨clause, hmem, hhead, hentry⟩

/-- The clauses of a form are written in it. -/
theorem writtenIn_of_ofList {form : SExpr} (h : ofList (form.items.drop 2) = .ok clauses) :
    clauses.WrittenIn form.symbols form.positions := by
  constructor
  · intro kind entry hentry
    obtain ⟨clause, hclause, -, hentry⟩ := mem_of_ofList h hentry
    have hsymbols := SExpr.symbols_of_mem_items (List.Subset.refl _) (List.mem_of_mem_drop hclause)
    exact SExpr.symbols_of_mem_items hsymbols (List.mem_of_mem_tail hentry)
  · intro kind hkind entry hentry position hposition
    obtain ⟨clause, hclause, hhead, hentry⟩ := mem_of_ofList h hentry
    have hhead : clause.head = "instructions" ∨ clause.head = "copies" := by
      rw [Kind.eq_head_of_ofHead? hhead]
      exact hkind.imp (congrArg Kind.head) (congrArg Kind.head)
    refine List.mem_flatMap.mpr ⟨clause, hclause, ?_⟩
    rw [if_pos hhead]
    exact List.mem_filterMap.mpr ⟨entry, hentry, hposition⟩

end Clauses

namespace Draft

variable {draft next : Draft} {names : List String} {positions : List Position}
  {clauses : Clauses}

/-- Values are defined where something is written, or at the start if they are arguments. -/
theorem Within.mem_of_definesAt {outputs : List String} (h : draft.Within names positions outputs)
    {v : ValueId} {position : Position} (hat : draft.unit.DefinesAt v position) :
    position = 0 ∨ position ∈ positions := by
  cases hat with
  | argument => exact .inl rfl
  | output hi => exact .inr (h.instrs _ hi)
  | target hcopy => exact .inr (h.copies _ hcopy)

/-- Names are defined without a fault, and outputs are defined once. -/
theorem yields_defineAll (hsize : names.length ≤ 2 ^ 64) (h : draft.Within names positions [])
    (hsymbols : ∀ kind, ∀ entry ∈ Clauses.entries (clauses.get kind), entry.symbols ⊆ names) :
    Yields (fun next => next.Within names positions [] ∧
      (∀ entry ∈ Clauses.entries clauses.instructions, (outputOf? entry.items).isSome = true) ∧
      ((Clauses.entries clauses.instructions).filterMap outputName?).Nodup)
      (draft.defineAll clauses) := by
  refine (Yields.foldlM (fun draft h entry hentry => yields_defineArgument hsize h
    (hsymbols .arguments entry hentry)) h).bind fun draft h => ?_
  refine ((Yields.foldlM (fun draft h entry hentry => yields_defineOutput hsize h
    (hsymbols .instructions entry hentry)) h).and fun _ hdefine =>
      defineOutputs_names h.sound hdefine).bind fun draft ⟨h, hform, hnodup, _⟩ => ?_
  refine (Yields.foldlM (fun draft h entry hentry => yields_defineTarget hsize h
    (hsymbols .copies entry hentry)) h).bind fun draft h => ?_
  exact (Yields.foldlM (fun draft h entry hentry => yields_defineInterval hsize h
    (hsymbols .intervals entry hentry)) h).mono fun draft h => ⟨h, hform, hnodup⟩

/-- Clauses are added without a fault. -/
theorem yields_addAll (hsize : names.length ≤ 2 ^ 64)
    (hclauses : clauses.WrittenIn names positions) (name : String) :
    Yields (fun draft => ∃ outputs, draft.Within names positions outputs)
      (Draft.addAll { unit := { name } } clauses) := by
  obtain ⟨hsymbols, hpositions⟩ := hclauses
  -- before the instructions are read there are none, so that they are at no position
  have hstart : Within names [] [] { unit := { name } } :=
    ⟨sound_start name, ⟨by simp, fun _ => rfl, .nil, by simp⟩, by simp, by simp, by simp, by simp,
      fun _ hdefined => absurd hdefined Bool.false_ne_true⟩
  refine (yields_defineAll hsize hstart hsymbols).bind fun draft ⟨h, hform, hnodup⟩ => ?_
  refine (Yields.foldlM (fun draft h entry hentry => yields_addArgument hsize h
    (hsymbols .arguments entry hentry)) h).bind fun draft h => ?_
  have hnone : ∀ i, i ∉ draft.unit.instrs := fun i hi => List.not_mem_nil (h.instrs i hi)
  have h : draft.Within names positions [] :=
    { h with
      instrs := fun i hi => absurd hi (hnone i)
      copies := fun copy hcopy => absurd (h.copies copy hcopy) List.not_mem_nil }
  refine (yields_addInstructions hsize h (Int64.le_refl 0) (fun i hi => absurd hi (hnone i))
    (hsymbols .instructions) (hpositions .instructions (.inl rfl)) hform hnodup).bind
    fun draft h => ?_
  refine (Yields.foldlM (fun draft h entry hentry => yields_addCopy hsize h
    (hsymbols .copies entry hentry) (hpositions .copies (.inr rfl) entry hentry)) h).bind
    fun draft h => ?_
  refine (Yields.foldlM (fun draft h entry hentry => yields_addFixed hsize h
    (hsymbols .fixed entry hentry)) h).bind fun draft h => ?_
  exact (Yields.foldlM (fun draft h entry hentry => yields_addInterval hsize h
    (hsymbols .intervals entry hentry)) h).mono fun draft h => ⟨_, h⟩

end Draft

/-! ## Computed intervals -/

namespace CodeUnit

variable {u : CodeUnit}

/-- Only a value whose first definition is at the last of all positions has nothing to span. -/
theorem fault_of_setInterval {v : ValueId} {start stop : Position} {fault : Fault}
    (hstart : u.firstDefinition? v = some start) (hstop : u.lastEvent? v = some stop)
    (h : u.pool.setInterval v start stop = .error fault) :
    u.DefinesAt v Int64.maxValue ∧ ∃ label, fault = .emptyInterval label Int64.maxValue stop := by
  have hat := (firstDefinition?_eq_some.mp hstart).1
  have hbound := (lastEvent?_eq_some.mp hstop).2 start (.inl hat)
  have hlimit : start = Int64.maxValue := by
    by_contra hne
    have hlt : start < stop := by
      have hnext := Position.toInt_add_one hne
      have hle := Int64.le_iff_toInt_le.mp hbound
      exact Int64.lt_iff_toInt_lt.mpr (by omega)
    obtain ⟨pool, hpool⟩ := u.pool.exists_setInterval v hlt
    rw [hpool] at h
    cases h
  subst hlimit
  refine ⟨hat, (u.value v).label, ?_⟩
  rcases bind_eq_error h with h | ⟨_, -, h⟩
  · rw [Value.setInterval] at h
    split at h
    · cases h
      rfl
    · cases h
  · cases h

/-- A value that has no interval after one has been set had none before. -/
theorem hasInterval_eq_false_of_setInterval {pool : Pool} {v w : ValueId} {start stop : Position}
    (h : u.pool.setInterval v start stop = .ok pool)
    (hw : ({ u with pool }.value w).hasInterval = false) : (u.value w).hasInterval = false := by
  by_contra hinterval
  rw [Bool.not_eq_false] at hinterval
  exact Bool.false_ne_true (hw.symm.trans (hasInterval_of_setInterval h (.inr hinterval)))

/-- A value that is defined gets an interval, unless its first definition is at the last of all
positions. -/
theorem fault_of_fillIntervals {extents : Extents} {vs : List ValueId} {fault : Fault}
    (hextents : u.HasExtents extents)
    (hdefined : ∀ v ∈ vs, (u.value v).hasInterval = false → ∃ position, u.DefinesAt v position)
    (h : (u.fillIntervals extents vs).2 = some fault) :
    ∃ v ∈ vs, u.DefinesAt v Int64.maxValue ∧
      ∃ label stop, fault = .emptyInterval label Int64.maxValue stop := by
  induction vs generalizing u with
  | nil => cases h
  | cons v vs ih =>
    obtain ⟨hfirst, hrest⟩ := List.forall_mem_cons.mp hdefined
    rw [fillIntervals] at h
    cases hv : (u.value v).hasInterval with
    | true =>
      rw [hv] at h
      obtain ⟨w, hw, hfault⟩ := ih hextents hrest h
      exact ⟨w, .tail _ hw, hfault⟩
    | false =>
      rw [hextents.starts, hextents.ends] at h
      obtain ⟨position, hposition⟩ := hfirst hv
      obtain ⟨stop, hstop⟩ := hposition.exists_lastEvent?
      cases hstart : u.firstDefinition? v with
      | none => exact absurd hposition (firstDefinition?_eq_none.mp hstart position)
      | some start =>
        simp only [hv, hstart, hstop, Option.getD_some, Bool.false_eq_true, if_false] at h
        split at h
        · next pool hset =>
          have hsame := SameCode.setInterval hset
          have hlater : ∀ w ∈ vs, ({ u with pool }.value w).hasInterval = false →
              ∃ position, { u with pool }.DefinesAt w position := by
            intro w hw hbare
            obtain ⟨position, hposition⟩ :=
              hrest w hw (hasInterval_eq_false_of_setInterval hset hbare)
            exact ⟨position, hsame.definesAt_iff.mpr hposition⟩
          obtain ⟨w, hw, hlimit, hfault⟩ := ih (hsame.hasExtents hextents) hlater h
          exact ⟨w, .tail _ hw, hsame.definesAt_iff.mp hlimit, hfault⟩
        · next complaint hset =>
          cases h
          obtain ⟨hlimit, label, hfault⟩ := fault_of_setInterval hstart hstop hset
          exact ⟨v, .head _, hlimit, label, stop, hfault⟩

/-- If nothing is undefined, then every value without an interval is defined somewhere. -/
theorem exists_definesAt_of_undefined? (h : Draft.undefined? u = none) {v : ValueId}
    (hv : v ∈ u.values) (hbare : (u.value v).hasInterval = false) :
    ∃ position, u.DefinesAt v position := by
  have hfound := List.find?_eq_none.mp h v hv
  rw [hbare] at hfound
  simp only [Bool.not_false, Bool.and_true, Bool.not_eq_true, Bool.not_eq_false',
    List.contains_iff_mem, List.mem_map, Prod.exists, exists_and_right, exists_eq_right] at hfound
  obtain ⟨position, hmem⟩ := hfound
  exact ⟨position, mem_definitions.mp hmem⟩

/-! ## Reading -/

/-- What reading a unit comes to: a unit, a refusal, or a value that is defined only at the last of
all positions, which has to be one of the `positions`. -/
def Outcome (positions : List Position) (x : Except FormFailure CodeUnit) : Prop :=
  (∃ u, x = .ok u) ∨ (∃ error, x = .error (.malformed error)) ∨
    Int64.maxValue ∈ positions ∧
      ∃ label stop, x = .error (.fault (.emptyInterval label Int64.maxValue stop))

/-- A unit is finished without a fault, unless something happens at the last position. -/
theorem outcome_ofClauses {names : List String} {positions : List Position} {clauses : Clauses}
    (hsize : names.length ≤ 2 ^ 64) (hclauses : clauses.WrittenIn names positions) (name : String)
    (expr : SExpr) :
    Outcome positions (ofClauses name expr clauses) := by
  have hread := Draft.yields_addAll hsize hclauses name
  unfold ofClauses
  generalize Draft.addAll { unit := { name } } clauses = result at hread
  cases hread with
  | malformed error => exact .inr (.inl ⟨error, rfl⟩)
  | @ok draft h =>
    obtain ⟨outputs, h⟩ := h
    dsimp only [bind, Except.bind]
    cases hundefined : Draft.undefined? draft.unit with
    | some v => exact .inr (.inl ⟨_, rfl⟩)
    | none =>
      dsimp only
      split
      · next u _ => exact .inl ⟨u, rfl⟩
      · next u fault hfill =>
        have hfault : (draft.unit.fillIntervals draft.unit.extents draft.unit.values).2 =
            some fault :=
          congrArg Prod.snd hfill
        obtain ⟨v, hv, hat, label, stop, rfl⟩ := fault_of_fillIntervals draft.unit.hasExtents
          (fun v hv => exists_definesAt_of_undefined? hundefined hv) hfault
        exact .inr (.inr ⟨(h.mem_of_definesAt hat).resolve_left (by decide), label, stop, rfl⟩)

/-- Reading a form never breaks off with a fault, except at the limit of positions: it gives a unit
or refuses the form, unless an instruction or a copy is written at the last position of all. Then a
value can turn out to be defined only there, with no position after it to end its interval. There
are as many numbers for values as there are words, which is enough for the symbols of any form of
up to that length. -/
theorem ofSExpr_faults_only_at_limit {expr : SExpr} (hsize : expr.symbols.length ≤ 2 ^ 64) :
    (∃ u, ofSExpr expr = .ok u) ∨ (∃ error, ofSExpr expr = .error (.malformed error)) ∨
      Int64.maxValue ∈ expr.positions ∧ ∃ label stop,
        ofSExpr expr = .error (.fault (.emptyInterval label Int64.maxValue stop)) := by
  change Outcome expr.positions (ofSExpr expr)
  unfold ofSExpr
  split
  · next unitLine name nameLine exprs line =>
    have hclauses := (Clauses.yields_ofList exprs).of_forall fun clauses h =>
      @Clauses.writtenIn_of_ofList clauses
        (.list (.symbol "unit" unitLine :: .symbol name nameLine :: exprs) line) h
    generalize Clauses.ofList exprs = result at hclauses ⊢
    cases hclauses with
    | malformed error => exact .inr (.inl ⟨error, rfl⟩)
    | ok hclauses => exact outcome_ofClauses hsize hclauses name _
  · exact .inr (.inl ⟨_, rfl⟩)

/-- A form with a single instruction, at the last position. -/
def limitForm : SExpr :=
  .list [.symbol "unit" 1, .symbol "limit" 1,
    .list [.symbol "instructions" 2, .list [.int Int64.maxValue 2, .symbol "const" 2,
      .list [.symbol "x" 2, .symbol "single" 2] 2, .int 7 2] 2] 2] 1

theorem ofSExpr_faults_only_at_limit_last :
    limitForm.symbols.length ≤ 2 ^ 64 ∧ Int64.maxValue ∈ limitForm.positions ∧
      ofSExpr limitForm =
        .error (.fault (.emptyInterval "x_0" Int64.maxValue Int64.minValue)) := by
  have hread : ofSExpr limitForm =
      .error (.fault (.emptyInterval "x_0" Int64.maxValue Int64.minValue)) := by decide +kernel
  have hsize : limitForm.symbols.length ≤ 2 ^ 64 := by decide
  rcases ofSExpr_faults_only_at_limit hsize with ⟨u, h⟩ | ⟨error, h⟩ | ⟨hlimit, -⟩
  · rw [hread] at h
    cases h
  · rw [hread] at h
    cases h
  · exact ⟨hsize, hlimit, hread⟩

end CodeUnit
end RegisterAllocation
