import RegisterAllocation.Proofs.Moves

/-!
# Values have registers while they are live

The pieces of a value follow each other from the start of its interval to the end (`Piece.Chain`),
however often it has moved, and whatever its registers are. So a value that needs a register has one
at a position if and only if it is live there (`Allocation.registerAt?_iff_of_chain`).
-/

namespace RegisterAllocation

/-! ## Chains of pieces -/

namespace Piece

/-- The pieces follow each other from `start` to `stop`, and none of them is empty. -/
def Chain (start stop : Position) : List Piece → Prop
  | [] => start = stop
  | piece :: rest => piece.start = start ∧ start < piece.stop ∧ Chain piece.stop stop rest

variable {start stop position : Position} {pieces : List Piece} {v : ValueId}

/-- A chain does not end before it starts. -/
theorem Chain.le (h : Chain start stop pieces) : start ≤ stop := by
  induction pieces generalizing start with
  | nil => exact Int64.le_of_eq h
  | cons piece rest ih =>
    obtain ⟨-, hlt, hrest⟩ := h
    exact Int64.le_trans (Int64.le_of_lt hlt) (ih hrest)

/-- A chain can be cut between any two of its pieces. -/
theorem chain_append {others : List Piece} :
    Chain start stop (pieces ++ others) ↔
      ∃ middle, Chain start middle pieces ∧ Chain middle stop others := by
  induction pieces generalizing start with
  | nil => simp [Chain]
  | cons piece rest ih => simp only [List.cons_append, Chain, ih, exists_and_left, and_assoc]

theorem chain_singleton {piece : Piece} :
    Chain start stop [piece] ↔ piece.start = start ∧ start < piece.stop ∧ piece.stop = stop := by
  simp [Chain]

/-- A chain covers the positions from its start to its stop and no others. -/
theorem Chain.exists_covers_iff (h : Chain start stop pieces) :
    (∃ piece ∈ pieces, piece.covers position = true) ↔ start ≤ position ∧ position < stop := by
  induction pieces generalizing start with
  | nil =>
    obtain rfl : start = stop := h
    constructor
    · simp
    · exact fun ⟨hle, hlt⟩ => absurd hlt (Int64.not_lt.mpr hle)
  | cons piece rest ih =>
    obtain ⟨rfl, hlt, hrest⟩ := h
    have hle := hrest.le
    simp only [List.mem_cons, exists_eq_or_imp]
    rw [ih hrest, covers_iff]
    grind

/-- A value has a register where one of its pieces covers the position. -/
theorem registerAt?_isSome_iff :
    (∃ register, registerAt? pieces v position = some register) ↔
      ∃ piece ∈ ofValue pieces v, piece.covers position = true := by
  rw [← Option.isSome_iff_exists, registerAt?, Option.isSome_map, List.find?_isSome]

end Piece

/-! ## The scan -/

namespace Scan

variable {u : CodeUnit} {config : Config} {reserved : Reserved} {scan next : Scan} {now : Position}
  {done : List ValueId}

/-- At `now` the values `done` are covered by their pieces, of which the active ones are live. -/
structure Covering (u : CodeUnit) (done : List ValueId) (now : Position) (scan : Scan) : Prop
    extends Listed done scan where
  chain : ∀ v ∈ done, Piece.Chain (u.value v).start (u.value v).stop
    (Piece.ofValue (scan.ended ++ scan.active) v)
  live : ∀ piece ∈ scan.active, piece.start ≤ now ∧ now < piece.stop

/-- Pieces that have ended are still there. -/
theorem Covering.expire (h : scan.Covering u done now) {position : Position}
    (hle : now ≤ position) : (scan.expire position).Covering u done position := by
  refine ⟨h.toListed.expire position, fun v hv => ?_, fun piece hpiece => ?_⟩
  · rw [h.ofValue_expire]
    exact h.chain v hv
  · obtain ⟨hpiece, hstop⟩ : piece ∈ scan.active ∧ position < piece.stop := by
      simpa [Scan.expire] using hpiece
    exact ⟨Int64.le_trans (h.live piece hpiece).1 hle, hstop⟩

/-- A value that starts now becomes active. -/
theorem Covering.activate (h : scan.Covering u done now) {v : ValueId} (hv : v ∉ done)
    (hstart : (u.value v).start = now) (hstop : (u.value v).start < (u.value v).stop)
    (register : Register) : (scan.activate u v register).Covering u (v :: done) now := by
  refine ⟨h.toListed.activate hv register, fun w hw => ?_, fun piece hpiece => ?_⟩
  · rw [h.ofValue_activate hv]
    split
    · next heq =>
      rw [heq, Piece.chain_singleton]
      exact ⟨rfl, hstop, rfl⟩
    · next hne => exact h.chain w ((List.mem_cons.mp hw).resolve_left hne)
  · obtain hpiece | hpiece := List.mem_append.mp hpiece
    · exact h.live piece hpiece
    · rw [List.mem_singleton.mp hpiece, hstart]
      exact ⟨Int64.le_refl _, hstart ▸ hstop⟩

/-- An active value can go on in other pieces that follow each other in the same way. -/
theorem Covering.evicted (h : scan.Covering u done now) {victim tail : Piece} {heads : List Piece}
    (hvictim : victim ∈ scan.active)
    (hchain : Piece.Chain victim.start victim.stop (heads ++ [tail]))
    (hheads : ∀ head ∈ heads, head.value = victim.value) (htail : tail.value = victim.value)
    (hlive : tail.start ≤ now ∧ now < tail.stop) (moves : MoveTable) :
    Covering u done now
      { active := scan.active.filter (·.value ≠ victim.value) ++ [tail]
        ended := scan.ended ++ heads
        moves } := by
  refine ⟨h.toListed.evicted hheads htail hvictim moves, fun v hv => ?_, fun piece hpiece => ?_⟩
  · rw [ofValue_evicted hheads htail]
    split
    · next heq =>
      have hbefore := h.chain v hv
      rw [heq, Piece.ofValue_append, Piece.ofValue_eq_singleton h.nodup hvictim,
        Piece.chain_append] at hbefore
      obtain ⟨middle, hended, hlast⟩ := hbefore
      obtain ⟨rfl, -, hstop⟩ := Piece.chain_singleton.mp hlast
      rw [heq, List.append_assoc, Piece.chain_append]
      exact ⟨victim.start, hended, hstop ▸ hchain⟩
    · exact h.chain v hv
  · obtain hpiece | hpiece := List.mem_append.mp hpiece
    · exact h.live piece (List.mem_of_mem_filter hpiece)
    · exact List.mem_singleton.mp hpiece ▸ hlive

/-- What was covered stays so when a victim gives way. -/
theorem Covering.evict (h : scan.Covering u done now) {victim : Piece}
    (hvictim : victim ∈ scan.active)
    (hevict : scan.evict u config reserved victim now = .ok next) : next.Covering u done now := by
  obtain ⟨hstart, hstop⟩ := h.live victim hvictim
  rw [Scan.evict] at hevict
  obtain ⟨register, -, hevict⟩ := bind_eq_ok hevict
  by_cases hnow : victim.start = now
  · rw [if_pos hnow] at hevict
    cases hevict
    have hchain : Piece.Chain victim.start victim.stop
        ([] ++ [{ victim with start := now, register }]) :=
      Piece.chain_singleton.mpr ⟨hnow.symm, hnow ▸ hstop, rfl⟩
    have hnext := h.evicted hvictim hchain (by simp) rfl ⟨Int64.le_refl _, hstop⟩ scan.moves
    rw [List.append_nil] at hnext
    exact hnext
  · rw [if_neg hnow] at hevict
    cases hevict
    have hchain : Piece.Chain victim.start victim.stop
        ([{ victim with stop := now }] ++ [{ victim with start := now, register }]) :=
      ⟨rfl, by grind, Piece.chain_singleton.mpr ⟨rfl, hstop, rfl⟩⟩
    exact h.evicted hvictim hchain (by simp) rfl ⟨Int64.le_refl _, hstop⟩ _

/-- A value that starts now is covered, whichever way it finds its place. -/
theorem Covering.placeEvicting {v : ValueId} {candidates : List Piece}
    (h : scan.Covering u done now) (hv : v ∉ done) (hstart : (u.value v).start = now)
    (hstop : (u.value v).start < (u.value v).stop)
    (hcandidates : scan.Evictable u config candidates)
    (hplace : placeEvicting u config reserved v scan candidates = .ok next) :
    next.Covering u (v :: done) now := by
  refine placeEvicting_induction (P := fun current rest =>
    current.Covering u done now ∧ current.Evictable u config rest) ?_ ?_ ?_ ⟨h, hcandidates⟩ hplace
  · rintro current rest ⟨hcurrent, -⟩ hfound
    obtain ⟨register, -, rfl⟩ := Option.map_eq_some_iff.mp hfound
    exact hcurrent.activate hv hstart hstop register
  · rintro current rest ⟨hcurrent, -⟩ - hspill
    obtain ⟨register, -, hspill⟩ := bind_eq_ok hspill
    cases hspill
    exact hcurrent.activate hv hstart hstop register
  · rintro current evicted victim rest ⟨hcurrent, hvictims⟩ - hevict
    have hvictim := (hvictims.candidate victim List.mem_cons_self).1
    exact ⟨hcurrent.evict hvictim (hstart ▸ hevict), hvictims.evict hevict⟩

/-- The scan covers all values that it deals with. -/
theorem Covering.placeAll {vs : List ValueId} (h : scan.Covering u done now)
    (hahead : Ahead u done now vs) (hplace : placeAll u config reserved scan vs = .ok next) :
    ∃ last, next.Covering u (vs.reverse ++ done) last := by
  induction vs generalizing scan now done with
  | nil =>
    cases hplace
    exact ⟨now, h⟩
  | cons v vs ih =>
    rw [Scan.placeAll] at hplace
    obtain ⟨placed, hv, hplace⟩ := bind_eq_ok hplace
    obtain ⟨hnew, hlater, hstop, hahead⟩ := hahead.step
    have hexpire := h.expire hlater
    have hplaced := hexpire.placeEvicting hnew rfl hstop
      (evictable_candidates u config hexpire.nodup) hv
    obtain ⟨last, hlast⟩ := ih hplaced hahead hplace
    refine ⟨last, ?_⟩
    rw [List.reverse_cons, List.append_assoc]
    exact hlast

/-- After the scan of a unit the intervals of its values are covered. -/
theorem covering_ofUnit (hnodup : u.values.Nodup)
    (hintervals : Allocation.checkIntervals u u.values = .ok ())
    (h : ofUnit u config reserved = .ok scan) :
    ∃ done last, scan.Covering u done last ∧ ∀ v, v ∈ done ↔ v ∈ u.values ∧
      u.pool.needsRegister v = .ok true ∧ Piece.ofValue reserved.pieces v = [] := by
  obtain ⟨vs, hplace, hahead, hmem⟩ := ofUnit_spec hnodup hintervals h
  have hempty : Covering u [] Int64.minValue {} := ⟨⟨by simp, by simp⟩, by simp, by simp⟩
  obtain ⟨last, hlast⟩ := hempty.placeAll hahead hplace
  refine ⟨_, last, hlast, fun v => ?_⟩
  rw [List.append_nil, List.mem_reverse, hmem]

/-- The scan leaves values with fixed registers alone. -/
theorem ofValue_eq_nil_of_reserved (hnodup : u.values.Nodup)
    (hintervals : Allocation.checkIntervals u u.values = .ok ())
    (h : ofUnit u config reserved = .ok scan) {piece : Piece} (hpiece : piece ∈ reserved.pieces) :
    Piece.ofValue (scan.ended ++ scan.active) piece.value = [] := by
  obtain ⟨done, last, hcovering, hdone⟩ := covering_ofUnit hnodup hintervals h
  refine Piece.ofValue_eq_nil fun other hother heq => ?_
  have hown := ((hdone _).mp (heq ▸ hcovering.among other hother)).2.2
  have hmem : piece ∈ Piece.ofValue reserved.pieces piece.value :=
    Piece.mem_ofValue.mpr ⟨hpiece, rfl⟩
  simp [hown] at hmem

end Scan

/-! ## Allocations -/

/-- Every value of a row has a piece. -/
theorem Reserved.exists_mem_placeRow {u : CodeUnit} {config : Config} {reserved placed : Reserved}
    {register : Register} {vs : List ValueId}
    (h : placeRow u config reserved register vs = .ok placed) :
    ∀ v ∈ vs, ∃ piece ∈ placed.pieces, piece.value = v := by
  intro v hv
  rw [← List.mem_map, values_placeRow h]
  exact List.mem_append_right _ hv

namespace Allocation

variable {u : CodeUnit} {config : Config} {allocation : Allocation} {v : ValueId}

/-- A value with a fixed register has a single piece, over its whole interval. -/
theorem ofValue_of_reserved (hnodup : u.values.Nodup)
    (hintervals : checkIntervals u u.values = .ok ()) {reserved : Reserved} {scan : Scan}
    (hreserved : Reserved.ofUnit u config = .ok reserved)
    (hscan : Scan.ofUnit u config reserved = .ok scan)
    (hplaced : ∃ piece ∈ reserved.pieces, piece.value = v) : ∃ register,
      Piece.ofValue (Reserved.latest reserved.pieces ++ scan.ended ++ scan.active) v =
        [⟨v, (u.value v).start, (u.value v).stop, register⟩] := by
  obtain ⟨piece, hpiece, rfl, hlatest⟩ := Reserved.ofValue_latest hplaced
  have hnone := Scan.ofValue_eq_nil_of_reserved hnodup hintervals hscan hpiece
  obtain ⟨-, hstart, hstop⟩ := Reserved.pieces_ofUnit hreserved piece hpiece
  rw [List.append_assoc, Piece.ofValue_append, hlatest, hnone, CodeUnit.value, ← hstart, ← hstop]
  exact ⟨piece.register, rfl⟩

/-- An argument has one piece, over its whole interval. -/
theorem ofValue_argument (hnodup : u.values.Nodup) (h : u.allocate config = .ok allocation)
    (hv : v ∈ u.arguments) : ∃ register,
      Piece.ofValue allocation.pieces v = [⟨v, (u.value v).start, (u.value v).stop, register⟩] := by
  obtain ⟨hintervals, reserved, scan, -, hreserved, hscan, hpieces, -⟩ :=
    CodeUnit.allocate_eq_ok h
  obtain ⟨first, hrow, hplaces⟩ := Reserved.places_ofUnit hreserved
  obtain ⟨added, hadded, -⟩ := hplaces.pieces
  obtain ⟨piece, hpiece, heq⟩ := Reserved.exists_mem_placeRow hrow v hv
  rw [hpieces]
  exact ofValue_of_reserved hnodup hintervals hreserved hscan
    ⟨piece, hadded ▸ List.mem_append_left _ hpiece, heq⟩

/-- The pieces of an allocation cover the intervals of all values that need a register. -/
theorem chain_of_needsRegister (hnodup : u.values.Nodup) (h : u.allocate config = .ok allocation)
    (hv : v ∈ u.values) (hneeds : u.pool.needsRegister v = .ok true) :
    Piece.Chain (u.value v).start (u.value v).stop (Piece.ofValue allocation.pieces v) := by
  obtain ⟨hintervals, reserved, scan, -, hreserved, hscan, hpieces, -⟩ :=
    CodeUnit.allocate_eq_ok h
  rw [hpieces]
  by_cases hplaced : ∃ piece ∈ reserved.pieces, piece.value = v
  · obtain ⟨register, hown⟩ := ofValue_of_reserved hnodup hintervals hreserved hscan hplaced
    have hinterval := (checkIntervals_iff.mp hintervals v hv).2 hneeds
    rw [hown, Piece.chain_singleton]
    exact ⟨rfl, by simpa [Value.hasInterval] using hinterval, rfl⟩
  · have hfree : ∀ piece ∈ reserved.pieces, piece.value ≠ v :=
      fun piece hpiece heq => hplaced ⟨piece, hpiece, heq⟩
    obtain ⟨done, last, hcovering, hdone⟩ := Scan.covering_ofUnit hnodup hintervals hscan
    rw [List.append_assoc, Piece.ofValue_append, Reserved.ofValue_latest_eq_nil hfree,
      List.nil_append]
    exact hcovering.chain v ((hdone v).mpr ⟨hv, hneeds, Piece.ofValue_eq_nil hfree⟩)

/-- The pieces of an allocation cover the intervals of the arguments and of all values that need a
register. -/
theorem chain_of_allocate (hnodup : u.values.Nodup)
    (harguments : ∀ v ∈ u.arguments, (u.value v).hasInterval = true)
    (h : u.allocate config = .ok allocation)
    (hv : v ∈ u.arguments ∨ v ∈ u.values ∧ u.pool.needsRegister v = .ok true) :
    Piece.Chain (u.value v).start (u.value v).stop (Piece.ofValue allocation.pieces v) := by
  obtain hv | ⟨hv, hneeds⟩ := hv
  · obtain ⟨register, hown⟩ := ofValue_argument hnodup h hv
    have hinterval := harguments v hv
    rw [hown, Piece.chain_singleton]
    exact ⟨rfl, by simpa [Value.hasInterval] using hinterval, rfl⟩
  · exact chain_of_needsRegister hnodup h hv hneeds

/-- A value has a register where it is live, and nowhere else. -/
theorem registerAt?_iff_of_chain {pieces : List Piece} {position : Position}
    (h : Piece.Chain (u.value v).start (u.value v).stop (Piece.ofValue pieces v)) :
    (∃ register, Piece.registerAt? pieces v position = some register) ↔
      (u.value v).liveAt position = true := by
  rw [Piece.registerAt?_isSome_iff, h.exists_covers_iff]
  simp [Value.liveAt]

end Allocation
end RegisterAllocation
