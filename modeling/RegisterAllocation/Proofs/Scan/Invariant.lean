import RegisterAllocation.Proofs.Reserved
import RegisterAllocation.Proofs.Sorting

/-!
# What the scan keeps

The scan goes through the values in the order of their starts. At each of them the pieces that have
ended lie behind, and the active ones take different slots (`Scan.Placed`). Every value that has
been dealt with has one piece or two that meet, and where it has two a move takes it from the first
to the second (`Scan.Recorded`).
-/

namespace RegisterAllocation

namespace MoveTable

def movesAt (table : MoveTable) (position : Position) : List Move :=
  (table.lookup position).getD []

/-- The positions ascend. -/
def Ordered (table : MoveTable) : Prop := table.Pairwise (·.1 < ·.1)

/-- The moves of a position are those of its entry. -/
theorem movesAt_cons (entry : Position × List Move) (table : MoveTable) (position : Position) :
    movesAt (entry :: table) position =
      if position = entry.1 then entry.2 else movesAt table position := by
  rw [movesAt, List.lookup_cons]
  by_cases h : position = entry.1
  · rw [if_pos h, beq_iff_eq.mpr h, Option.getD_some]
  · rw [if_neg h, beq_eq_false_iff_ne.mpr h, movesAt]

theorem movesAt_of_not_mem {table : MoveTable} {position : Position}
    (h : position ∉ table.map (·.1)) : movesAt table position = [] := by
  have hnone : table.lookup position = none := by
    rw [List.lookup_eq_none_iff]
    intro entry hentry
    have hne : position ≠ entry.1 := fun heq => h (heq ▸ List.mem_map_of_mem hentry)
    simpa using hne
  rw [movesAt, hnone, Option.getD_none]

/-- Before the first entry there are no moves. -/
theorem movesAt_eq_nil {table : MoveTable} {position : Position}
    (h : ∀ entry ∈ table, position < entry.1) : movesAt table position = [] := by
  refine movesAt_of_not_mem fun hmem => ?_
  obtain ⟨entry, hentry, rfl⟩ := List.mem_map.mp hmem
  exact Int64.lt_irrefl (h entry hentry)

/-- An ordered table has one entry for a position. -/
theorem movesAt_of_mem {table : MoveTable} (h : table.Ordered) {entry : Position × List Move}
    (hentry : entry ∈ table) : table.movesAt entry.1 = entry.2 := by
  induction table with
  | nil => simp at hentry
  | cons first rest ih =>
    rw [movesAt_cons]
    obtain rfl | hentry := List.mem_cons.mp hentry
    · rw [if_pos rfl]
    · have hlt := (List.pairwise_cons.mp h).1 entry hentry
      rw [if_neg (by grind), ih h.of_cons hentry]

/-- What holds of no moves and of every entry holds of every position. -/
theorem forall_movesAt {table : MoveTable} (h : table.Ordered) {P : List Move → Prop}
    (hnil : P []) :
    (∀ position, P (table.movesAt position)) ↔ ∀ entry ∈ table, P entry.2 := by
  constructor
  · intro hall entry hentry
    exact movesAt_of_mem h hentry ▸ hall entry.1
  · intro hall position
    by_cases hmem : position ∈ table.map (·.1)
    · obtain ⟨entry, hentry, rfl⟩ := List.mem_map.mp hmem
      exact movesAt_of_mem h hentry ▸ hall entry hentry
    · exact movesAt_of_not_mem hmem ▸ hnil

/-- A move that is added changes the entry of its position only. -/
theorem mem_add {table : MoveTable} {position : Position} {move : Move}
    {entry : Position × List Move} (h : entry ∈ table.add position move) :
    entry.1 = position ∨ entry ∈ table := by
  fun_induction add table position move with
  | case1 => exact .inl (congrArg Prod.fst (List.mem_singleton.mp h))
  | case2 moves rest =>
    obtain rfl | h := List.mem_cons.mp h
    · exact .inl rfl
    · exact .inr (List.mem_cons_of_mem _ h)
  | case3 other moves rest hne hlt =>
    exact (List.mem_cons.mp h).imp_left (congrArg Prod.fst)
  | case4 other moves rest hne hlt ih =>
    obtain rfl | h := List.mem_cons.mp h
    · exact .inr List.mem_cons_self
    · exact (ih h).imp_right (List.mem_cons_of_mem _)

/-- Adding a move keeps the table ordered. -/
theorem Ordered.add {table : MoveTable} (h : table.Ordered) (position : Position) (move : Move) :
    (table.add position move).Ordered := by
  fun_induction MoveTable.add table position move with
  | case1 => exact List.pairwise_singleton _ _
  | case2 moves rest => exact List.pairwise_cons.mpr (List.pairwise_cons.mp h)
  | case3 other moves rest hne hlt =>
    refine List.pairwise_cons.mpr ⟨fun entry hentry => ?_, h⟩
    obtain rfl | hentry := List.mem_cons.mp hentry
    · exact hlt
    · exact Int64.lt_trans hlt ((List.pairwise_cons.mp h).1 entry hentry)
  | case4 other moves rest hne hlt ih =>
    refine List.pairwise_cons.mpr ⟨fun entry hentry => ?_, ih h.of_cons⟩
    obtain heq | hentry := mem_add hentry
    · grind
    · exact (List.pairwise_cons.mp h).1 entry hentry

/-- A move is added behind those at its position. -/
theorem movesAt_add {table : MoveTable} (h : table.Ordered) (position : Position) (move : Move)
    (other : Position) :
    (table.add position move).movesAt other =
      if other = position then table.movesAt position ++ [move] else table.movesAt other := by
  fun_induction MoveTable.add table position move with
  | case1 =>
    rw [movesAt_cons]
    rfl
  | case2 moves rest =>
    simp only [movesAt_cons]
    split <;> rfl
  | case3 first moves rest hne hlt =>
    have hnil : movesAt ((first, moves) :: rest) position = [] := by
      refine movesAt_eq_nil fun entry hentry => ?_
      obtain rfl | hentry := List.mem_cons.mp hentry
      · exact hlt
      · exact Int64.lt_trans hlt ((List.pairwise_cons.mp h).1 entry hentry)
    rw [movesAt_cons, hnil]
    simp
  | case4 first moves rest hne hlt ih =>
    have hpos := movesAt_cons (first, moves) rest position
    rw [if_neg hne] at hpos
    rw [movesAt_cons, ih h.of_cons, hpos, movesAt_cons]
    by_cases heq : other = first
    · rw [if_pos heq, if_neg (by rw [heq]; exact fun h => hne h.symm), if_pos heq]
    · rw [if_neg heq, if_neg heq]

end MoveTable

namespace Piece

/-- The pieces of a value: one over the whole interval, or two that meet, the first among the
allocatable registers and the second in the spill area. -/
inductive Layout (u : CodeUnit) (config : Config) (v : ValueId) : List Piece → Prop
  | whole (register : Register) :
    Layout u config v [⟨v, (u.value v).start, (u.value v).stop, register⟩]
  | split (register spill : Register) (position : Position)
    (hstart : (u.value v).start < position) (hstop : position < (u.value v).stop)
    (hlow : register < config.registers) (hspill : config.registers ≤ spill) :
    Layout u config v
      [⟨v, (u.value v).start, position, register⟩, ⟨v, position, (u.value v).stop, spill⟩]

theorem Layout.exists_mem {u : CodeUnit} {config : Config} {v : ValueId} {pieces : List Piece}
    (h : Layout u config v pieces) : ∃ piece, piece ∈ pieces := by
  cases h with
  | whole register => exact ⟨_, List.mem_cons_self⟩
  | split register spill position => exact ⟨_, List.mem_cons_self⟩

/-- Two pieces of a value: where they meet, and in which registers they are. -/
theorem Layout.pair {u : CodeUnit} {config : Config} {v : ValueId} {head tail : Piece}
    (h : Layout u config v [head, tail]) :
    head.start = (u.value v).start ∧ head.start < tail.start ∧ head.stop = tail.start ∧
      tail.start < tail.stop ∧ head.register < config.registers ∧
      config.registers ≤ tail.register := by
  cases h with
  | split register spill position hstart hstop hlow hspill =>
    exact ⟨rfl, hstart, rfl, hstop, hlow, hspill⟩

theorem ofValue_singleton_self (piece : Piece) : ofValue [piece] piece.value = [piece] := by
  simp [ofValue]

theorem ofValue_singleton_of_ne {piece : Piece} {v : ValueId} (h : piece.value ≠ v) :
    ofValue [piece] v = [] := by
  simp [ofValue, h]

/-- A value without pieces has none. -/
theorem ofValue_eq_nil {pieces : List Piece} {v : ValueId} (h : ∀ piece ∈ pieces, piece.value ≠ v) :
    ofValue pieces v = [] := by
  rw [ofValue, List.filter_eq_nil_iff]
  simpa using h

/-- Where values have one piece each, it is found. -/
theorem ofValue_eq_singleton {pieces : List Piece} (hnodup : (pieces.map (·.value)).Nodup)
    {piece : Piece} (h : piece ∈ pieces) : ofValue pieces piece.value = [piece] := by
  induction pieces with
  | nil => simp at h
  | cons first rest ih =>
    obtain ⟨hfirst, hrest⟩ := List.nodup_cons.mp hnodup
    have hsplit : ofValue (first :: rest) piece.value =
        ofValue [first] piece.value ++ ofValue rest piece.value := ofValue_append [first] rest _
    rw [hsplit]
    obtain rfl | h := List.mem_cons.mp h
    · rw [ofValue_singleton_self, ofValue_eq_nil, List.append_nil]
      exact fun other hother heq => hfirst (List.mem_map.mpr ⟨other, hother, heq⟩)
    · rw [ih hrest h, ofValue_singleton_of_ne, List.nil_append]
      exact fun heq => hfirst (List.mem_map.mpr ⟨piece, h, heq.symm⟩)

theorem ofValue_filter_ne_self (pieces : List Piece) (v : ValueId) :
    ofValue (pieces.filter (·.value ≠ v)) v = [] :=
  ofValue_eq_nil fun piece hpiece => by simpa using (List.mem_filter.mp hpiece).2

/-- Taking out one value leaves the pieces of the others. -/
theorem ofValue_filter_ne {pieces : List Piece} {v w : ValueId} (h : w ≠ v) :
    ofValue (pieces.filter (·.value ≠ v)) w = ofValue pieces w := by
  rw [ofValue, ofValue, List.filter_filter]
  refine List.filter_congr fun piece _ => ?_
  by_cases hw : piece.value = w <;> simp [hw, h]

/-- Pieces of different values can be taken apart in two. -/
theorem ofValue_filter_append {pieces : List Piece} (hnodup : (pieces.map (·.value)).Nodup)
    (p : Piece → Bool) (v : ValueId) :
    ofValue (pieces.filter p) v ++ ofValue (pieces.filter (!p ·)) v = ofValue pieces v := by
  have hcomm : ∀ q : Piece → Bool, ofValue (pieces.filter q) v = (ofValue pieces v).filter q := by
    intro q
    rw [ofValue, ofValue, List.filter_comm]
  rw [hcomm, hcomm]
  by_cases hv : ∃ piece ∈ pieces, piece.value = v
  · obtain ⟨piece, hpiece, rfl⟩ := hv
    rw [ofValue_eq_singleton hnodup hpiece]
    by_cases hp : p piece = true <;> simp [hp]
  · rw [ofValue_eq_nil fun piece hpiece heq => hv ⟨piece, hpiece, heq⟩]
    rfl

end Piece

namespace Scan

variable {u : CodeUnit} {config : Config} {reserved : Reserved} {scan : Scan} {now : Position}

/-! ## Where the pieces are -/

/-- At `now` the pieces of the scan do not clash with each other or with the fixed ones. -/
structure Placed (u : CodeUnit) (reserved : Reserved) (now : Position) (scan : Scan) : Prop where
  fits : ∀ piece ∈ scan.ended ++ scan.active, piece.Fits u.pool
  ended : ∀ piece ∈ scan.ended, piece.stop ≤ now
  live : ∀ piece ∈ scan.active, piece.start ≤ now ∧ now < piece.stop
  apart : ∀ piece ∈ scan.ended ++ scan.active, ∀ other ∈ scan.ended ++ scan.active,
    piece = other ∨ piece.Apart u.pool other
  /-- Active pieces take different slots. -/
  disjoint : ∀ piece ∈ scan.active, ∀ other ∈ scan.active,
    piece = other ∨ ∀ slot, piece.usesSlot u.pool slot = true → other.usesSlot u.pool slot = false
  apartFixed : ∀ piece ∈ scan.ended ++ scan.active, ∀ other ∈ reserved.pieces,
    other.Apart u.pool piece

/-- A slot is free if the fixed pieces leave room and no active piece uses it. -/
theorem slotFree_iff {live : LiveRange} {slot : Register} :
    scan.slotFree u reserved live slot = true ↔
      (reserved.rangeAt slot).conflicts live = false ∧
        ∀ piece ∈ scan.active, piece.usesSlot u.pool slot = false := by
  simp [slotFree]

/-- No piece appears when others end. -/
theorem mem_of_mem_expire {position : Position} {piece : Piece}
    (h : piece ∈ (scan.expire position).ended ++ (scan.expire position).active) :
    piece ∈ scan.ended ++ scan.active := by
  simp only [Scan.expire, List.mem_append, List.mem_filter] at h ⊢
  grind

/-- A value that becomes active has one more piece. -/
theorem mem_activate {v : ValueId} {register : Register} {piece : Piece}
    (h : piece ∈ (scan.activate u v register).ended ++ (scan.activate u v register).active) :
    piece ∈ scan.ended ++ scan.active ∨
      piece = ⟨v, (u.value v).start, (u.value v).stop, register⟩ := by
  simpa [Scan.activate, or_assoc] using h

/-- Time goes on: pieces that stop until `position` end. -/
theorem Placed.expire (h : scan.Placed u reserved now) {position : Position}
    (hle : now ≤ position) : (scan.expire position).Placed u reserved position := by
  have hmem : ∀ piece, piece ∈ (scan.expire position).ended ++ (scan.expire position).active →
      piece ∈ scan.ended ++ scan.active := fun piece => mem_of_mem_expire
  have hactive : ∀ piece, piece ∈ (scan.expire position).active →
      piece ∈ scan.active ∧ position < piece.stop := by
    intro piece hpiece
    simpa [Scan.expire] using hpiece
  refine ⟨fun piece hpiece => h.fits piece (hmem piece hpiece), ?_, ?_, ?_, ?_, ?_⟩
  · intro piece hpiece
    simp only [Scan.expire, List.mem_append, List.mem_filter, decide_eq_true_eq] at hpiece
    obtain hpiece | ⟨-, hstop⟩ := hpiece
    · exact Int64.le_trans (h.ended piece hpiece) hle
    · exact hstop
  · intro piece hpiece
    obtain ⟨hpiece, hstop⟩ := hactive piece hpiece
    exact ⟨Int64.le_trans (h.live piece hpiece).1 hle, hstop⟩
  · exact fun piece hpiece other hother => h.apart _ (hmem piece hpiece) _ (hmem other hother)
  · exact fun piece hpiece other hother =>
      h.disjoint _ (hactive piece hpiece).1 _ (hactive other hother).1
  · exact fun piece hpiece => h.apartFixed _ (hmem piece hpiece)

/-- A piece that starts now in slots that are free becomes active. -/
theorem Placed.add (h : scan.Placed u reserved now) (hreserved : reserved.Sound u) (piece : Piece)
    (hfits : piece.Fits u.pool) (hstart : piece.start = now) (hstop : now < piece.stop)
    (hfree : ∀ slot, piece.usesSlot u.pool slot = true →
      scan.slotFree u reserved (.single piece.start piece.stop) slot = true) (moves : MoveTable) :
    Placed u reserved now { active := scan.active ++ [piece], ended := scan.ended, moves } := by
  have hslots : ∀ other ∈ scan.active, ∀ slot, piece.usesSlot u.pool slot = true →
      other.usesSlot u.pool slot = false := fun other hother slot hslot =>
    (slotFree_iff.mp (hfree slot hslot)).2 other hother
  have hslots' : ∀ other ∈ scan.active, ∀ slot, other.usesSlot u.pool slot = true →
      piece.usesSlot u.pool slot = false := by
    intro other hother slot hslot
    by_contra hne
    have hfalse := hslots other hother slot (by simpa using hne)
    rw [hslot] at hfalse
    exact Bool.noConfusion hfalse
  have hnew : ∀ other ∈ scan.ended ++ scan.active, piece.Apart u.pool other := by
    intro other hother position slot hcovers hcovers' huses
    rw [Piece.covers_iff] at hcovers hcovers'
    obtain hother | hother := List.mem_append.mp hother
    · -- pieces that have ended lie behind
      have hended := h.ended other hother
      grind
    · exact hslots other hother slot huses
  have hmem : ∀ other, other ∈ scan.ended ++ (scan.active ++ [piece]) ↔
      other ∈ scan.ended ++ scan.active ∨ other = piece := by simp [or_assoc]
  constructor
  · intro other hother
    obtain hother | rfl := (hmem other).mp hother
    · exact h.fits other hother
    · exact hfits
  · exact h.ended
  · intro other hother
    obtain hother | hother := List.mem_append.mp hother
    · exact h.live other hother
    · rw [List.mem_singleton.mp hother, hstart]
      exact ⟨Int64.le_refl _, hstop⟩
  · intro other hother third hthird
    obtain hother | hother := (hmem other).mp hother <;>
      obtain hthird | hthird := (hmem third).mp hthird
    · exact h.apart other hother third hthird
    · rw [hthird]
      exact .inr (hnew other hother).symm
    · rw [hother]
      exact .inr (hnew third hthird)
    · exact .inl (hother.trans hthird.symm)
  · intro other hother third hthird
    obtain hother | hother := List.mem_append.mp hother <;>
      obtain hthird | hthird := List.mem_append.mp hthird
    · exact h.disjoint other hother third hthird
    · rw [List.mem_singleton.mp hthird]
      exact .inr (hslots' other hother)
    · rw [List.mem_singleton.mp hother]
      exact .inr (hslots third hthird)
    · exact .inl ((List.mem_singleton.mp hother).trans (List.mem_singleton.mp hthird).symm)
  · intro other hother fixed hfixed
    obtain hother | rfl := (hmem other).mp hother
    · exact h.apartFixed other hother fixed hfixed
    · exact hreserved.apart_of_free
        (fun slot hslot => (slotFree_iff.mp (hfree slot hslot)).1) hfixed

/-- A value is no longer active. -/
theorem Placed.remove (h : scan.Placed u reserved now) (v : ValueId) :
    Placed u reserved now { scan with active := scan.active.filter (·.value ≠ v) } := by
  have hactive : ∀ piece ∈ scan.active.filter (·.value ≠ v), piece ∈ scan.active :=
    fun piece hpiece => List.mem_of_mem_filter hpiece
  have hmem : ∀ piece ∈ scan.ended ++ scan.active.filter (·.value ≠ v),
      piece ∈ scan.ended ++ scan.active := fun piece hpiece =>
    List.mem_append.mpr ((List.mem_append.mp hpiece).imp_right (hactive piece))
  exact ⟨fun piece hpiece => h.fits _ (hmem piece hpiece), h.ended,
    fun piece hpiece => h.live _ (hactive piece hpiece),
    fun piece hpiece other hother => h.apart _ (hmem piece hpiece) _ (hmem other hother),
    fun piece hpiece other hother => h.disjoint _ (hactive piece hpiece) _ (hactive other hother),
    fun piece hpiece => h.apartFixed _ (hmem piece hpiece)⟩

/-- What an active piece has been until now stays behind when its value is removed. -/
theorem Placed.cut (h : scan.Placed u reserved now) {victim : Piece}
    (hvictim : victim ∈ scan.active) :
    Placed u reserved now
      { scan with
        active := scan.active.filter (·.value ≠ victim.value)
        ended := scan.ended ++ [{ victim with stop := now }] } := by
  have hremove := h.remove victim.value
  have hall : victim ∈ scan.ended ++ scan.active := List.mem_append_right _ hvictim
  -- the part takes no more than the victim did
  have hcovers : ∀ position, ({ victim with stop := now } : Piece).covers position = true →
      victim.covers position = true := by
    intro position hcovers
    have hlive := h.live victim hvictim
    simp only [Piece.covers_iff] at hcovers ⊢
    grind
  have hhead : ∀ other ∈ scan.ended ++ scan.active.filter (·.value ≠ victim.value),
      ({ victim with stop := now } : Piece).Apart u.pool other := by
    intro other hother position slot hcover hcover' huses
    have hne : victim ≠ other := by
      rintro rfl
      obtain hother | hother := List.mem_append.mp hother
      · have hlive := h.live _ hvictim
        have hended := h.ended _ hother
        grind
      · simpa using (List.mem_filter.mp hother).2
    have hother' : other ∈ scan.ended ++ scan.active :=
      List.mem_append.mpr ((List.mem_append.mp hother).imp_right List.mem_of_mem_filter)
    exact (h.apart victim hall other hother').resolve_left hne position slot
      (hcovers position hcover) hcover' huses
  have hmem : ∀ piece, piece ∈ scan.ended ++ [{ victim with stop := now }] ++
      scan.active.filter (·.value ≠ victim.value) →
      piece ∈ scan.ended ++ scan.active.filter (·.value ≠ victim.value) ∨
        piece = { victim with stop := now } := by
    intro piece hpiece
    simp only [List.mem_append, List.mem_singleton] at hpiece ⊢
    tauto
  constructor
  · intro piece hpiece
    obtain hpiece | rfl := hmem piece hpiece
    · exact hremove.fits piece hpiece
    · exact h.fits victim hall
  · intro piece hpiece
    obtain hpiece | hpiece := List.mem_append.mp hpiece
    · exact h.ended piece hpiece
    · rw [List.mem_singleton.mp hpiece]
      exact Int64.le_refl _
  · exact hremove.live
  · intro piece hpiece other hother
    obtain hpiece | rfl := hmem piece hpiece <;> obtain hother | rfl := hmem other hother
    · exact hremove.apart piece hpiece other hother
    · exact .inr (hhead piece hpiece).symm
    · exact .inr (hhead other hother)
    · exact .inl rfl
  · exact hremove.disjoint
  · intro piece hpiece fixed hfixed
    obtain hpiece | rfl := hmem piece hpiece
    · exact hremove.apartFixed piece hpiece fixed hfixed
    · intro position slot hcover hcover' huses
      exact h.apartFixed victim hall fixed hfixed position slot hcover
        (hcovers position hcover') huses

/-! ## Which values have pieces -/

/-- Only the values `done` have pieces, and no value is active twice. -/
structure Listed (done : List ValueId) (scan : Scan) : Prop where
  among : ∀ piece ∈ scan.ended ++ scan.active, piece.value ∈ done
  nodup : (scan.active.map (·.value)).Nodup

variable {done : List ValueId}

/-- There are no more active pieces than values that have been dealt with. -/
theorem Listed.length_active_le (h : scan.Listed done) {vs : List ValueId} (hdone : done ⊆ vs) :
    scan.active.length ≤ vs.length := by
  have hsub : scan.active.map (·.value) ⊆ vs := by
    intro v hv
    obtain ⟨piece, hpiece, rfl⟩ := List.mem_map.mp hv
    exact hdone (h.among piece (List.mem_append_right _ hpiece))
  have hlength := (List.subperm_of_subset h.nodup hsub).length_le
  rwa [List.length_map] at hlength

/-- Pieces that end stay with their values. -/
theorem Listed.ofValue_expire (h : scan.Listed done) (position : Position) (v : ValueId) :
    Piece.ofValue ((scan.expire position).ended ++ (scan.expire position).active) v =
      Piece.ofValue (scan.ended ++ scan.active) v := by
  simp only [Scan.expire, Piece.ofValue_append, List.append_assoc]
  rw [Piece.ofValue_filter_append h.nodup (fun piece => decide (piece.stop ≤ position)) v]

/-- Pieces that have ended are still listed. -/
theorem Listed.expire (h : scan.Listed done) (position : Position) :
    (scan.expire position).Listed done :=
  ⟨fun piece hpiece => h.among piece (mem_of_mem_expire hpiece),
    h.nodup.sublist (List.Sublist.map _ List.filter_sublist)⟩

/-- A value that had no piece gets one over its whole interval. -/
theorem Listed.ofValue_activate (h : scan.Listed done) {v : ValueId} (hv : v ∉ done)
    (register : Register) (w : ValueId) :
    Piece.ofValue ((scan.activate u v register).ended ++ (scan.activate u v register).active) w =
      if w = v then [⟨v, (u.value v).start, (u.value v).stop, register⟩]
      else Piece.ofValue (scan.ended ++ scan.active) w := by
  rw [Scan.activate, ← List.append_assoc, Piece.ofValue_append]
  split
  · next heq =>
    have hnone : Piece.ofValue (scan.ended ++ scan.active) v = [] :=
      Piece.ofValue_eq_nil fun piece hpiece hvalue => hv (hvalue ▸ h.among piece hpiece)
    rw [heq, hnone]
    exact Piece.ofValue_singleton_self ⟨v, (u.value v).start, (u.value v).stop, register⟩
  · next hne =>
    rw [Piece.ofValue_singleton_of_ne fun heq => hne heq.symm, List.append_nil]

/-- A value that becomes active is listed. -/
theorem Listed.activate (h : scan.Listed done) {v : ValueId} (hv : v ∉ done)
    (register : Register) : (scan.activate u v register).Listed (v :: done) := by
  refine ⟨fun piece hpiece => ?_, ?_⟩
  · obtain hpiece | rfl := mem_activate hpiece
    · exact List.mem_cons_of_mem _ (h.among piece hpiece)
    · exact List.mem_cons_self
  · simp only [Scan.activate, List.map_append, List.map_cons, List.map_nil]
    refine List.nodup_append.mpr ⟨h.nodup, List.nodup_singleton _, fun w hw x hx => ?_⟩
    obtain ⟨piece, hpiece, rfl⟩ := List.mem_map.mp hw
    rw [List.mem_singleton.mp hx]
    exact fun heq => hv (heq ▸ h.among piece (List.mem_append_right _ hpiece))

section Evict

variable {victim tail : Piece} {heads : List Piece}
  (hheads : ∀ head ∈ heads, head.value = victim.value) (htail : tail.value = victim.value)
include hheads htail

/-- The pieces after a victim has given way: those of other values stay, and the last of its own is
replaced. -/
theorem ofValue_evicted (v : ValueId) :
    Piece.ofValue
      (scan.ended ++ heads ++ (scan.active.filter (·.value ≠ victim.value) ++ [tail])) v =
      if v = victim.value then Piece.ofValue scan.ended v ++ heads ++ [tail]
      else Piece.ofValue (scan.ended ++ scan.active) v := by
  simp only [Piece.ofValue_append]
  by_cases hv : v = victim.value
  · subst hv
    have hself : Piece.ofValue heads victim.value = heads :=
      List.filter_eq_self.mpr fun head hhead => by simpa using hheads head hhead
    rw [if_pos rfl, hself, Piece.ofValue_filter_ne_self, ← htail, Piece.ofValue_singleton_self]
    rfl
  · have hnone : Piece.ofValue heads v = [] :=
      Piece.ofValue_eq_nil fun head hhead heq => hv (heq.symm.trans (hheads head hhead))
    rw [if_neg hv, hnone, Piece.ofValue_filter_ne hv,
      Piece.ofValue_singleton_of_ne (fun heq => hv (heq.symm.trans htail))]
    simp

/-- A victim that gives way is still listed. -/
theorem Listed.evicted (h : scan.Listed done) (hvictim : victim ∈ scan.active) (moves : MoveTable) :
    Listed done
      { active := scan.active.filter (·.value ≠ victim.value) ++ [tail]
        ended := scan.ended ++ heads
        moves } := by
  constructor
  · intro piece hpiece
    have hdone := h.among victim (List.mem_append_right _ hvictim)
    simp only [List.mem_append, List.mem_singleton] at hpiece
    obtain (hpiece | hpiece) | hpiece | rfl := hpiece
    · exact h.among piece (List.mem_append_left _ hpiece)
    · exact hheads piece hpiece ▸ hdone
    · exact h.among piece (List.mem_append_right _ (List.mem_of_mem_filter hpiece))
    · exact htail ▸ hdone
  · dsimp only
    rw [List.map_append, List.nodup_append]
    refine ⟨h.nodup.sublist (List.Sublist.map _ List.filter_sublist), List.nodup_singleton _, ?_⟩
    intro v hv w hw
    obtain ⟨piece, hpiece, rfl⟩ := List.mem_map.mp hv
    obtain rfl : w = victim.value := (List.mem_singleton.mp hw).trans htail
    simpa using (List.mem_filter.mp hpiece).2

end Evict

/-! ## What is written down -/

/-- The move that takes a value from its first piece to its second. A constant is made again. -/
def relocation (u : CodeUnit) (head tail : Piece) : Move :=
  match u.pool.constant? head.value with
  | some constant => ⟨tail.register, .constant constant, (u.value head.value).type⟩
  | none => .ofRegisters tail.register head.register (u.value head.value).type

/-- The pieces and the moves of the values `done`. -/
structure Recorded (u : CodeUnit) (config : Config) (done : List ValueId) (scan : Scan) : Prop
    extends Listed done scan where
  layout : ∀ v ∈ done, Piece.Layout u config v (Piece.ofValue (scan.ended ++ scan.active) v)
  ordered : scan.moves.Ordered
  /-- The moves are those of the values with two pieces. -/
  moves : ∀ position move, move ∈ scan.moves.movesAt position ↔
    ∃ v head tail, Piece.ofValue (scan.ended ++ scan.active) v = [head, tail] ∧
      tail.start = position ∧ move = relocation u head tail

/-- Pieces that have ended are still recorded. -/
theorem Recorded.expire (h : scan.Recorded u config done) (position : Position) :
    (scan.expire position).Recorded u config done := by
  have hpieces := h.ofValue_expire position
  refine ⟨h.toListed.expire position, fun v hv => hpieces v ▸ h.layout v hv, h.ordered,
    fun other move => ?_⟩
  simp only [hpieces]
  exact h.moves other move

/-- A value gets its first piece. -/
theorem Recorded.activate (h : scan.Recorded u config done) {v : ValueId} (hv : v ∉ done)
    (register : Register) : (scan.activate u v register).Recorded u config (v :: done) := by
  have hpieces := h.toListed.ofValue_activate (u := u) hv register
  refine ⟨h.toListed.activate hv register, fun w hw => ?_, h.ordered, fun position move => ?_⟩
  · rw [hpieces]
    split
    · next heq =>
      rw [heq]
      exact .whole register
    · next hne => exact h.layout w ((List.mem_cons.mp hw).resolve_left hne)
  · refine (h.moves position move).trans (exists_congr fun w => ?_)
    rw [hpieces]
    split
    · next heq =>
      have hnone : Piece.ofValue (scan.ended ++ scan.active) v = [] :=
        Piece.ofValue_eq_nil fun piece hpiece hvalue => hv (hvalue ▸ h.among piece hpiece)
      rw [heq, hnone]
      simp
    · rfl

/-- A piece among the allocatable registers is the only one of its value. -/
theorem Recorded.whole_of_candidate (h : scan.Recorded u config done) {victim : Piece}
    (hvictim : victim ∈ scan.active) (hfits : victim.Fits u.pool)
    (hlow : ¬ config.registers < victim.register + u.pool.width victim.value) :
    Piece.ofValue scan.ended victim.value = [] ∧ victim.Whole u.pool ∧
      victim.register < config.registers := by
  have hlt : victim.register < victim.register + u.pool.width victim.value := hfits.2
  have hactive := Piece.ofValue_eq_singleton h.nodup hvictim
  have hlayout := h.layout victim.value (h.among victim (List.mem_append_right _ hvictim))
  rw [Piece.ofValue_append, hactive] at hlayout
  generalize hended : Piece.ofValue scan.ended victim.value = ended at hlayout ⊢
  generalize hpieces : ended ++ [victim] = pieces at hlayout
  cases hlayout with
  | whole register =>
    obtain ⟨rfl, heq⟩ := List.append_inj' (hpieces.trans (List.nil_append _).symm) rfl
    rw [List.singleton_inj] at heq
    exact ⟨rfl, by rw [heq]; exact ⟨rfl, rfl⟩, by grind⟩
  | split register spill position hstart hstop hlow' hspill =>
    -- the second piece of a value is above the allocatable registers
    obtain ⟨-, heq⟩ := List.append_inj' (show ended ++ [victim] = [_] ++ [_] from hpieces) rfl
    rw [List.singleton_inj] at heq
    have hregister : victim.register = spill := congrArg Piece.register heq
    grind

section Evict

variable {victim : Piece}

/-- A victim that is whole has one piece. -/
theorem Recorded.ofValue_victim (h : scan.Recorded u config done) (hvictim : victim ∈ scan.active)
    (hended : Piece.ofValue scan.ended victim.value = []) :
    Piece.ofValue (scan.ended ++ scan.active) victim.value = [victim] := by
  rw [Piece.ofValue_append, hended, Piece.ofValue_eq_singleton h.nodup hvictim]
  rfl

/-- A victim that starts now moves as a whole. -/
theorem Recorded.relocate (h : scan.Recorded u config done) (hvictim : victim ∈ scan.active)
    (hended : Piece.ofValue scan.ended victim.value = []) (hwhole : victim.Whole u.pool)
    (register : Register) :
    Recorded u config done
      { scan with
        active := scan.active.filter (·.value ≠ victim.value) ++ [{ victim with register }] } := by
  have hheads : ∀ head ∈ ([] : List Piece), head.value = victim.value := by simp
  have htail : ({ victim with register } : Piece).value = victim.value := rfl
  have hpieces := @ofValue_evicted scan victim { victim with register } [] hheads htail
  have hlisted := h.toListed.evicted hheads htail hvictim scan.moves
  have hbefore := h.ofValue_victim hvictim hended
  simp only [List.append_nil] at hpieces hlisted
  refine ⟨hlisted, fun v hv => ?_, h.ordered, fun position move => ?_⟩
  · rw [hpieces]
    by_cases heq : v = victim.value
    · obtain ⟨hstart, hstop⟩ := hwhole
      have hlayout := @Piece.Layout.whole u config victim.value register
      rw [CodeUnit.value, ← hstart, ← hstop] at hlayout
      rw [if_pos heq, heq, hended]
      exact hlayout
    · rw [if_neg heq]
      exact h.layout v hv
  · refine (h.moves position move).trans (exists_congr fun v => ?_)
    rw [hpieces]
    by_cases heq : v = victim.value
    · rw [if_pos heq, heq, hbefore, hended]
      simp
    · rw [if_neg heq]

/-- A victim that has started gets a second piece, and a move to it. -/
theorem Recorded.split (h : scan.Recorded u config done) (hvictim : victim ∈ scan.active)
    (hended : Piece.ofValue scan.ended victim.value = []) (hwhole : victim.Whole u.pool)
    {register : Register} (hlow : victim.register < config.registers)
    (hspill : config.registers ≤ register) (hstart : victim.start < now)
    (hstop : now < victim.stop) :
    Recorded u config done
      { active := scan.active.filter (·.value ≠ victim.value) ++
          [{ victim with start := now, register }]
        ended := scan.ended ++ [{ victim with stop := now }]
        moves := scan.moves.add now
          (relocation u { victim with stop := now } { victim with start := now, register }) } := by
  have hheads : ∀ head ∈ [{ victim with stop := now }], head.value = victim.value := by simp
  have htail : ({ victim with start := now, register } : Piece).value = victim.value := rfl
  have hpieces := @ofValue_evicted scan victim { victim with start := now, register }
    [{ victim with stop := now }] hheads htail
  have hbefore := h.ofValue_victim hvictim hended
  refine ⟨h.toListed.evicted hheads htail hvictim _, fun v hv => ?_, h.ordered.add _ _,
    fun position move => ?_⟩
  · rw [hpieces]
    by_cases heq : v = victim.value
    · obtain ⟨hstart', hstop'⟩ := hwhole
      have hlayout := @Piece.Layout.split u config victim.value victim.register register now
        (by rw [CodeUnit.value, ← hstart']; exact hstart)
        (by rw [CodeUnit.value, ← hstop']; exact hstop) hlow hspill
      rw [CodeUnit.value, ← hstart', ← hstop'] at hlayout
      rw [if_pos heq, heq, hended]
      exact hlayout
    · rw [if_neg heq]
      exact h.layout v hv
  · rw [MoveTable.movesAt_add h.ordered]
    constructor
    · intro hmove
      by_cases hnew : position = now ∧
          move = relocation u { victim with stop := now } { victim with start := now, register }
      · obtain ⟨rfl, rfl⟩ := hnew
        exact ⟨victim.value, _, _, by rw [hpieces, if_pos rfl, hended]; rfl, rfl, rfl⟩
      · have hold : move ∈ scan.moves.movesAt position := by
          by_cases hnow : position = now
          · rw [if_pos hnow, List.mem_append, List.mem_singleton] at hmove
            rw [hnow]
            exact hmove.resolve_right fun heq => hnew ⟨hnow, heq⟩
          · rwa [if_neg hnow] at hmove
        obtain ⟨v, head, tail, hv, hposition, hmove⟩ := (h.moves position move).mp hold
        refine ⟨v, head, tail, ?_, hposition, hmove⟩
        rw [hpieces, if_neg, hv]
        rintro rfl
        simp [hbefore] at hv
    · rintro ⟨v, head, tail, hv, hposition, hmove⟩
      rw [hpieces] at hv
      by_cases heq : v = victim.value
      · rw [if_pos heq, heq, hended] at hv
        cases hv
        rw [if_pos hposition.symm, List.mem_append]
        exact .inr (List.mem_singleton.mpr hmove)
      · rw [if_neg heq] at hv
        have hold := (h.moves position move).mpr ⟨v, head, tail, hv, hposition, hmove⟩
        by_cases hnow : position = now
        · rw [if_pos hnow, List.mem_append, ← hnow]
          exact .inl hold
        · rwa [if_neg hnow]

end Evict

end Scan
end RegisterAllocation
