import RegisterAllocation.Assignment.Wire
import RegisterAllocation.Proofs.Basic
import RegisterAllocation.Proofs.Codec
import RegisterAllocation.Proofs.StandardCodec

/-!
# Reading assignments back

With a lawful codec the item of every record is read as the record (`Assignment.ofItem?_toItem`). It
can be written if the lists and texts of the record keep to the limits, and they do in every record
that was read. So decoding undoes encoding, up to lists that are left out because they are empty:
`Assignment.decode_undoes_encode`.
-/

namespace RegisterAllocation

open Cbor

/-- An assignment in which empty lists are missing. -/
def Assignment.normalized (assignment : Assignment) : Assignment :=
  { assignment with
    values := assignment.values.filter (!·.isEmpty)
    moves := assignment.moves.filter (!·.isEmpty) }

section Items

variable {ι : Type} {codec : Codec ι}

/-! ## Records -/

/-- The item of a live register is read as the live register. -/
theorem LiveRegister.ofItem?_toItem (h : codec.Lawful) (live : LiveRegister) :
    LiveRegister.ofItem? codec (live.toItem codec) = some live := by
  rw [ofItem?, toItem, h.toRecord?_ofFields (by simp)]
  simp [presentFields, readField?, List.lookup_cons, h.toWord_word]

/-- A value with its registers is read back. -/
theorem ValueRegisters.ofItem?_toItem (h : codec.Lawful) (value : ValueRegisters) :
    ValueRegisters.ofItem? codec (value.toItem codec) = some value := by
  rw [ofItem?, toItem, h.toRecord?_ofFields (by simp)]
  simp [presentFields, readField?, List.lookup_cons, h.toWord_word, h.toText_text,
    h.toList?_ofList? (LiveRegister.ofItem?_toItem h)]

/-- A move is read back, whichever source it has. -/
theorem MoveRecord.ofItem?_toItem (h : codec.Lawful) (move : MoveRecord) :
    MoveRecord.ofItem? codec (move.toItem codec) = some move := by
  have hconstant := h.readField?_ofNonemptyText? move.constant
  rw [ofItem?, toItem, h.toRecord?_ofFields (by simp)]
  cases hitem : codec.ofNonemptyText? move.constant <;> rw [hitem] at hconstant <;>
    simp [presentFields, readField?, List.lookup_cons, h.toWord_word, h.toText_text, hconstant]

/-- The moves of a position are read back. -/
theorem MoveList.ofItem?_toItem (h : codec.Lawful) (list : MoveList) :
    MoveList.ofItem? codec (list.toItem codec) = some list := by
  rw [ofItem?, toItem, h.toRecord?_ofFields (by simp)]
  simp [presentFields, readField?, List.lookup_cons, h.toWord_word,
    h.toList?_ofList? (MoveRecord.ofItem?_toItem h)]

/-- The item of an assignment is read as the assignment, with its empty lists missing. -/
theorem Assignment.ofItem?_toItem (h : codec.Lawful) (assignment : Assignment) :
    Assignment.ofItem? codec (assignment.toItem codec) = some assignment.normalized := by
  have hvalues := h.readField?_ofNonempty? (ValueRegisters.ofItem?_toItem h) assignment.values
  have hmoves := h.readField?_ofNonempty? (MoveList.ofItem?_toItem h) assignment.moves
  rw [ofItem?, toItem, h.toRecord?_ofFields (by simp)]
  cases hv : codec.ofNonempty? (ValueRegisters.toItem codec) assignment.values <;>
    cases hm : codec.ofNonempty? (MoveList.toItem codec) assignment.moves <;>
    rw [hv] at hvalues <;> rw [hm] at hmoves <;>
    simp [presentFields, readField?, List.lookup_cons, h.toWord_word, h.toText_text, hvalues,
      hmoves, normalized]

end Items

/-! ## What can be written -/

namespace Assignment

/-- All types are known. -/
structure Typed (assignment : Assignment) : Prop where
  values : ∀ values ∈ assignment.values, ∀ value ∈ values,
    ∃ type : MoveType, value.type = type.name
  moves : ∀ lists ∈ assignment.moves, ∀ list ∈ lists, ∀ moves ∈ list.moves, ∀ move ∈ moves,
    ∃ type : MoveType, move.type = type.name

/-- The lists have at most `maxElements` elements, and the texts are shorter than `limit` bytes. -/
structure Fits (maxElements limit : Nat) (assignment : Assignment) : Prop where
  unit : assignment.unit.utf8ByteSize < limit
  values : ∀ values ∈ assignment.values, values.length ≤ maxElements ∧
    ∀ value ∈ values, ∀ registers ∈ value.registers, registers.length ≤ maxElements
  moves : ∀ lists ∈ assignment.moves, lists.length ≤ maxElements ∧
    ∀ list ∈ lists, ∀ moves ∈ list.moves, moves.length ≤ maxElements ∧
      ∀ move ∈ moves, move.constant.utf8ByteSize < limit

end Assignment

/-- A name that is accepted is the name of a type. -/
theorem MoveType.exists_of_ofName? {name : String} :
    (MoveType.ofName? name).isNone = false ↔ ∃ type : MoveType, name = type.name := by
  constructor
  · intro h
    obtain ⟨type, htype⟩ := Option.isSome_iff_exists.mp (by simpa using h)
    exact ⟨type, by simpa [eq_comm] using List.find?_some htype⟩
  · rintro ⟨type, rfl⟩
    cases type <;> rfl

/-- The check of one type. -/
theorem MoveType.known_iff {name : String} {error : AssignmentError} :
    (if (MoveType.ofName? name).isNone then Except.error error else .ok ()) = Except.ok () ↔
      ∃ type : MoveType, name = type.name := by
  rw [← MoveType.exists_of_ofName?]
  cases (MoveType.ofName? name).isNone <;> simp

/-- The check passes exactly the assignments whose types are known. -/
theorem Assignment.check_eq_ok_iff {assignment : Assignment} :
    assignment.check = .ok () ↔ assignment.Typed := by
  have hmem : ∀ {α : Type} {xs : Option (List α)} {P : α → Prop},
      (∀ x ∈ xs.getD [], P x) ↔ ∀ list ∈ xs, ∀ x ∈ list, P x := by
    intro α xs P
    cases xs <;> simp
  constructor
  · intro h
    obtain ⟨⟨⟩, hvalues, hmoves⟩ := bind_eq_ok h
    refine ⟨hmem.mp fun value hvalue => MoveType.known_iff.mp (forM_eq_ok hvalues value hvalue),
      hmem.mp fun list hlist => hmem.mp fun move hmove => ?_⟩
    exact MoveType.known_iff.mp (forM_eq_ok (forM_eq_ok hmoves list hlist) move hmove)
  · intro h
    rw [Assignment.check, forM_of_forall fun value hvalue =>
      MoveType.known_iff.mpr (hmem.mpr h.values value hvalue)]
    refine forM_of_forall fun list hlist => forM_of_forall fun move hmove => ?_
    exact MoveType.known_iff.mpr (hmem.mpr (hmem.mpr h.moves list hlist) move hmove)

section Writing

variable {ι : Type} {codec : Codec ι} {levels : Nat}

theorem MoveType.writable_name (type : MoveType) : codec.Writable levels (codec.text type.name) :=
  .text (by cases type <;> decide)

/-- A live register is a record of words. -/
theorem LiveRegister.writable_toItem (h : codec.Lawful) (live : LiveRegister) :
    codec.Writable (levels + 1) (live.toItem codec) := by
  refine .ofFields h (by simp) (by simp) (by simp) ?_
  simp [Codec.Writable.word]

/-- A value with registers is a record of lists of records. -/
theorem ValueRegisters.writable_toItem (h : codec.Lawful) {value : ValueRegisters}
    (htype : ∃ type : MoveType, value.type = type.name)
    (hregisters : ∀ registers ∈ value.registers, registers.length ≤ codec.maxElements) :
    codec.Writable (levels + 3) (value.toItem codec) := by
  obtain ⟨type, htype⟩ := htype
  have hlist : codec.Writable (levels + 2) (codec.ofList? (LiveRegister.toItem codec)
      value.registers) :=
    .ofList? hregisters fun _ _ live _ => live.writable_toItem h
  refine .ofFields h (by simp) (by simp) (by simp) ?_
  simp [Codec.Writable.word, htype, MoveType.writable_name, hlist]

/-- A move is a record of words and texts. -/
theorem MoveRecord.writable_toItem (h : codec.Lawful) {move : MoveRecord}
    (htype : ∃ type : MoveType, move.type = type.name)
    (hconstant : move.constant.utf8ByteSize < 2 ^ 64) :
    codec.Writable (levels + 1) (move.toItem codec) := by
  obtain ⟨type, htype⟩ := htype
  have hconstant : ∀ item ∈ codec.ofNonemptyText? move.constant, codec.Writable levels item :=
    fun item hitem => Codec.mem_ofNonemptyText? hitem ▸ .text hconstant
  refine .ofFields h (by simp) (by simp) (by simp) ?_
  simpa [Codec.Writable.word, htype, MoveType.writable_name] using hconstant

/-- A list of moves is a record of records. -/
theorem MoveList.writable_toItem (h : codec.Lawful) {list : MoveList}
    (hmoves : ∀ moves ∈ list.moves, moves.length ≤ codec.maxElements ∧ ∀ move ∈ moves,
      (∃ type : MoveType, move.type = type.name) ∧ move.constant.utf8ByteSize < 2 ^ 64) :
    codec.Writable (levels + 3) (list.toItem codec) := by
  have hitems : codec.Writable (levels + 2) (codec.ofList? (MoveRecord.toItem codec) list.moves) :=
    .ofList? (fun moves hmem => (hmoves moves hmem).1) fun moves hmem move hmove =>
      MoveRecord.writable_toItem h ((hmoves moves hmem).2 move hmove).1
        ((hmoves moves hmem).2 move hmove).2
  refine .ofFields h (by simp) (by simp) (by simp) ?_
  simp [Codec.Writable.word, hitems]

namespace Assignment

variable {assignment : Assignment}

/-- The item of an assignment that fits has five levels and can be written. -/
theorem writable_toItem (h : codec.Lawful) (htyped : assignment.Typed)
    (hfits : assignment.Fits codec.maxElements (2 ^ 64)) :
    codec.Writable (levels + 5) (assignment.toItem codec) := by
  have hvalues : codec.Writable (levels + 4) (codec.ofList? (ValueRegisters.toItem codec)
      assignment.values) :=
    .ofList? (fun values hmem => (hfits.values values hmem).1) fun values hmem value hvalue =>
      ValueRegisters.writable_toItem h (htyped.values values hmem value hvalue)
        ((hfits.values values hmem).2 value hvalue)
  have hmoves : codec.Writable (levels + 4) (codec.ofList? (MoveList.toItem codec)
      assignment.moves) := by
    refine .ofList? (fun lists hmem => (hfits.moves lists hmem).1) fun lists hmem list hlist => ?_
    refine MoveList.writable_toItem h fun moves hmoves => ?_
    obtain ⟨hcount, hconstants⟩ := (hfits.moves lists hmem).2 list hlist moves hmoves
    exact ⟨hcount, fun move hmove =>
      ⟨htyped.moves lists hmem list hlist moves hmoves move hmove, hconstants move hmove⟩⟩
  refine .ofFields h (by simp) (by simp) (by simp) ?_
  simp only [List.forall_mem_cons, List.not_mem_nil, false_implies, implies_true, and_true]
  refine ⟨?_, ?_, fun item hitem => ?_, fun item hitem => ?_⟩
  · simpa using Codec.Writable.text hfits.unit
  · simpa using Codec.Writable.word assignment.registersUsed
  · exact Codec.mem_ofNonempty? hitem ▸ hvalues
  · exact Codec.mem_ofNonempty? hitem ▸ hmoves

/-- Types are known whether empty lists are there or not. -/
theorem Typed.normalized (h : assignment.Typed) : assignment.normalized.Typed where
  values values hmem := h.values values (Option.mem_filter_iff.mp hmem).1
  moves lists hmem := h.moves lists (Option.mem_filter_iff.mp hmem).1

/-- An assignment whose types are known and that is not too large is read back. -/
theorem decode_encode (h : codec.Lawful) (htyped : assignment.Typed)
    (hfits : assignment.Fits codec.maxElements (2 ^ 64)) :
    decode codec (assignment.encode codec) = .ok assignment.normalized := by
  obtain ⟨levels, hlevels⟩ := Nat.exists_eq_add_of_le' h.five_le_maxLevels
  have hread := h.read_write (hlevels ▸ writable_toItem h htyped hfits)
  rw [decode, encode, hread, Option.bind_some, ofItem?_toItem h]
  simp only [check_eq_ok_iff.mpr htyped.normalized]

end Assignment

end Writing

/-! ## What was read -/

section Reading

variable {ι : Type} {codec : Codec ι} {bytes : List UInt8} {item : ι}

/-- A value that is read does not have too many registers. -/
theorem ValueRegisters.limits_of_ofItem? (h : codec.Lawful) {value : ValueRegisters}
    (hitem : codec.Within bytes item) (hvalue : ValueRegisters.ofItem? codec item = some value) :
    ∀ registers ∈ value.registers, registers.length ≤ codec.maxElements := by
  obtain ⟨fields, hfields, hvalue⟩ := Option.bind_eq_some_iff.mp hvalue
  obtain ⟨_, -, hvalue⟩ := Option.bind_eq_some_iff.mp hvalue
  obtain ⟨_, -, hvalue⟩ := Option.bind_eq_some_iff.mp hvalue
  obtain ⟨registers, hregisters, hvalue⟩ := Option.bind_eq_some_iff.mp hvalue
  cases hvalue
  refine Codec.forall_of_readField? (P := fun registers : Option (List LiveRegister) =>
    ∀ list ∈ registers, list.length ≤ codec.maxElements) hitem hfields (by simp)
    (fun hitem hread list hlist => ?_) hregisters
  exact (h.forall_of_toList? (P := fun _ => True) hitem (fun _ _ => trivial) hread list hlist).1

/-- A move that is read has a constant that is not longer than the bytes. -/
theorem MoveRecord.limits_of_ofItem? (h : codec.Lawful) {move : MoveRecord}
    (hitem : codec.Within bytes item) (hmove : MoveRecord.ofItem? codec item = some move) :
    move.constant.utf8ByteSize ≤ bytes.length := by
  obtain ⟨fields, hfields, hmove⟩ := Option.bind_eq_some_iff.mp hmove
  obtain ⟨_, -, hmove⟩ := Option.bind_eq_some_iff.mp hmove
  obtain ⟨_, -, hmove⟩ := Option.bind_eq_some_iff.mp hmove
  obtain ⟨_, -, hmove⟩ := Option.bind_eq_some_iff.mp hmove
  obtain ⟨constant, hconstant, hmove⟩ := Option.bind_eq_some_iff.mp hmove
  cases hmove
  exact Codec.forall_of_readField? (P := fun s : String => s.utf8ByteSize ≤ bytes.length) hitem
    hfields (by simp) h.utf8ByteSize_le hconstant

/-- A list of moves that is read is not too long, and neither are its constants. -/
theorem MoveList.limits_of_ofItem? (h : codec.Lawful) {list : MoveList}
    (hitem : codec.Within bytes item) (hlist : MoveList.ofItem? codec item = some list) :
    ∀ moves ∈ list.moves, moves.length ≤ codec.maxElements ∧
      ∀ move ∈ moves, move.constant.utf8ByteSize ≤ bytes.length := by
  obtain ⟨fields, hfields, hlist⟩ := Option.bind_eq_some_iff.mp hlist
  obtain ⟨_, -, hlist⟩ := Option.bind_eq_some_iff.mp hlist
  obtain ⟨moves, hmoves, hlist⟩ := Option.bind_eq_some_iff.mp hlist
  cases hlist
  exact Codec.forall_of_readField? (P := fun moves : Option (List MoveRecord) => ∀ list ∈ moves,
    list.length ≤ codec.maxElements ∧ ∀ move ∈ list, move.constant.utf8ByteSize ≤ bytes.length)
    hitem hfields (by simp)
    (fun hitem => h.forall_of_toList? hitem (MoveRecord.limits_of_ofItem? h)) hmoves

namespace Assignment

variable {assignment : Assignment}

/-- What is read from bytes fits. -/
theorem fits_of_ofItem? (h : codec.Lawful) (hitem : codec.Within bytes item)
    (hassignment : Assignment.ofItem? codec item = some assignment) :
    assignment.Fits codec.maxElements (bytes.length + 1) := by
  obtain ⟨fields, hfields, hassignment⟩ := Option.bind_eq_some_iff.mp hassignment
  obtain ⟨unit, hunit, hassignment⟩ := Option.bind_eq_some_iff.mp hassignment
  obtain ⟨_, -, hassignment⟩ := Option.bind_eq_some_iff.mp hassignment
  obtain ⟨values, hvalues, hassignment⟩ := Option.bind_eq_some_iff.mp hassignment
  obtain ⟨moves, hmoves, hassignment⟩ := Option.bind_eq_some_iff.mp hassignment
  cases hassignment
  have hunit : unit.utf8ByteSize ≤ bytes.length :=
    Codec.forall_of_readField? (P := fun s : String => s.utf8ByteSize ≤ bytes.length) hitem hfields
      (by simp) h.utf8ByteSize_le hunit
  have hvalues := Codec.forall_of_readField? (P := fun values : Option (List ValueRegisters) =>
    ∀ list ∈ values, list.length ≤ codec.maxElements ∧ ∀ value ∈ list,
      ∀ registers ∈ value.registers, registers.length ≤ codec.maxElements) hitem hfields (by simp)
    (fun hitem => h.forall_of_toList? hitem (ValueRegisters.limits_of_ofItem? h)) hvalues
  have hmoves := Codec.forall_of_readField? (P := fun moves : Option (List MoveList) =>
    ∀ lists ∈ moves, lists.length ≤ codec.maxElements ∧ ∀ list ∈ lists, ∀ moves ∈ list.moves,
      moves.length ≤ codec.maxElements ∧
        ∀ move ∈ moves, move.constant.utf8ByteSize ≤ bytes.length) hitem hfields (by simp)
    (fun hitem => h.forall_of_toList? hitem (MoveList.limits_of_ofItem? h)) hmoves
  refine ⟨Nat.lt_succ_of_le hunit, hvalues, fun lists hlists => ?_⟩
  obtain ⟨hcount, hlist⟩ := hmoves lists hlists
  exact ⟨hcount, fun list hmem moves hmoves => ⟨(hlist list hmem moves hmoves).1,
    fun move hmove => Nat.lt_succ_of_le ((hlist list hmem moves hmoves).2 move hmove)⟩⟩

/-- What fits into some bytes fits into more. -/
theorem Fits.mono {maxElements limit more : Nat} (h : assignment.Fits maxElements limit)
    (hle : limit ≤ more) : assignment.Fits maxElements more where
  unit := Nat.lt_of_lt_of_le h.unit hle
  values := h.values
  moves lists hlists := by
    obtain ⟨hcount, hlist⟩ := h.moves lists hlists
    exact ⟨hcount, fun list hmem moves hmoves => ⟨(hlist list hmem moves hmoves).1,
      fun move hmove => Nat.lt_of_lt_of_le ((hlist list hmem moves hmoves).2 move hmove) hle⟩⟩

/-- What is decoded has known types and fits. -/
theorem typed_and_fits_of_decode (h : codec.Lawful)
    (hdecode : decode codec bytes = .ok assignment) :
    assignment.Typed ∧ assignment.Fits codec.maxElements (bytes.length + 1) := by
  unfold decode at hdecode
  split at hdecode
  · cases hdecode
  · next found hfound =>
    split at hdecode
    · next hcheck =>
      cases hdecode
      obtain ⟨item, hread, hitem⟩ := Option.bind_eq_some_iff.mp hfound
      exact ⟨check_eq_ok_iff.mp hcheck, fits_of_ofItem? h (.read hread) hitem⟩
    · cases hdecode

/-- **Decoding undoes encoding**, with every lawful codec. An assignment with known types whose
lists keep to the codec's limit on elements and whose texts have fewer than `2 ^ 64` bytes is
decoded from its bytes, with its empty lists missing. So two of them have the same bytes only if
they differ in no more than that. And what is decoded from any bytes, if these are fewer than
`2 ^ 64`, is decoded again from its own bytes in the same sense. -/
theorem decode_undoes_encode {ι : Type} (codec : Codec ι) (h : codec.Lawful) :
    (∀ assignment : Assignment, assignment.Typed → assignment.Fits codec.maxElements (2 ^ 64) →
      decode codec (assignment.encode codec) = .ok assignment.normalized) ∧
    (∀ left right : Assignment, left.Typed → left.Fits codec.maxElements (2 ^ 64) →
      right.Typed → right.Fits codec.maxElements (2 ^ 64) →
      left.encode codec = right.encode codec → left.normalized = right.normalized) ∧
    (∀ (bytes : List UInt8) (assignment : Assignment), bytes.length < 2 ^ 64 →
      decode codec bytes = .ok assignment →
      decode codec (assignment.encode codec) = .ok assignment.normalized) := by
  refine ⟨fun assignment => decode_encode h, ?_, fun bytes assignment hlength hdecode => ?_⟩
  · intro left right hleft hfitsLeft hright hfitsRight heq
    have hread := decode_encode h hleft hfitsLeft
    rw [heq, decode_encode h hright hfitsRight] at hread
    exact (Except.ok.inj hread).symm
  · obtain ⟨htyped, hfits⟩ := typed_and_fits_of_decode h hdecode
    exact decode_encode h htyped (hfits.mono hlength)

/-- A missing list beside an empty one, a move of a constant beside a move of a register, and
numbers of every length. -/
def assorted : Assignment where
  unit := "assorted"
  registersUsed := 70000
  values := some [
    { value := -5, type := "wide", registers := none },
    { value := 24, type := "single", registers := some [] },
    { value := 300, type := "object",
      registers := some [{ start := -9223372036854775808, stop := 4294967296, register := 23 }] }]
  moves := some [
    { position := 4, moves := some [
      { target := 0, source := -1, type := "single", constant := "7" },
      { target := 2, source := 0, type := "wide" }] },
    { position := 6, moves := none }]

/-- The records of `assorted`, with the missing list of registers given as an empty one. -/
def completed : Assignment :=
  { assorted with values := assorted.values.map (·.modifyHead ({ · with registers := some [] })) }

theorem decode_undoes_encode_assorted :
    (assorted.Typed ∧ assorted.Fits Cbor.standard.maxElements (2 ^ 64) ∧
      decode Cbor.standard (assorted.encode Cbor.standard) = .ok assorted) ∧
    (completed.Typed ∧ completed.Fits Cbor.standard.maxElements (2 ^ 64) ∧
      assorted.encode Cbor.standard ≠ completed.encode Cbor.standard) ∧
    -- The fields are not in order, one has a text as its key and more bytes than it needs, and
    -- there is an empty list.
    (decode Cbor.standard [0xa3, 0x61, 0x32, 0x18, 0x07, 0x01, 0x61, 0x75, 0x03, 0x80] =
        .ok { unit := "u", registersUsed := 7, values := some [] } ∧
      decode Cbor.standard
          (encode Cbor.standard { unit := "u", registersUsed := 7, values := some [] }) =
        .ok { unit := "u", registersUsed := 7 }) := by
  obtain ⟨hround, hinjective, hagain⟩ := decode_undoes_encode Cbor.standard Cbor.lawful_standard
  have htyped : assorted.Typed := check_eq_ok_iff.mp (by decide)
  have htyped' : completed.Typed := check_eq_ok_iff.mp (by decide)
  have hfits : assorted.Fits Cbor.standard.maxElements (2 ^ 64) := by constructor <;> decide
  have hfits' : completed.Fits Cbor.standard.maxElements (2 ^ 64) := by constructor <;> decide
  have hread : decode Cbor.standard [0xa3, 0x61, 0x32, 0x18, 0x07, 0x01, 0x61, 0x75, 0x03, 0x80] =
      .ok { unit := "u", registersUsed := 7, values := some [] } := by decide +kernel
  refine ⟨⟨htyped, hfits, hround assorted htyped hfits⟩, ⟨htyped', hfits', fun heq => ?_⟩,
    hread, hagain _ _ (by decide) hread⟩
  have hsame := hinjective assorted completed htyped hfits htyped' hfits' heq
  exact absurd hsame (by decide)

end Assignment

end Reading

end RegisterAllocation
