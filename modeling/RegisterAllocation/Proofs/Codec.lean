import RegisterAllocation.Cbor.Codec
import Mathlib.Algebra.Group.Nat.Defs
import Mathlib.Data.List.Basic

/-!
# The laws of codecs

What has to hold of a codec for records to survive it: `Codec.Lawful`. An item that keeps to the
limits is read as it was written, what was put into an item is found in it, and what is read keeps
to the limits itself.

It follows that records with few fields and lists of them can be written (`Writable.ofFields`), that
lists are read as what they were made of if their elements are (`Lawful.toList?_ofList?`), and that
what holds of every element that can be read holds of the lists that can
(`Lawful.forall_of_toList?`).
-/

namespace RegisterAllocation
namespace Cbor
namespace Codec

variable {ι α : Type}

/-- Items with at most the given levels that keep to the limits of a codec. -/
inductive Writable (codec : Codec ι) : Nat → ι → Prop where
  | word {levels : Nat} (n : Int64) : Writable codec levels (codec.word n)
  | text {levels : Nat} {s : String} (h : s.utf8ByteSize < 2 ^ 64) :
    Writable codec levels (codec.text s)
  | null {levels : Nat} : Writable codec levels codec.null
  | array {levels : Nat} {items : List ι} (hcount : items.length ≤ codec.maxElements)
    (hitems : ∀ item ∈ items, Writable codec levels item) :
    Writable codec (levels + 1) (codec.array items)
  | record {levels : Nat} {fields : List (Nat × ι)} (hcount : fields.length ≤ codec.maxElements)
    (hnumbers : (fields.map (·.1)).Pairwise (· < ·)) (hwords : ∀ field ∈ fields, field.1 < 2 ^ 63)
    (hfields : ∀ field ∈ fields, Writable codec levels field.2) :
    Writable codec (levels + 1) (codec.record fields)

/-- The items that are found in what is read from bytes. -/
inductive Within (codec : Codec ι) (bytes : List UInt8) : ι → Prop where
  | read {item : ι} (h : codec.read? bytes = some item) : Within codec bytes item
  | element {item element : ι} {items : List ι} (hitem : Within codec bytes item)
    (h : codec.toArray? item = some (some items)) (hmem : element ∈ items) :
    Within codec bytes element
  | field {item : ι} {fields : List (Nat × ι)} {field : Nat × ι} (hitem : Within codec bytes item)
    (h : codec.toRecord? item = some fields) (hmem : field ∈ fields) : Within codec bytes field.2

/-- The laws of a codec. -/
structure Lawful (codec : Codec ι) : Prop where
  /-- There is room for four fields. -/
  four_le_maxElements : 4 ≤ codec.maxElements
  /-- There is room for records in lists of records in lists of a record. -/
  five_le_maxLevels : 5 ≤ codec.maxLevels
  /-- Items are read as they were written. -/
  read_write : ∀ {item : ι}, codec.Writable codec.maxLevels item →
    codec.read? (codec.write item) = some item
  toWord_word : ∀ n : Int64, codec.toWord? (codec.word n) = some n
  toText_text : ∀ s : String, codec.toText? (codec.text s) = some s
  toArray_array : ∀ items : List ι, codec.toArray? (codec.array items) = some (some items)
  /-- A missing list is not an empty one. -/
  toArray_null : codec.toArray? codec.null = some none
  toRecord_record : ∀ {fields : List (Nat × ι)}, (fields.map (·.1)).Pairwise (· < ·) →
    codec.toRecord? (codec.record fields) = some fields
  /-- Longer arrays are refused. -/
  length_le : ∀ {bytes : List UInt8} {item : ι} {items : List ι}, codec.Within bytes item →
    codec.toArray? item = some (some items) → items.length ≤ codec.maxElements
  /-- A text is part of the bytes that it is read from. -/
  utf8ByteSize_le : ∀ {bytes : List UInt8} {item : ι} {s : String}, codec.Within bytes item →
    codec.toText? item = some s → s.utf8ByteSize ≤ bytes.length

variable {codec : Codec ι}

/-! ## What is written -/

/-- The numbers of the fields that are there are in order, as those of all fields are. -/
theorem numbers_presentFields {fields : List (Nat × Option ι)}
    (h : (fields.map (·.1)).Pairwise (· < ·)) :
    ((presentFields fields).map (·.1)).Pairwise (· < ·) := by
  refine h.sublist ?_
  clear h
  induction fields with
  | nil => exact .slnil
  | cons field fields ih =>
    obtain ⟨number, item?⟩ := field
    cases item? with
    | none => exact ih.cons number
    | some item => exact ih.cons_cons number

/-- Only fields with a value are present. -/
theorem mem_of_mem_presentFields {fields : List (Nat × Option ι)} {field : Nat × ι}
    (h : field ∈ presentFields fields) : (field.1, some field.2) ∈ fields := by
  obtain ⟨⟨number, item?⟩, hmem, heq⟩ := List.mem_filterMap.mp h
  obtain ⟨item, rfl, rfl⟩ := Option.map_eq_some_iff.mp heq
  exact hmem

/-- A record of at most four fields can be written if its fields can. -/
theorem Writable.ofFields (h : codec.Lawful) {levels : Nat} {fields : List (Nat × Option ι)}
    (hcount : fields.length ≤ 4) (hnumbers : (fields.map (·.1)).Pairwise (· < ·))
    (hwords : ∀ field ∈ fields, field.1 < 2 ^ 63)
    (hfields : ∀ field ∈ fields, ∀ item ∈ field.2, codec.Writable levels item) :
    codec.Writable (levels + 1) (codec.ofFields fields) := by
  have hlength : (presentFields fields).length ≤ codec.maxElements :=
    Nat.le_trans (List.length_filterMap_le _ fields) (Nat.le_trans hcount h.four_le_maxElements)
  exact .record hlength (numbers_presentFields hnumbers)
    (fun _ hfield => hwords _ (mem_of_mem_presentFields hfield))
    (fun _ hfield => hfields _ (mem_of_mem_presentFields hfield) _ rfl)

/-- A list that may be missing can be written if it keeps to the limit and its elements can be. -/
theorem Writable.ofList? {levels : Nat} {item : α → ι} {xs : Option (List α)}
    (hcount : ∀ list ∈ xs, list.length ≤ codec.maxElements)
    (hitems : ∀ list ∈ xs, ∀ x ∈ list, codec.Writable levels (item x)) :
    codec.Writable (levels + 1) (codec.ofList? item xs) := by
  cases xs with
  | none => exact .null
  | some xs =>
    refine .array (by simpa using hcount xs rfl) fun element helement => ?_
    obtain ⟨x, hx, rfl⟩ := List.mem_map.mp helement
    exact hitems xs rfl x hx

/-- A list that is left out when it is empty is otherwise written as it is. -/
theorem mem_ofNonempty? {item : α → ι} {xs : Option (List α)} {found : ι}
    (h : found ∈ codec.ofNonempty? item xs) : found = codec.ofList? item xs := by
  unfold Codec.ofNonempty? at h
  split at h
  · cases h
  · next hne =>
    cases xs with
    | none => exact absurd rfl hne
    | some xs => exact (Option.some.inj h).symm

/-- Only a text that is not empty is written. -/
theorem mem_ofNonemptyText? {s : String} {found : ι} (h : found ∈ codec.ofNonemptyText? s) :
    found = codec.text s := by
  unfold Codec.ofNonemptyText? at h
  split at h
  · cases h
  · exact (Option.some.inj h).symm

/-! ## What is read again -/

namespace Lawful

/-- The fields of a record are those that were not left out. -/
theorem toRecord?_ofFields (h : codec.Lawful) {fields : List (Nat × Option ι)}
    (hnumbers : (fields.map (·.1)).Pairwise (· < ·)) :
    codec.toRecord? (codec.ofFields fields) =
      some (presentFields fields) :=
  h.toRecord_record (numbers_presentFields hnumbers)

/-- Elements that can be read one by one can be read from the list. -/
theorem mapM_map {item : α → ι} {element? : ι → Option α}
    (hread : ∀ x, element? (item x) = some x) (xs : List α) :
    (xs.map item).mapM element? = some xs := by
  induction xs with
  | nil => rfl
  | cons x xs ih => simp [hread, ih]

/-- A list that may be missing is read as it was written. -/
theorem toList?_ofList? (h : codec.Lawful) {item : α → ι} {element? : ι → Option α}
    (hread : ∀ x, element? (item x) = some x) (xs : Option (List α)) :
    codec.toList? element? (codec.ofList? item xs) = some xs := by
  cases xs with
  | none => simp [Codec.toList?, Codec.ofList?, h.toArray_null]
  | some xs => simp [Codec.toList?, Codec.ofList?, h.toArray_array, mapM_map hread]

/-- A text that is left out when it is empty is read as it was. -/
theorem readField?_ofNonemptyText? (h : codec.Lawful) (s : String) :
    (match codec.ofNonemptyText? s with
      | some item => codec.toText? item
      | none => some "") = some s := by
  unfold Codec.ofNonemptyText?
  split_ifs with hs
  · rw [hs]
  · exact h.toText_text s

/-- A list that is left out when it is empty is read as it was, or as missing. -/
theorem readField?_ofNonempty? (h : codec.Lawful) {item : α → ι} {element? : ι → Option α}
    (hread : ∀ x, element? (item x) = some x) (xs : Option (List α)) :
    (match codec.ofNonempty? item xs with
      | some list => codec.toList? element? list
      | none => some none) = some (xs.filter (!·.isEmpty)) := by
  cases xs with
  | none => rfl
  | some xs =>
    cases xs with
    | nil => rfl
    | cons x xs => exact h.toList?_ofList? hread (some (x :: xs))

end Lawful

/-! ## What is found in bytes -/

variable {bytes : List UInt8} {P : α → Prop}

/-- What holds of the empty value and of all that can be read holds of a field. -/
theorem forall_of_readField? {item : ι} {fields : List (Nat × ι)} {number : Nat} {zero x : α}
    {read? : ι → Option α} (hitem : codec.Within bytes item)
    (hfields : codec.toRecord? item = some fields) (hzero : P zero)
    (hread : ∀ {item : ι} {x : α}, codec.Within bytes item → read? item = some x → P x)
    (hx : readField? fields number zero read? = some x) : P x := by
  unfold readField? at hx
  split at hx
  · next found hfound =>
    obtain ⟨before, after, rfl, -⟩ := List.lookup_eq_some_iff.mp hfound
    have hmem : (number, found) ∈ before ++ (number, found) :: after := by simp
    exact hread (hitem.field hfields hmem) hx
  · cases hx
    exact hzero

/-- What holds of every element that is read holds of the whole list, which is as long as the
array. -/
theorem forall_of_mapM {items : List ι} {element? : ι → Option α} {xs : List α}
    (hitems : ∀ item ∈ items, codec.Within bytes item)
    (hread : ∀ {item : ι} {x : α}, codec.Within bytes item → element? item = some x → P x)
    (hxs : items.mapM element? = some xs) : xs.length = items.length ∧ ∀ x ∈ xs, P x := by
  induction items generalizing xs with
  | nil =>
    cases hxs
    simp
  | cons item items ih =>
    obtain ⟨hitem, hitems⟩ := List.forall_mem_cons.mp hitems
    rw [List.mapM_cons] at hxs
    obtain ⟨x, hx, hxs⟩ := Option.bind_eq_some_iff.mp hxs
    obtain ⟨others, hothers, hxs⟩ := Option.bind_eq_some_iff.mp hxs
    cases hxs
    obtain ⟨hlength, hP⟩ := ih hitems hothers
    exact ⟨by rw [List.length_cons, List.length_cons, hlength],
      List.forall_mem_cons.mpr ⟨hread hitem hx, hP⟩⟩

/-- What holds of all that can be read holds of the elements of a list, which keeps to the limit. -/
theorem Lawful.forall_of_toList? (h : codec.Lawful) {item : ι} {element? : ι → Option α}
    {xs : Option (List α)} (hitem : codec.Within bytes item)
    (hread : ∀ {item : ι} {x : α}, codec.Within bytes item → element? item = some x → P x)
    (hxs : codec.toList? element? item = some xs) :
    ∀ list ∈ xs, list.length ≤ codec.maxElements ∧ ∀ x ∈ list, P x := by
  obtain ⟨items?, hitems, hxs⟩ := Option.bind_eq_some_iff.mp hxs
  cases items? with
  | none =>
    cases hxs
    simp
  | some items =>
    obtain ⟨list, hlist, hxs⟩ := Option.bind_eq_some_iff.mp hxs
    cases hxs
    obtain ⟨hlength, hP⟩ :=
      forall_of_mapM (fun _ => hitem.element hitems) hread hlist
    rintro _ ⟨⟩
    exact ⟨hlength ▸ h.length_le hitem hitems, hP⟩

end Codec
end Cbor
end RegisterAllocation
