import RegisterAllocation.Cbor.Reader
import Mathlib.Data.List.Basic
import Mathlib.Algebra.Group.Nat.Defs

/-!
# Reading data items back

Items with definite lengths whose arguments fit in 64 bits and that keep to the limits are read
back from their written form: `Cbor.Item.read?_write`. Whatever is read keeps to the limits, and
its texts are no longer than the bytes: `Cbor.Item.bounded_of_read?`.
-/

namespace RegisterAllocation
namespace Cbor

/-! ## Heads -/

theorem length_bigEndian (count n : Nat) : (bigEndian count n).length = count := by
  induction count generalizing n with
  | zero => rfl
  | succ count ih => rw [bigEndian, List.length_append, ih, List.length_singleton]

theorem ofBigEndian_append (bytes : List UInt8) (byte : UInt8) :
    ofBigEndian (bytes ++ [byte]) = ofBigEndian bytes * 256 + byte.toNat := by
  simp [ofBigEndian]

/-- A number that fits into the bytes is read back from them. -/
theorem ofBigEndian_bigEndian {count n : Nat} (h : n < 256 ^ count) :
    ofBigEndian (bigEndian count n) = n := by
  induction count generalizing n with
  | zero =>
    obtain rfl : n = 0 := by simpa using h
    rfl
  | succ count ih =>
    have hdiv : n / 256 < 256 ^ count := by
      rw [Nat.div_lt_iff_lt_mul (by decide), ← Nat.pow_succ]
      exact h
    rw [bigEndian, ofBigEndian_append, ih hdiv, UInt8.toNat_ofNat']
    omega

/-- A major type is read back from its code. -/
theorem Major.ofCode_code (major : Major) : Major.ofCode major.code = major := by
  cases major <;> rfl

theorem Major.code_lt (major : Major) : major.code < 8 := by
  cases major <;> decide

/-- The initial byte keeps the major type and the short argument apart. -/
theorem toNat_initialByte (major : Major) {short : Nat} (h : short < 32) :
    (initialByte major short).toNat = major.code * 32 + short := by
  have hcode := major.code_lt
  exact UInt8.toNat_ofNat_of_lt' (show major.code * 32 + short < 256 by omega)

/-- Bytes that were put in front are taken off again. -/
theorem take?_append {count : Nat} {bytes : List UInt8} (h : bytes.length = count)
    (rest : List UInt8) : take? count (bytes ++ rest) = some (bytes, rest) := by
  subst h
  simp [take?]

/-- An argument that stands in the initial byte is read back. -/
theorem readHead?_short (major : Major) {n : Nat} (h : n < 24) (rest : List UInt8) :
    readHead? (initialByte major n :: rest) = some (major, .short n, rest) := by
  have hbyte := toNat_initialByte major (show n < 32 by omega)
  have hmajor : (major.code * 32 + n) / 32 = major.code := by omega
  have hshort : (major.code * 32 + n) % 32 = n := by omega
  simp [readHead?, hbyte, hmajor, hshort, h, Major.ofCode_code]

/-- An argument in `2 ^ size` bytes. -/
theorem readHead?_long {major : Major} (size n : Nat) (hsize : size < 4)
    (hmajor : major ≠ .primitive) (rest : List UInt8) :
    readHead? (initialByte major (24 + size) :: (bigEndian (2 ^ size) n ++ rest)) =
      some (major, .long (bigEndian (2 ^ size) n), rest) := by
  have hbyte := toNat_initialByte major (show 24 + size < 32 by omega)
  have hcode : (major.code * 32 + (24 + size)) / 32 = major.code := by omega
  have hshort : (major.code * 32 + (24 + size)) % 32 = 24 + size := by omega
  have hlong : 24 + size < 28 := by omega
  have hcount : 1 <<< size = 2 ^ size := Nat.one_shiftLeft size
  simp [readHead?, hbyte, hcode, hshort, hlong, hmajor, hcount, Major.ofCode_code,
    take?_append (length_bigEndian _ _)]

/-- The shortest head is read back. -/
theorem readHead?_head (major : Major) {n : Nat} (hmajor : major ≠ .primitive) (hn : n < 2 ^ 64)
    (rest : List UInt8) :
    ∃ argument, readHead? (head major n ++ rest) = some (major, argument, rest) ∧
      argument.value = n ∧ argument ≠ .indefinite := by
  unfold head
  split
  · next h => exact ⟨.short n, readHead?_short major h rest, rfl, by simp⟩
  split
  · next h =>
    exact ⟨_, readHead?_long 0 n (by decide) hmajor rest, ofBigEndian_bigEndian h, by simp⟩
  split
  · next h =>
    exact ⟨_, readHead?_long 1 n (by decide) hmajor rest, ofBigEndian_bigEndian h, by simp⟩
  split
  · next h =>
    exact ⟨_, readHead?_long 2 n (by decide) hmajor rest, ofBigEndian_bigEndian h, by simp⟩
  · exact ⟨_, readHead?_long 3 n (by decide) hmajor rest, ofBigEndian_bigEndian hn, by simp⟩

/-- A head is never empty, so reading one makes progress. -/
theorem length_head_pos (major : Major) (n : Nat) : 1 ≤ (head major n).length := by
  unfold head
  split_ifs <;> simp

/-! ## Items -/

namespace Item

/-- Items at the given depth that are written as they are: with definite lengths, arguments of at
most 64 bits, and within the limits. -/
inductive Canonical : Nat → Item → Prop where
  | unsigned {depth n : Nat} (h : n < 2 ^ 64) : Canonical depth (.unsigned n)
  | negative {depth n : Nat} (h : n < 2 ^ 64) : Canonical depth (.negative n)
  | text {depth : Nat} {chunk : List UInt8} (h : chunk.length < 2 ^ 64) :
    Canonical depth (.text [chunk])
  | array {depth : Nat} {items : List Item} (hdepth : depth < maxDepth)
    (hcount : items.length ≤ maxCount) (hitems : ∀ item ∈ items, Canonical (depth + 1) item) :
    Canonical depth (.array items)
  | map {depth count : Nat} {entries : List Item} (hdepth : depth < maxDepth)
    (hcount : count ≤ maxCount) (hlength : entries.length = 2 * count)
    (hentries : ∀ item ∈ entries, Canonical (depth + 1) item) :
    Canonical depth (.map entries)
  | null {depth : Nat} : Canonical depth null

/-- An item is never empty, so reading one makes progress. -/
theorem length_write_pos {depth : Nat} {item : Item} (h : Canonical depth item) :
    1 ≤ item.write.length := by
  cases h with
  | unsigned h | negative h => exact length_head_pos _ _
  | null => decide
  | text h | array _ _ _ | map _ _ _ _ =>
    rw [write, List.length_append]
    exact Nat.le_add_right_of_le (length_head_pos _ _)

end Item

open Item

section

variable {fuel depth : Nat} (rest : List UInt8)

/-- An unsigned number is read back. -/
theorem readItem?_unsigned {n : Nat} (h : n < 2 ^ 64) :
    readItem? (fuel + 1) depth ((Item.unsigned n).write ++ rest) = some (.unsigned n, rest) := by
  obtain ⟨argument, hread, rfl, -⟩ := readHead?_head .unsigned (by decide) h rest
  simp [readItem?, write, hread]

/-- A negative number is read back. -/
theorem readItem?_negative {n : Nat} (h : n < 2 ^ 64) :
    readItem? (fuel + 1) depth ((Item.negative n).write ++ rest) = some (.negative n, rest) := by
  obtain ⟨argument, hread, rfl, -⟩ := readHead?_head .negative (by decide) h rest
  simp [readItem?, write, hread]

/-- The item `null` is read back. -/
theorem readItem?_null : readItem? (fuel + 1) depth (null.write ++ rest) = some (null, rest) := by
  have hread := readHead?_short .primitive (show 22 < 24 by decide) rest
  have hwrite : null.write = [initialByte .primitive 22] := rfl
  rw [hwrite, List.singleton_append]
  simp [readItem?, hread, Item.ofPrimitive, null]

/-- A text in one chunk is read back, and nothing after it is touched. -/
theorem readItem?_text {chunk : List UInt8} (h : chunk.length < 2 ^ 64) :
    readItem? (fuel + 1) depth ((Item.text [chunk]).write ++ rest) =
      some (.text [chunk], rest) := by
  obtain ⟨argument, hread, hvalue, hdefinite⟩ :=
    readHead?_head .text (by decide) h (chunk ++ rest)
  have hwrite : (Item.text [chunk]).write ++ rest = head .text chunk.length ++ (chunk ++ rest) := by
    simp [write]
  simp [hwrite, readItem?, hread, readString?, hdefinite, take?_append hvalue.symm]

/-- An array is read back if its elements are. -/
theorem readItem?_array {items : List Item} (hdepth : depth < maxDepth)
    (hcount : items.length ≤ maxCount)
    (hitems : readItems? fuel (depth + 1) items.length (writeAll items ++ rest) =
      some (items, rest)) :
    readItem? (fuel + 1) depth ((Item.array items).write ++ rest) = some (.array items, rest) := by
  have hlimit : items.length < 2 ^ 64 := Nat.lt_of_le_of_lt hcount (by decide)
  obtain ⟨argument, hread, hvalue, hdefinite⟩ :=
    readHead?_head .array (by decide) hlimit (writeAll items ++ rest)
  rw [write, List.append_assoc]
  simp [readItem?, hread, hdefinite, hvalue, hitems, Nat.not_le.mpr hdepth,
    Nat.not_lt.mpr hcount]

/-- A map is read back if its keys and values are. -/
theorem readItem?_map {count : Nat} {entries : List Item} (hdepth : depth < maxDepth)
    (hcount : count ≤ maxCount) (hlength : entries.length = 2 * count)
    (hentries : readItems? fuel (depth + 1) entries.length (writeAll entries ++ rest) =
      some (entries, rest)) :
    readItem? (fuel + 1) depth ((Item.map entries).write ++ rest) = some (.map entries, rest) := by
  have hlimit : count < 2 ^ 64 := Nat.lt_of_le_of_lt hcount (by decide)
  obtain ⟨argument, hread, hvalue, hdefinite⟩ :=
    readHead?_head .map (by decide) hlimit (writeAll entries ++ rest)
  have hhalf : entries.length / 2 = count := by omega
  rw [write, List.append_assoc, hhalf]
  rw [hlength] at hentries
  simp [readItem?, hread, hdefinite, hvalue, hentries, Nat.not_le.mpr hdepth,
    Nat.not_lt.mpr hcount, hlength]

end

/-- Written items are read back, with fuel for two steps for each byte. -/
theorem readItem?_write_both (fuel : Nat) :
    (∀ depth item rest, Canonical depth item → 2 * item.write.length ≤ fuel + 1 →
      readItem? fuel depth (item.write ++ rest) = some (item, rest)) ∧
    (∀ depth items rest, (∀ item ∈ items, Canonical depth item) →
      2 * (writeAll items).length ≤ fuel →
      readItems? fuel depth items.length (writeAll items ++ rest) = some (items, rest)) := by
  induction fuel with
  | zero =>
    refine ⟨fun depth item rest hitem hfuel => ?_, fun depth items rest hitems hfuel => ?_⟩
    · have hpos := length_write_pos hitem
      omega
    · cases items with
      | nil => simp [readItems?, writeAll]
      | cons item items =>
        have hpos := length_write_pos (hitems item List.mem_cons_self)
        rw [writeAll, List.length_append] at hfuel
        omega
  | succ fuel ih =>
    obtain ⟨ihItem, ihItems⟩ := ih
    refine ⟨fun depth item rest hitem hfuel => ?_, fun depth items rest hitems hfuel => ?_⟩
    · cases hitem with
      | unsigned h => exact readItem?_unsigned rest h
      | negative h => exact readItem?_negative rest h
      | null => exact readItem?_null rest
      | text h => exact readItem?_text rest h
      | @array _ items hdepth hcount hitems =>
        have hhead := length_head_pos .array items.length
        rw [write, List.length_append] at hfuel
        exact readItem?_array rest hdepth hcount (ihItems _ _ _ hitems (by omega))
      | @map _ count entries hdepth hcount hlength hentries =>
        have hhead := length_head_pos .map (entries.length / 2)
        rw [write, List.length_append] at hfuel
        exact readItem?_map rest hdepth hcount hlength (ihItems _ _ _ hentries (by omega))
    · cases items with
      | nil => simp [readItems?, writeAll]
      | cons item items =>
        obtain ⟨hitem, hitems⟩ := List.forall_mem_cons.mp hitems
        have hpos := length_write_pos hitem
        rw [writeAll, List.length_append] at hfuel
        rw [writeAll, List.append_assoc, List.length_cons, readItems?,
          ihItem _ _ _ hitem (by omega)]
        simp [ihItems _ _ _ hitems (by omega)]

/-- A written item is all there is in its bytes. -/
theorem Item.read?_write {item : Item} (h : Canonical 0 item) :
    Item.read? item.write = some item := by
  have hread := (readItem?_write_both (2 * item.write.length + 2)).1 0 item [] h (by omega)
  rw [List.append_nil] at hread
  rw [Item.read?, hread]

/-! ## Limits -/

/-- The limits on what is read from `limit` bytes: an array has no more elements than allowed, and
a text no more bytes than there are. -/
inductive Item.Bounded (limit : Nat) : Item → Prop where
  | unsigned {n : Nat} : Bounded limit (.unsigned n)
  | negative {n : Nat} : Bounded limit (.negative n)
  | bytes {chunks : List (List UInt8)} : Bounded limit (.bytes chunks)
  | text {chunks : List (List UInt8)} (h : chunks.flatten.length ≤ limit) :
    Bounded limit (.text chunks)
  | array {items : List Item} (hcount : items.length ≤ maxCount)
    (hitems : ∀ item ∈ items, Bounded limit item) : Bounded limit (.array items)
  | map {entries : List Item} (hentries : ∀ item ∈ entries, Bounded limit item) :
    Bounded limit (.map entries)
  | tag {number : Nat} {content : Item} (h : Bounded limit content) :
    Bounded limit (.tag number content)
  | simple {n : Nat} : Bounded limit (.simple n)
  | float {payload : List UInt8} : Bounded limit (.float payload)

/-- Taking bytes off does not change them. -/
theorem take?_eq_some {count : Nat} {bs taken rest : List UInt8}
    (h : take? count bs = some (taken, rest)) : bs = taken ++ rest := by
  unfold take? at h
  split at h
  · cases h
    exact (List.take_append_drop count bs).symm
  · cases h

/-- Reading a head does not go back. -/
theorem length_of_readHead? {bs rest : List UInt8} {major : Major} {argument : Argument}
    (h : readHead? bs = some (major, argument, rest)) : rest.length ≤ bs.length := by
  cases bs with
  | nil => simp [readHead?] at h
  | cons byte bs =>
    simp only [readHead?] at h
    split_ifs at h
    · cases h
      simp
    · obtain ⟨⟨payload, after⟩, htake, h⟩ := Option.bind_eq_some_iff.mp h
      have hbs := congrArg List.length (take?_eq_some htake)
      rw [List.length_append] at hbs
      split at h
      · cases h
      · obtain ⟨-, -, rfl⟩ : _ ∧ _ ∧ after = rest := by simpa using h
        rw [List.length_cons]
        omega
    · cases h
      simp

/-- The chunks of a string and what is left are not longer than what was read. -/
theorem length_of_readChunks? {major : Major} {fuel : Nat} {bs rest : List UInt8}
    {chunks : List (List UInt8)} (h : readChunks? major fuel bs = some (chunks, rest)) :
    chunks.flatten.length + rest.length ≤ bs.length := by
  induction fuel generalizing bs chunks rest with
  | zero => cases h
  | succ fuel ih =>
    rw [readChunks?] at h
    split_ifs at h
    · cases h
      simp
    · obtain ⟨⟨chunkMajor, argument, after⟩, hhead, h⟩ := Option.bind_eq_some_iff.mp h
      have hafter := length_of_readHead? hhead
      simp only [] at h
      split_ifs at h
      obtain ⟨⟨chunk, behind⟩, htake, h⟩ := Option.bind_eq_some_iff.mp h
      obtain ⟨⟨others, left⟩, hothers, h⟩ := Option.bind_eq_some_iff.mp h
      cases h
      have hchunk := congrArg List.length (take?_eq_some htake)
      have hrest := ih hothers
      simp only [List.flatten_cons, List.length_append] at *
      omega

/-- A string, with its length or in chunks, is not longer than what was read. -/
theorem length_of_readString? {major : Major} {argument : Argument} {bs rest : List UInt8}
    {chunks : List (List UInt8)} (h : readString? major argument bs = some (chunks, rest)) :
    chunks.flatten.length + rest.length ≤ bs.length := by
  unfold readString? at h
  split_ifs at h
  · exact length_of_readChunks? h
  · obtain ⟨⟨chunk, after⟩, htake, h⟩ := Option.bind_eq_some_iff.mp h
    cases h
    rw [take?_eq_some htake]
    simp

/-- Simple values have no texts, so every bound holds. -/
theorem bounded_ofPrimitive (limit : Nat) (argument : Argument) :
    (Item.ofPrimitive argument).Bounded limit := by
  fun_cases Item.ofPrimitive argument
  · exact .simple
  · exact .simple
  · exact .float
  · exact .simple

/-- What an item can be and what is left of the bytes `after` its head. -/
inductive ReadStep (fuel : Nat) (after : List UInt8) : Item → List UInt8 → Prop where
  | unsigned {n : Nat} : ReadStep fuel after (.unsigned n) after
  | negative {n : Nat} : ReadStep fuel after (.negative n) after
  | primitive {argument : Argument} : ReadStep fuel after (.ofPrimitive argument) after
  | bytes {argument : Argument} {chunks : List (List UInt8)} {rest : List UInt8}
    (h : readString? .bytes argument after = some (chunks, rest)) :
    ReadStep fuel after (.bytes chunks) rest
  | text {argument : Argument} {chunks : List (List UInt8)} {rest : List UInt8}
    (h : readString? .text argument after = some (chunks, rest)) :
    ReadStep fuel after (.text chunks) rest
  | array {depth : Nat} {items : List Item} {rest : List UInt8}
    (h : readUntilBreak? fuel depth after = some (items, rest) ∨
      ∃ count, readItems? fuel depth count after = some (items, rest))
    (hcount : items.length ≤ maxCount) : ReadStep fuel after (.array items) rest
  | map {depth : Nat} {entries : List Item} {rest : List UInt8}
    (h : readUntilBreak? fuel depth after = some (entries, rest) ∨
      ∃ count, readItems? fuel depth count after = some (entries, rest)) :
    ReadStep fuel after (.map entries) rest
  | tag {depth number : Nat} {content : Item} {rest : List UInt8}
    (h : readItem? fuel depth after = some (content, rest)) :
    ReadStep fuel after (.tag number content) rest

/-- Elements are read up to their end or by their number. -/
theorem exists_elements {β : Type} {fuel depth count : Nat} {after : List UInt8}
    {argument : Argument} {next : List Item × List UInt8 → Option β} {result : β}
    (h : (if argument = .indefinite then readUntilBreak? fuel depth after >>= next
      else if maxCount < argument.value then none >>= next
      else readItems? fuel depth count after >>= next) = some result) :
    ∃ items rest, (readUntilBreak? fuel depth after = some (items, rest) ∨
      ∃ count, readItems? fuel depth count after = some (items, rest)) ∧
      next (items, rest) = some result := by
  split_ifs at h
  · obtain ⟨⟨items, rest⟩, hitems, h⟩ := Option.bind_eq_some_iff.mp h
    exact ⟨items, rest, .inl hitems, h⟩
  · cases h
  · obtain ⟨⟨items, rest⟩, hitems, h⟩ := Option.bind_eq_some_iff.mp h
    exact ⟨items, rest, .inr ⟨count, hitems⟩, h⟩

/-- Reading an item is reading its head and going on from there with less fuel. -/
theorem readStep_of_readItem? {fuel depth : Nat} {bs rest : List UInt8} {item : Item}
    (h : readItem? (fuel + 1) depth bs = some (item, rest)) :
    ∃ after, after.length ≤ bs.length ∧ ReadStep fuel after item rest := by
  rw [readItem?] at h
  obtain ⟨⟨major, argument, after⟩, hhead, h⟩ := Option.bind_eq_some_iff.mp h
  refine ⟨after, length_of_readHead? hhead, ?_⟩
  cases major with
  | unsigned =>
    cases h
    exact .unsigned
  | negative =>
    cases h
    exact .negative
  | primitive =>
    cases h
    exact .primitive
  | bytes =>
    obtain ⟨⟨chunks, left⟩, hstring, h⟩ := Option.bind_eq_some_iff.mp h
    cases h
    exact .bytes hstring
  | text =>
    obtain ⟨⟨chunks, left⟩, hstring, h⟩ := Option.bind_eq_some_iff.mp h
    cases h
    exact .text hstring
  | array =>
    by_cases hdepth : maxDepth ≤ depth
    · simp [hdepth] at h
    · simp only [hdepth, if_false] at h
      obtain ⟨items, left, hitems, h⟩ := exists_elements h
      obtain ⟨hcount, h⟩ := Option.ite_none_left_eq_some.mp h
      cases h
      exact .array hitems (Nat.not_lt.mp hcount)
  | map =>
    by_cases hdepth : maxDepth ≤ depth
    · simp [hdepth] at h
    · simp only [hdepth, if_false] at h
      obtain ⟨entries, left, hentries, h⟩ := exists_elements h
      obtain ⟨-, h⟩ := Option.ite_none_left_eq_some.mp h
      cases h
      exact .map hentries
  | tag =>
    by_cases hnested : startsWithTag after = true ∧ maxDepth ≤ depth
    · simp [hnested] at h
    · simp only [hnested, if_false] at h
      obtain ⟨⟨content, left⟩, hcontent, h⟩ := Option.bind_eq_some_iff.mp h
      cases h
      exact .tag hcontent

/-- What is read keeps to the limits, and what is left is no longer than before. -/
structure Bounding (limit fuel : Nat) : Prop where
  item : ∀ {depth : Nat} {bs : List UInt8} {item : Item} {rest : List UInt8}, bs.length ≤ limit →
    readItem? fuel depth bs = some (item, rest) → item.Bounded limit ∧ rest.length ≤ bs.length
  items : ∀ {depth count : Nat} {bs : List UInt8} {items : List Item} {rest : List UInt8},
    bs.length ≤ limit → readItems? fuel depth count bs = some (items, rest) →
      (∀ item ∈ items, item.Bounded limit) ∧ rest.length ≤ bs.length
  untilBreak : ∀ {depth : Nat} {bs : List UInt8} {items : List Item} {rest : List UInt8},
    bs.length ≤ limit → readUntilBreak? fuel depth bs = some (items, rest) →
      (∀ item ∈ items, item.Bounded limit) ∧ rest.length ≤ bs.length

namespace Bounding

variable {limit fuel : Nat} {after rest : List UInt8}

/-- The elements of an array or a map are as bounded as those that are read one by one. -/
theorem elements (h : Bounding limit fuel) {depth : Nat} {items : List Item}
    (hlimit : after.length ≤ limit)
    (hread : readUntilBreak? fuel depth after = some (items, rest) ∨
      ∃ count, readItems? fuel depth count after = some (items, rest)) :
    (∀ item ∈ items, item.Bounded limit) ∧ rest.length ≤ after.length := by
  obtain hread | ⟨count, hread⟩ := hread
  · exact h.untilBreak hlimit hread
  · exact h.items hlimit hread

/-- What follows a head gives an item within the bound. -/
theorem readStep (h : Bounding limit fuel) {item : Item} (hlimit : after.length ≤ limit)
    (hstep : ReadStep fuel after item rest) :
    item.Bounded limit ∧ rest.length ≤ after.length := by
  cases hstep with
  | unsigned => exact ⟨.unsigned, Nat.le_refl _⟩
  | negative => exact ⟨.negative, Nat.le_refl _⟩
  | @primitive argument => exact ⟨bounded_ofPrimitive limit argument, Nat.le_refl _⟩
  | bytes hread =>
    have hlength := length_of_readString? hread
    exact ⟨.bytes, by omega⟩
  | text hread =>
    have hlength := length_of_readString? hread
    exact ⟨.text (by omega), by omega⟩
  | array hread hcount =>
    obtain ⟨hitems, hrest⟩ := h.elements hlimit hread
    exact ⟨.array hcount hitems, hrest⟩
  | map hread =>
    obtain ⟨hentries, hrest⟩ := h.elements hlimit hread
    exact ⟨.map hentries, hrest⟩
  | tag hread =>
    obtain ⟨hcontent, hrest⟩ := h.item hlimit hread
    exact ⟨.tag hcontent, hrest⟩

/-- Without fuel nothing is read. -/
theorem zero (limit : Nat) : Bounding limit 0 where
  item _ h := by simp [readItem?] at h
  items {_ count _ _ _} _ h := by
    cases count with
    | zero => simp_all [readItems?]
    | succ count => simp [readItems?] at h
  untilBreak _ h := by simp [readUntilBreak?] at h

/-- If the readers keep to the bound with some fuel, they do so with one more unit of it. -/
theorem succ (h : Bounding limit fuel) : Bounding limit (fuel + 1) where
  item hlimit hread := by
    obtain ⟨after, hafter, hstep⟩ := readStep_of_readItem? hread
    obtain ⟨hitem, hrest⟩ := h.readStep (Nat.le_trans hafter hlimit) hstep
    exact ⟨hitem, Nat.le_trans hrest hafter⟩
  items {_ count _ _ _} hlimit hread := by
    cases count with
    | zero =>
      simp only [readItems?] at hread
      cases hread
      simp
    | succ count =>
      rw [readItems?] at hread
      obtain ⟨⟨item, after⟩, hitem, hread⟩ := Option.bind_eq_some_iff.mp hread
      obtain ⟨⟨others, left⟩, hothers, hread⟩ := Option.bind_eq_some_iff.mp hread
      cases hread
      obtain ⟨hfirst, hafter⟩ := h.item hlimit hitem
      obtain ⟨hbounded, hleft⟩ := h.items (Nat.le_trans hafter hlimit) hothers
      exact ⟨List.forall_mem_cons.mpr ⟨hfirst, hbounded⟩, Nat.le_trans hleft hafter⟩
  untilBreak hlimit hread := by
    rw [readUntilBreak?] at hread
    split_ifs at hread
    · cases hread
      simp
    · obtain ⟨⟨item, after⟩, hitem, hread⟩ := Option.bind_eq_some_iff.mp hread
      obtain ⟨⟨others, left⟩, hothers, hread⟩ := Option.bind_eq_some_iff.mp hread
      cases hread
      obtain ⟨hfirst, hafter⟩ := h.item hlimit hitem
      obtain ⟨hbounded, hleft⟩ := h.untilBreak (Nat.le_trans hafter hlimit) hothers
      exact ⟨List.forall_mem_cons.mpr ⟨hfirst, hbounded⟩, Nat.le_trans hleft hafter⟩

end Bounding

/-- The readers keep to the bound whatever the fuel. -/
theorem bounding (limit fuel : Nat) : Bounding limit fuel := by
  induction fuel with
  | zero => exact .zero limit
  | succ fuel ih => exact ih.succ

/-- No text of an item that is read is longer than the bytes. -/
theorem Item.bounded_of_read? {bs : List UInt8} {item : Item} (h : Item.read? bs = some item) :
    item.Bounded bs.length := by
  unfold Item.read? at h
  split at h
  · next found hread =>
    cases h
    exact ((bounding bs.length _).item (Nat.le_refl _) hread).1
  · cases h

end Cbor
end RegisterAllocation
