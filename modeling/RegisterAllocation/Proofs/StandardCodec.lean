import RegisterAllocation.Cbor.Standard
import RegisterAllocation.Proofs.Cbor
import RegisterAllocation.Proofs.Codec
import RegisterAllocation.Proofs.Text.Utf8

/-!
# The standard codec is lawful

Data items are taken apart into what they were made of, the items that records and lists are made of
are written as they are, and what is read keeps to the limits: `Cbor.lawful_standard`.
-/

namespace RegisterAllocation
namespace Cbor

/-! ## Taking items apart -/

/-- A word is read back, be it negative or not. -/
theorem Item.toWord?_ofWord (n : Int64) : (Item.ofWord n).toWord? = some n := by
  have hlow := Int64.le_toInt n
  have hhigh := Int64.toInt_lt n
  have hn := Int64.ofInt_toInt n
  unfold Item.ofWord Item.ofInt
  split
  · next m hm =>
    rw [hm] at hlow hhigh hn
    rw [Item.toWord?, word?, if_pos ⟨hlow, hhigh⟩]
    exact congrArg some hn
  · next m hm =>
    rw [hm] at hlow hhigh hn
    have hneg : (-1 - (m : Int)) = Int.negSucc m := by omega
    rw [Item.toWord?, word?, hneg, if_pos ⟨hlow, hhigh⟩]
    exact congrArg some hn

/-- A text is read back. -/
theorem Item.toText?_ofString (s : String) : (Item.ofString s).toText? = some s := by
  have hread := Utf8.strict?_toUTF8 s
  simp only [Item.ofString, Item.toText?, textOfChunks?, List.mapM_cons, List.mapM_nil, hread]
  simp

/-- A field with an item that is neither tagged nor null. -/
theorem Item.fill?_eq {α : Type} {zero : α} {read? : Item → Option α} {item : Item}
    (htag : item.untagged? = some item) (hnull : item.isNull = false) :
    item.fill? zero read? = read? item := by
  simp [Item.fill?, htag, hnull]

/-- A word is not the null item, so it fills the field. -/
theorem Item.fill?_ofWord (zero n : Int64) :
    (Item.ofWord n).fill? zero Item.toWord? = some n := by
  have hplain : (Item.ofWord n).untagged? = some (.ofWord n) ∧ (Item.ofWord n).isNull = false := by
    unfold Item.ofWord Item.ofInt
    split <;> exact ⟨rfl, rfl⟩
  rw [Item.fill?_eq hplain.1 hplain.2, Item.toWord?_ofWord]

/-- A text is not the null item, so it fills the field. -/
theorem Item.fill?_ofString (zero s : String) :
    (Item.ofString s).fill? zero Item.toText? = some s := by
  rw [Item.fill?_eq rfl rfl, Item.toText?_ofString]

/-! ## Records -/

/-- Fields with ascending numbers are all found, after those that were found before. -/
theorem fields?_entriesOf {seen fields : List (Nat × Item)}
    (h : ((seen ++ fields).map (·.1)).Pairwise (· < ·)) :
    fields? seen (entriesOf fields) = some (seen ++ fields) := by
  induction fields generalizing seen with
  | nil => simp [entriesOf, fields?]
  | cons field fields ih =>
    obtain ⟨number, item⟩ := field
    have hnew : seen.lookup number = none := by
      rw [List.lookup_eq_none_iff]
      intro before hbefore
      rw [List.map_append, List.pairwise_append] at h
      have hlt := h.2.2 before.1 (List.mem_map_of_mem hbefore) number (by simp)
      simpa using Nat.ne_of_gt hlt
    have hentries : entriesOf ((number, item) :: fields) =
        .unsigned number :: item :: entriesOf fields := rfl
    rw [List.append_cons] at h ⊢
    simpa [hentries, fields?, Item.key?, hnew] using ih h

/-! ## Writing -/

/-- A word is written in the one way that is read back. -/
theorem Item.canonical_ofWord (depth : Nat) (n : Int64) : Canonical depth (.ofWord n) := by
  have hlow := Int64.le_toInt n
  have hhigh := Int64.toInt_lt n
  unfold Item.ofWord Item.ofInt
  split
  · next m hm =>
    rw [hm, Int.ofNat_eq_natCast] at hhigh
    exact .unsigned (by omega)
  · next m hm => exact .negative (by omega)

/-- A text that is not too long is written in the one way that is read back. -/
theorem Item.canonical_ofString {s : String} (depth : Nat) (h : s.utf8ByteSize < 2 ^ 64) :
    Canonical depth (.ofString s) :=
  .text (by rwa [Utf8.length_toUTF8])

/-- Every field takes two items, its key and its value. -/
theorem length_entriesOf (fields : List (Nat × Item)) :
    (entriesOf fields).length = 2 * fields.length := by
  induction fields with
  | nil => rfl
  | cons field fields ih =>
    have hentries : entriesOf (field :: fields) =
        .unsigned field.1 :: field.2 :: entriesOf fields := rfl
    rw [hentries, List.length_cons, List.length_cons, List.length_cons, ih]
    omega

/-- Items made of words, texts, lists and records are written as they are. -/
theorem canonical_of_writable {levels depth : Nat} {item : Item}
    (h : standard.Writable levels item) (hdepth : depth + levels ≤ maxDepth) :
    item.Canonical depth := by
  induction h generalizing depth with
  | word n => exact Item.canonical_ofWord depth n
  | text h => exact Item.canonical_ofString depth h
  | null => exact .null
  | array hcount hitems ih =>
    exact .array (by omega) hcount fun item hitem => ih item hitem (by omega)
  | @record levels fields hcount hnumbers hwords hfields ih =>
    refine .map (by omega) hcount (length_entriesOf fields) fun item hitem => ?_
    obtain ⟨field, hfield, hitem⟩ := List.mem_flatMap.mp hitem
    have hword := hwords field hfield
    obtain rfl | rfl : item = .unsigned field.1 ∨ item = field.2 := by simpa using hitem
    · exact .unsigned (by omega)
    · exact ih field hfield (by omega)

/-! ## Reading -/

variable {α : Type} {limit : Nat}

/-- Taking tags off keeps the bound. -/
theorem Item.Bounded.untagged? {item content : Item} (h : item.Bounded limit)
    (hcontent : item.untagged? = some content) : content.Bounded limit := by
  fun_induction Item.untagged? item with
  | case1 inner ih =>
    cases h with
    | tag h => exact ih h hcontent
  | case2 chunks hself hsuits =>
    cases hcontent
    exact .unsigned
  | case3 chunks hself hsuits =>
    cases hcontent
    exact .negative
  | case4 number inner hself hsuits hpositive hnegative ih =>
    cases h with
    | tag h => exact ih h hcontent
  | case5 number inner hself hsuits => cases hcontent
  | case6 item hplain =>
    cases hcontent
    exact h

/-- What holds of the empty value and of all that is read holds of a field. -/
theorem Item.Bounded.fill? {item : Item} {P : α → Prop} {zero x : α} {read? : Item → Option α}
    (h : item.Bounded limit) (hzero : P zero)
    (hread : ∀ content x, content.Bounded limit → read? content = some x → P x)
    (hx : item.fill? zero read? = some x) : P x := by
  obtain ⟨content, hcontent, hx⟩ := Option.bind_eq_some_iff.mp hx
  split at hx
  · cases hx
    exact hzero
  · exact hread content x (h.untagged? hcontent) hx

/-- The characters of chunks do not take more bytes than the chunks. -/
theorem utf8ByteSize_of_mapM {chunks : List (List UInt8)} {parts : List (List Char)}
    (h : chunks.mapM Utf8.strict? = some parts) :
    (String.ofList parts.flatten).utf8ByteSize ≤ chunks.flatten.length := by
  induction chunks generalizing parts with
  | nil =>
    cases h
    decide
  | cons chunk chunks ih =>
    rw [List.mapM_cons] at h
    obtain ⟨part, hpart, h⟩ := Option.bind_eq_some_iff.mp h
    obtain ⟨others, hothers, h⟩ := Option.bind_eq_some_iff.mp h
    cases h
    have hfirst := Utf8.utf8ByteSize_le_of_strict? hpart
    have hrest := ih hothers
    rw [Utf8.utf8ByteSize_ofList] at hfirst hrest ⊢
    simp only [List.flatten_cons, List.flatMap_append, List.length_append]
    omega

/-- A text that is read takes no more bytes than the bound. -/
theorem Item.Bounded.toText? {item : Item} {s : String} (h : item.Bounded limit)
    (hs : item.toText? = some s) : s.utf8ByteSize ≤ limit := by
  cases h with
  | text h =>
    obtain ⟨parts, hparts, hs⟩ := Option.bind_eq_some_iff.mp hs
    cases hs
    exact Nat.le_trans (utf8ByteSize_of_mapM hparts) h
  | _ => cases hs

/-- The values of fields are as bounded as the entries. -/
theorem bounded_fields? {seen fields : List (Nat × Item)} {entries : List Item}
    (hseen : ∀ field ∈ seen, field.2.Bounded limit) (h : ∀ item ∈ entries, item.Bounded limit)
    (hfields : fields? seen entries = some fields) :
    ∀ field ∈ fields, field.2.Bounded limit := by
  fun_induction fields? seen entries with
  | case1 seen key item rest ihSeen ihAdded =>
    obtain ⟨-, hitem, hrest⟩ : _ ∧ item.Bounded limit ∧ ∀ item ∈ rest, item.Bounded limit := by
      simpa using h
    obtain ⟨known, -, hfields⟩ := Option.bind_eq_some_iff.mp hfields
    cases known with
    | none => exact ihSeen hseen hrest hfields
    | some number =>
      dsimp only at hfields
      split at hfields
      · exact ihSeen hseen hrest hfields
      · refine ihAdded number ?_ hrest hfields
        exact List.forall_mem_append.mpr ⟨hseen, by simpa using hitem⟩
  | case2 entries seen hshort =>
    cases hfields
    exact hseen

/-- The values of the fields of a map are within the bound. -/
theorem Item.Bounded.toFields? {item : Item} {fields : List (Nat × Item)}
    (h : item.Bounded limit) (hfields : item.toFields? = some fields) :
    ∀ field ∈ fields, field.2.Bounded limit := by
  cases h with
  | map hentries => exact bounded_fields? (by simp) hentries hfields
  | _ => cases hfields

/-- An array that is read is not too long, and its elements are within the bound. -/
theorem Item.Bounded.toArray? {item : Item} {items? : Option (List Item)}
    (h : item.Bounded limit) (hitems : item.toArray? = some items?) :
    ∀ items ∈ items?, items.length ≤ maxCount ∧ ∀ item ∈ items, item.Bounded limit := by
  cases h with
  | array hcount hbounded =>
    cases hitems
    rintro _ ⟨⟩
    exact ⟨hcount, hbounded⟩
  | _ => cases hitems

/-- The elements of an array that was read, and their number. -/
theorem Item.Bounded.elements {item : Item} {items : List Item} (h : item.Bounded limit)
    (hitems : standard.toArray? item = some (some items)) :
    items.length ≤ maxCount ∧ ∀ item ∈ items, item.Bounded limit :=
  h.fill? (P := fun items? => ∀ items ∈ items?, items.length ≤ maxCount ∧
      ∀ item ∈ items, item.Bounded limit)
    (by simp) (fun _ _ => Item.Bounded.toArray?) hitems items rfl

/-- What is found in bytes keeps to the limits. -/
theorem bounded_of_within {bytes : List UInt8} {item : Item} (h : standard.Within bytes item) :
    item.Bounded bytes.length := by
  induction h with
  | read h => exact Item.bounded_of_read? h
  | element _ hitems hmem ih => exact (ih.elements hitems).2 _ hmem
  | field _ hfields hmem ih =>
    exact ih.fill? (P := fun fields : List (Nat × Item) => ∀ field ∈ fields,
      field.2.Bounded bytes.length) (by simp) (fun _ _ => Item.Bounded.toFields?) hfields _ hmem

/-- The standard codec is lawful. -/
theorem lawful_standard : standard.Lawful where
  four_le_maxElements := by decide
  five_le_maxLevels := by decide
  read_write h := Item.read?_write (canonical_of_writable h (Nat.le_of_eq (Nat.zero_add _)))
  toWord_word n := Item.fill?_ofWord 0 n
  toText_text s := Item.fill?_ofString "" s
  toArray_array _ := Item.fill?_eq rfl rfl
  toArray_null := rfl
  toRecord_record h := (Item.fill?_eq rfl rfl).trans (@fields?_entriesOf [] _ h)
  length_le hitem hitems := ((bounded_of_within hitem).elements hitems).1
  utf8ByteSize_le hitem hs := (bounded_of_within hitem).fill?
    (P := fun s : String => s.utf8ByteSize ≤ _) (by simp) (fun _ _ => Item.Bounded.toText?) hs

end Cbor
end RegisterAllocation
