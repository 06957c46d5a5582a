import RegisterAllocation.Text.Utf8
import Mathlib.Data.List.Basic

/-!
# Texts and their bytes

Reading the bytes of a text gives the text (`Utf8.strict?_toUTF8`), and a text that is read is no
longer than its bytes (`Utf8.utf8ByteSize_le_of_strict?`).
-/

namespace RegisterAllocation
namespace Utf8

/-! ## Characters -/

/-- A code point is a character if it is not too small for its bytes. -/
theorem charOf?_eq_some_iff {least n : Nat} {c : Char} :
    charOf? least n = some c ↔ least ≤ n ∧ c.toNat = n := by
  unfold charOf?
  constructor
  · intro h
    split at h
    · next hvalid =>
      split at h
      · next hleast =>
        cases h
        have hlt : n < 4294967296 := by rcases hvalid with h | h <;> omega
        exact ⟨hleast, UInt32.toNat_ofNat_of_lt' hlt⟩
      · cases h
    · cases h
  · rintro ⟨hleast, rfl⟩
    have hvalid : c.toNat.isValidChar := c.valid
    rw [dif_pos hvalid, if_pos hleast]
    exact congrArg some (Char.ext (UInt32.ofNat_toNat (x := c.val)))

theorem toNat_ofNat {n : Nat} (h : n < 256) : (UInt8.ofNat n).toNat = n :=
  UInt8.toNat_ofNat_of_lt' h

/-- A continuation byte carries six bits. -/
theorem continuation?_eq_some_iff {b : UInt8} {n : Nat} :
    continuation? b = some n ↔ n < 64 ∧ b.toNat = n + 128 := by
  have hlow : 0x80 ≤ b ↔ 128 ≤ b.toNat := UInt8.le_iff_toNat_le
  have hhigh : b < 0xc0 ↔ b.toNat < 192 := UInt8.lt_iff_toNat_lt
  simp only [continuation?, hlow, hhigh, Option.ite_none_right_eq_some, Option.some.injEq]
  omega

theorem continuation?_payload {n : Nat} (h : n < 64) :
    continuation? (UInt8.ofNat (n + 128)) = some n :=
  continuation?_eq_some_iff.mpr ⟨h, toNat_ofNat (by omega)⟩

/-- One byte stands for a basic character. -/
theorem head?_one {b : UInt8} {c : Char} (rest : List UInt8) (hb : b.toNat < 0x80)
    (hc : c.toNat = b.toNat) : head? b rest = some (c, 0) := by
  have hchar : charOf? 0 b.toNat = some c := charOf?_eq_some_iff.mpr ⟨Nat.zero_le _, hc⟩
  simp [head?, hb, hchar]

/-- Two bytes stand for a character. -/
theorem head?_two {b b1 : UInt8} {n1 : Nat} {c : Char} (rest : List UInt8)
    (hb : 0xc0 ≤ b.toNat ∧ b.toNat < 0xe0) (h1 : continuation? b1 = some n1)
    (hc : 0x80 ≤ c.toNat ∧ c.toNat = (b.toNat - 0xc0) * 64 + n1) :
    head? b (b1 :: rest) = some (c, 1) := by
  have hchar : charOf? 0x80 ((b.toNat - 0xc0) * 64 + n1) = some c :=
    charOf?_eq_some_iff.mpr ⟨hc.2 ▸ hc.1, hc.2⟩
  simp [head?, hb, h1, hchar, show ¬b.toNat < 0x80 by omega]

/-- Three bytes stand for a character. -/
theorem head?_three {b b1 b2 : UInt8} {n1 n2 : Nat} {c : Char} (rest : List UInt8)
    (hb : 0xe0 ≤ b.toNat ∧ b.toNat < 0xf0) (h1 : continuation? b1 = some n1)
    (h2 : continuation? b2 = some n2)
    (hc : 0x800 ≤ c.toNat ∧ c.toNat = ((b.toNat - 0xe0) * 64 + n1) * 64 + n2) :
    head? b (b1 :: b2 :: rest) = some (c, 2) := by
  have hchar : charOf? 0x800 (((b.toNat - 0xe0) * 64 + n1) * 64 + n2) = some c :=
    charOf?_eq_some_iff.mpr ⟨hc.2 ▸ hc.1, hc.2⟩
  simp [head?, hb, h1, h2, hchar, show ¬b.toNat < 0x80 by omega, show ¬b.toNat < 0xe0 by omega]

/-- Four bytes stand for a character. -/
theorem head?_four {b b1 b2 b3 : UInt8} {n1 n2 n3 : Nat} {c : Char} (rest : List UInt8)
    (hb : 0xf0 ≤ b.toNat ∧ b.toNat < 0xf8) (h1 : continuation? b1 = some n1)
    (h2 : continuation? b2 = some n2) (h3 : continuation? b3 = some n3)
    (hc : 0x10000 ≤ c.toNat ∧
      c.toNat = (((b.toNat - 0xf0) * 64 + n1) * 64 + n2) * 64 + n3) :
    head? b (b1 :: b2 :: b3 :: rest) = some (c, 3) := by
  have hchar : charOf? 0x10000 ((((b.toNat - 0xf0) * 64 + n1) * 64 + n2) * 64 + n3) = some c :=
    charOf?_eq_some_iff.mpr ⟨hc.2 ▸ hc.1, hc.2⟩
  simp [head?, hb, h1, h2, h3, hchar, show ¬b.toNat < 0x80 by omega,
    show ¬b.toNat < 0xe0 by omega, show ¬b.toNat < 0xf0 by omega]

theorem toNat_lt (c : Char) : c.toNat < 0x110000 := by
  have hvalid : c.toNat.isValidChar := c.valid
  rcases hvalid with h | h <;> omega

/-- The bytes of a character are read as the character. -/
theorem head?_encodeChar {c : Char} {b : UInt8} {more : List UInt8} (rest : List UInt8)
    (h : String.utf8EncodeChar c = b :: more) :
    head? b (more ++ rest) = some (c, more.length) := by
  have hmax := toNat_lt c
  unfold String.utf8EncodeChar at h
  simp only [Char.toNat_val] at h
  split at h
  · obtain ⟨rfl, rfl⟩ := List.cons.inj h
    have hb := toNat_ofNat (show c.toNat < 256 by omega)
    exact head?_one _ (by omega) hb.symm
  split at h
  · obtain ⟨rfl, rfl⟩ := List.cons.inj h
    have hb := toNat_ofNat (show c.toNat / 64 % 32 + 192 < 256 by omega)
    have h1 := continuation?_payload (show c.toNat % 64 < 64 by omega)
    exact head?_two _ (by omega) h1 (by omega)
  split at h
  · obtain ⟨rfl, rfl⟩ := List.cons.inj h
    have hb := toNat_ofNat (show c.toNat / 4096 % 16 + 224 < 256 by omega)
    have h1 := continuation?_payload (show c.toNat / 64 % 64 < 64 by omega)
    have h2 := continuation?_payload (show c.toNat % 64 < 64 by omega)
    exact head?_three _ (by omega) h1 h2 (by omega)
  · obtain ⟨rfl, rfl⟩ := List.cons.inj h
    have hb := toNat_ofNat (show c.toNat / 262144 % 8 + 240 < 256 by omega)
    have h1 := continuation?_payload (show c.toNat / 4096 % 64 < 64 by omega)
    have h2 := continuation?_payload (show c.toNat / 64 % 64 < 64 by omega)
    have h3 := continuation?_payload (show c.toNat % 64 < 64 by omega)
    exact head?_four _ (by omega) h1 h2 h3 (by omega)

/-- The bytes of a character depend on its code point. -/
theorem length_encodeChar (c : Char) :
    (String.utf8EncodeChar c).length =
      if c.toNat < 0x80 then 1 else if c.toNat < 0x800 then 2
      else if c.toNat < 0x10000 then 3 else 4 := by
  unfold String.utf8EncodeChar
  simp only [Char.toNat_val]
  grind

/-- A character that is read takes no more bytes than it was read from. -/
theorem length_encodeChar_le {b : UInt8} {rest : List UInt8} {c : Char} {more : Nat}
    (h : head? b rest = some (c, more)) :
    (String.utf8EncodeChar c).length ≤ more + 1 ∧ more ≤ rest.length := by
  rw [length_encodeChar]
  revert h
  fun_cases head? b rest <;> intro h <;>
    simp only [Option.bind_eq_bind, Option.bind_eq_some_iff, charOf?_eq_some_iff,
      continuation?_eq_some_iff, Option.pure_def, Option.some.injEq, Prod.mk.injEq,
      reduceCtorEq] at h
  · obtain ⟨_, ⟨-, hc⟩, rfl, rfl⟩ := h
    grind
  · obtain ⟨n1, hn1, _, ⟨-, hc⟩, rfl, rfl⟩ := h
    grind
  · obtain ⟨n1, hn1, n2, hn2, _, ⟨-, hc⟩, rfl, rfl⟩ := h
    grind
  · obtain ⟨n1, hn1, n2, hn2, n3, hn3, _, ⟨-, hc⟩, rfl, rfl⟩ := h
    grind

/-! ## Texts -/

theorem split_cons {b : UInt8} {rest : List UInt8} {c : Char} {more : Nat}
    (h : head? b rest = some (c, more)) :
    split (b :: rest) = some c :: split (rest.drop more) := by
  rw [split, h]

/-- The bytes of characters are split into these characters. -/
theorem split_encode (cs : List Char) : split (cs.flatMap String.utf8EncodeChar) = cs.map some := by
  induction cs with
  | nil => rw [List.flatMap_nil, split, List.map_nil]
  | cons c cs ih =>
    cases hbytes : String.utf8EncodeChar c with
    | nil => simp [String.utf8EncodeChar_ne_nil] at hbytes
    | cons b more =>
      rw [List.flatMap_cons, hbytes, List.cons_append, split_cons (head?_encodeChar _ hbytes),
        List.drop_left, ih, List.map_cons]

theorem mapM_id_eq_some_iff {cs : List (Option Char)} {ds : List Char} :
    cs.mapM id = some ds ↔ cs = ds.map some := by
  induction cs generalizing ds with
  | nil => cases ds <;> simp
  | cons c cs ih => cases ds <;> simp [List.mapM_cons, Option.bind_eq_some_iff, ih]

/-- Bytes are read if all of them belong to characters. -/
theorem strict?_eq_some_iff {bytes : List UInt8} {cs : List Char} :
    strict? bytes = some cs ↔ split bytes = cs.map some := mapM_id_eq_some_iff

/-- The bytes of a text are those of its characters. -/
theorem toUTF8_eq_flatMap (s : String) :
    s.toUTF8.data.toList = s.toList.flatMap String.utf8EncodeChar := by
  have hencode : s.toUTF8 = s.toList.utf8Encode := by
    rw [← String.toByteArray_ofList, String.ofList_toList]
    rfl
  rw [hencode, List.utf8Encode, List.data_toByteArray, List.toList_toArray]

/-- The bytes of a text are read as the text. -/
theorem strict?_toUTF8 (s : String) : strict? s.toUTF8.data.toList = some s.toList := by
  rw [toUTF8_eq_flatMap, strict?_eq_some_iff, split_encode]

theorem length_toUTF8 (s : String) : s.toUTF8.data.toList.length = s.utf8ByteSize := by
  rw [Array.length_toList]
  exact String.size_toByteArray

/-- The size of a text is the number of its bytes. -/
theorem utf8ByteSize_ofList (cs : List Char) :
    (String.ofList cs).utf8ByteSize = (cs.flatMap String.utf8EncodeChar).length := by
  rw [← length_toUTF8, toUTF8_eq_flatMap, String.toList_ofList]

/-- A text that is read is no longer than its bytes. -/
theorem utf8ByteSize_le_of_strict? {bytes : List UInt8} {cs : List Char}
    (h : strict? bytes = some cs) : (String.ofList cs).utf8ByteSize ≤ bytes.length := by
  rw [utf8ByteSize_ofList]
  rw [strict?_eq_some_iff] at h
  fun_induction split bytes generalizing cs with
  | case1 =>
    obtain rfl : cs = [] := by simpa using h
    simp
  | case2 b rest c more hhead ih =>
    cases cs with
    | nil => simp at h
    | cons d cs =>
      obtain ⟨rfl, hcs⟩ : c = d ∧ split (rest.drop more) = cs.map some := by simpa using h
      have hfirst := length_encodeChar_le hhead
      have hrest := ih hcs
      rw [List.length_drop] at hrest
      rw [List.flatMap_cons, List.length_append, List.length_cons]
      omega
  | case3 b rest hhead ih => cases cs <;> simp at h

end Utf8
end RegisterAllocation
