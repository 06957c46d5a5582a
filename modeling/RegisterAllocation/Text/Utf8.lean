/-!
# Bytes as text

Files are byte sequences that are usually, but not always, well-formed UTF-8. `Utf8.split` cuts
bytes into characters and stray bytes; the lenient reading shows each stray byte as the
replacement character and the strict one refuses them.
-/

namespace RegisterAllocation
namespace Utf8

/-- The payload of a continuation byte. -/
def continuation? (b : UInt8) : Option Nat :=
  if 0x80 ≤ b ∧ b < 0xc0 then some (b.toNat - 0x80) else none

/-- The character with the code `n`, if `n` is at least `least` and not a surrogate. -/
def charOf? (least n : Nat) : Option Char :=
  if h : n.isValidChar then
    if least ≤ n then some ⟨n.toUInt32, by
      have : n < 4294967296 := by rcases h with h | h <;> omega
      simpa [UInt32.isValidChar, UInt32.toNat_ofNat_of_lt' this] using h⟩
    else none
  else none

/-- The character that starts with byte `b`, and how many of the following bytes belong to it. -/
def head? (b : UInt8) (rest : List UInt8) : Option (Char × Nat) :=
  let n := b.toNat
  if n < 0x80 then do return (← charOf? 0 n, 0)
  else if 0xc0 ≤ n && n < 0xe0 then
    match rest with
    | b1 :: _ => do
      return (← charOf? 0x80 ((n - 0xc0) * 64 + (← continuation? b1)), 1)
    | _ => none
  else if 0xe0 ≤ n && n < 0xf0 then
    match rest with
    | b1 :: b2 :: _ => do
      return (← charOf? 0x800 (((n - 0xe0) * 64 + (← continuation? b1)) * 64
        + (← continuation? b2)), 2)
    | _ => none
  else if 0xf0 ≤ n && n < 0xf8 then
    match rest with
    | b1 :: b2 :: b3 :: _ => do
      return (← charOf? 0x10000 ((((n - 0xf0) * 64 + (← continuation? b1)) * 64
        + (← continuation? b2)) * 64 + (← continuation? b3)), 3)
    | _ => none
  else none

/-- The characters of a byte sequence; a byte that is part of no character is `none`. -/
def split : List UInt8 → List (Option Char)
  | [] => []
  | b :: rest =>
    match head? b rest with
    | some (c, more) => some c :: split (rest.drop more)
    | none => none :: split rest
termination_by bytes => bytes.length
decreasing_by all_goals (simp only [List.length_drop, List.length_cons]; omega)

/-- The replacement character, which stands for a stray byte. -/
def replacement : Char := '�'

/-- The character that starts with byte `b`, or the replacement if the byte is stray, and the bytes
behind it. -/
def next (b : UInt8) (rest : List UInt8) : Char × List UInt8 :=
  match head? b rest with
  | some (c, more) => (c, rest.drop more)
  | none => (replacement, rest)

/-- Reads bytes as text, with each stray byte replaced. -/
def lenient (bytes : List UInt8) : List Char :=
  (split bytes).map fun c => c.getD replacement

/-- Reads bytes as text; refuses stray bytes. -/
def strict? (bytes : List UInt8) : Option (List Char) :=
  (split bytes).mapM id

def bytes (s : String) : List UInt8 := s.toUTF8.toList

end Utf8
end RegisterAllocation
