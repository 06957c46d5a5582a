import RegisterAllocation.Text.Decimal
import Mathlib.Data.Nat.Digits.Defs
import Mathlib.Tactic.IntervalCases

/-!
# What a numeral denotes

A numeral is a non-empty run of the digits `0` to `9`, with a sign in front of it or none.
`Decimal.toWord?_eq_some_iff`: reading gives the number that a numeral denotes, for exactly the
numerals whose numbers are words. `Decimal.toWord?_ofWord`: a word is read back from its text.
-/

namespace RegisterAllocation
namespace Decimal

/-- A non-empty run of the digits `0` to `9`. -/
def IsDigits (chars : List Char) : Prop := chars ≠ [] ∧ ∀ c ∈ chars, '0' ≤ c ∧ c ≤ '9'

/-- The number that digits stand for, the most significant one first. -/
def valueOf (chars : List Char) : Nat :=
  Nat.ofDigits 10 (chars.reverse.map fun c => c.toNat - '0'.toNat)

/-- Digits with an optional sign, and the number that they stand for. -/
inductive Denotes : List Char → Int → Prop where
  | unsigned {digits : List Char} (h : IsDigits digits) : Denotes digits (valueOf digits)
  | plus {digits : List Char} (h : IsDigits digits) : Denotes ('+' :: digits) (valueOf digits)
  | minus {digits : List Char} (h : IsDigits digits) : Denotes ('-' :: digits) (-valueOf digits)

/-- The first digit counts most. -/
theorem valueOf_cons (c : Char) (chars : List Char) :
    valueOf (c :: chars) = (c.toNat - 48) * 10 ^ chars.length + valueOf chars := by
  simp only [valueOf, List.reverse_cons, List.map_append, Nat.ofDigits_append, List.length_map,
    List.length_reverse, List.map_cons, List.map_nil, Nat.ofDigits_singleton]
  rw [show '0'.toNat = 48 from rfl]
  ring

/-- A digit stands for its distance from zero. -/
theorem digitValue?_eq_some_iff {c : Char} {d : Nat} :
    digitValue? c = some d ↔ ('0' ≤ c ∧ c ≤ '9') ∧ d = c.toNat - 48 := by
  have hlow : '0' ≤ c ↔ 48 ≤ c.toNat := Iff.rfl
  have hhigh : c ≤ '9' ↔ c.toNat ≤ 57 := Iff.rfl
  rw [hlow, hhigh]
  simp only [digitValue?, Bool.and_eq_true, decide_eq_true_eq]
  grind

/-- Digits are read one after another. -/
theorem extend?_eq_some_iff {chars : List Char} {n m : Nat} :
    extend? n chars = some m ↔
      (∀ c ∈ chars, '0' ≤ c ∧ c ≤ '9') ∧ m = n * 10 ^ chars.length + valueOf chars := by
  induction chars generalizing n with
  | nil => simp [extend?, valueOf, eq_comm]
  | cons c chars ih =>
    simp only [extend?, Option.bind_eq_bind, Option.bind_eq_some_iff, digitValue?_eq_some_iff, ih,
      List.forall_mem_cons, valueOf_cons, List.length_cons]
    constructor
    · rintro ⟨_, ⟨hc, rfl⟩, hchars, rfl⟩
      exact ⟨⟨hc, hchars⟩, by ring⟩
    · rintro ⟨⟨hc, hchars⟩, rfl⟩
      exact ⟨_, ⟨hc, rfl⟩, hchars, by ring⟩

/-- A number without a sign is a run of digits. -/
theorem toNat?_eq_some_iff {chars : List Char} {n : Nat} :
    toNat? chars = some n ↔ IsDigits chars ∧ n = valueOf chars := by
  cases chars with
  | nil => simp [toNat?, IsDigits]
  | cons c chars => simp [toNat?, extend?_eq_some_iff, IsDigits]

/-- A run of digits does not start with a sign. -/
theorem IsDigits.head_ne {c : Char} {chars : List Char} (h : IsDigits (c :: chars)) :
    c ≠ '-' ∧ c ≠ '+' := by
  have hc := h.2 c List.mem_cons_self
  constructor <;> (rintro rfl; exact absurd hc (by decide))

/-- A number is read if and only if the text denotes it. -/
theorem toInt?_eq_some_iff {chars : List Char} {n : Int} :
    toInt? chars = some n ↔ Denotes chars n := by
  constructor
  · intro h
    unfold toInt? at h
    split at h
    all_goals
      simp only [Option.map_eq_some_iff, Option.bind_eq_bind, Option.bind_eq_some_iff,
        toNat?_eq_some_iff, Option.pure_def, Option.some.injEq] at h
      obtain ⟨_, ⟨_, ⟨hdigits, rfl⟩, rfl⟩, rfl⟩ := h
    · exact .minus hdigits
    · exact .plus hdigits
    · exact .unsigned hdigits
  · rintro (hdigits | hdigits | hdigits)
    all_goals have hread := toNat?_eq_some_iff.mpr ⟨hdigits, rfl⟩
    · unfold toInt?
      split
      · exact absurd rfl hdigits.head_ne.1
      · exact absurd rfl hdigits.head_ne.2
      · rw [hread]
        rfl
    · rw [toInt?, hread]
      rfl
    · rw [toInt?, hread]
      rfl

/-- A word is read if and only if the text denotes it. -/
theorem toWord?_eq_some_iff {chars : List Char} {value : Int64} :
    toWord? chars = some value ↔ Denotes chars value.toInt := by
  simp only [toWord?, Option.bind_eq_bind, Option.bind_eq_some_iff, toInt?_eq_some_iff,
    Option.ite_none_right_eq_some, Option.some.injEq]
  constructor
  · rintro ⟨n, hn, ⟨hlow, hhigh⟩, rfl⟩
    rwa [Int64.toInt_ofInt_of_le hlow hhigh]
  · intro h
    exact ⟨_, h, ⟨Int64.le_toInt value, Int64.toInt_lt value⟩, Int64.ofInt_toInt value⟩

/-! ## Writing -/

theorem toNat_digitChar {d : Nat} (h : d < 10) : (digitChar d).toNat = 48 + d := by
  interval_cases d <;> rfl

theorem isDigits_digitChar {d : Nat} (h : d < 10) : IsDigits [digitChar d] := by
  have hcode := toNat_digitChar h
  have hlow : '0' ≤ digitChar d ↔ 48 ≤ (digitChar d).toNat := Iff.rfl
  have hhigh : digitChar d ≤ '9' ↔ (digitChar d).toNat ≤ 57 := Iff.rfl
  simp only [IsDigits, List.forall_mem_singleton, hlow, hhigh, hcode]
  exact ⟨by simp, by omega, by omega⟩

/-- One more digit at the end multiplies by ten. -/
theorem valueOf_concat (chars : List Char) (c : Char) :
    valueOf (chars ++ [c]) = 10 * valueOf chars + (c.toNat - 48) := by
  rw [valueOf, List.reverse_append, List.reverse_singleton, List.singleton_append, List.map_cons,
    Nat.ofDigits_cons, show '0'.toNat = 48 from rfl, Nat.add_comm]
  rfl

/-- The digits that are written denote the number. -/
theorem digits_spec (n : Nat) : IsDigits (digits n) ∧ valueOf (digits n) = n := by
  fun_induction digits n with
  | case1 n hlt =>
    refine ⟨isDigits_digitChar hlt, ?_⟩
    simp [toNat_digitChar hlt, valueOf]
  | case2 n hge ih =>
    have hlt : n % 10 < 10 := Nat.mod_lt n (by omega)
    refine ⟨⟨by simp, fun c hc => ?_⟩, ?_⟩
    · rcases List.mem_append.mp hc with hc | hc
      · exact ih.1.2 c hc
      · exact (isDigits_digitChar hlt).2 c hc
    · rw [valueOf_concat, ih.2, toNat_digitChar hlt]
      omega

/-- The text of a number denotes it. -/
theorem denotes_ofInt (n : Int) : Denotes (ofInt n).toList n := by
  cases n with
  | ofNat n =>
    obtain ⟨hdigits, hvalue⟩ := digits_spec n
    have h := Denotes.unsigned hdigits
    rw [hvalue] at h
    simpa [ofInt, ofNat] using h
  | negSucc n =>
    obtain ⟨hdigits, hvalue⟩ := digits_spec (n + 1)
    have h := Denotes.minus hdigits
    rw [hvalue] at h
    simpa [ofInt, ofNat, Int.negSucc_eq] using h

/-- A word is read back from its text. -/
theorem toWord?_ofWord (value : Int64) : toWord? (ofWord value).toList = some value :=
  toWord?_eq_some_iff.mpr (denotes_ofInt value.toInt)

end Decimal
end RegisterAllocation
