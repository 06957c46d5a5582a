/-!
# Binary floating point of a chosen precision

Positive numbers `mantissa * 2 ^ exponent`, rounded to a number of significant bits with ties to
the even neighbour. The magnitude of a number is the exponent `e` of its form `0.1… * 2 ^ e`; it is
limited to 32 bits, beyond which numbers are infinite or vanish.
-/

namespace RegisterAllocation

/-- A positive number `mantissa * 2 ^ exponent`. -/
structure Binary where
  mantissa : Nat
  exponent : Int
deriving DecidableEq, Repr

namespace Binary

/-- The number of bits of a natural number. -/
def bitLength (n : Nat) : Nat := if n = 0 then 0 else n.log2 + 1

/-- The exponent `e` for which the number is `0.1… * 2 ^ e`. -/
def magnitude (x : Binary) : Int := bitLength x.mantissa + x.exponent

/-- The least magnitude of a number. -/
def leastMagnitude : Int := -0x80000000

/-- The greatest magnitude of a number. -/
def greatestMagnitude : Int := 0x7fffffff

/-- The nearest number with at most `precision` significant bits, the even one of two. -/
def round (precision : Nat) (x : Binary) : Binary :=
  let bits := bitLength x.mantissa
  if bits ≤ precision then x
  else
    let excess := bits - precision
    let kept := x.mantissa >>> excess
    let dropped := x.mantissa % (1 <<< excess)
    let half := 1 <<< (excess - 1)
    let up := half < dropped || (dropped = half && kept % 2 = 1)
    ⟨if up then kept + 1 else kept, x.exponent + excess⟩

/-- The product, rounded; `none` stands for infinity. -/
def mul (precision : Nat) (x y : Option Binary) : Option Binary := do
  let x ← x
  let y ← y
  let z := round precision ⟨x.mantissa * y.mantissa, x.exponent + y.exponent⟩
  if z.magnitude ≤ greatestMagnitude then some z else none

/-- The quotient, rounded. Two bits more than asked for are computed, with a last one that says
whether anything remains, so that rounding sees on which side of a tie the quotient lies. -/
def div (precision : Nat) (x y : Binary) : Binary :=
  let shift := precision + 2 + bitLength y.mantissa
  let scaled := x.mantissa <<< shift
  let quotient := scaled / y.mantissa
  let remains := if scaled % y.mantissa = 0 then 0 else 1
  round precision ⟨2 * quotient + remains, x.exponent - y.exponent - shift - 1⟩

/-- Multiplies `z` by the powers of `f` that the bits of `n` select. -/
def scaleBySquares (z f : Option Binary) (n : Nat) : Option Binary :=
  if n = 0 then z
  else
    scaleBySquares (if n % 2 = 1 then mul 576 z f else z) (mul 640 f f) (n / 2)
termination_by n
decreasing_by omega

/-- The largest power of five that is taken exactly, so that it fits in a word. -/
def exactFives : Nat := 27

/-- `5 ^ n` to 576 bits, by repeated squaring to 640 bits. -/
def powFive (n : Nat) : Option Binary :=
  if n ≤ exactFives then some ⟨Nat.pow 5 n, 0⟩
  else scaleBySquares (some ⟨Nat.pow 5 exactFives, 0⟩) (some ⟨5, 0⟩) (n - exactFives)

/-- The same number with an odd mantissa. -/
def reduce (x : Binary) : Binary :=
  if h : 0 < x.mantissa ∧ x.mantissa % 2 = 0 then
    reduce ⟨x.mantissa / 2, x.exponent + 1⟩
  else x
termination_by x.mantissa
decreasing_by omega

end Binary
end RegisterAllocation
