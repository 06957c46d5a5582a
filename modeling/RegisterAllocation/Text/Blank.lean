import RegisterAllocation.Text.Ranges

/-!
# White space

The characters with the property `White_Space` in version 17 of the character database.
-/

namespace RegisterAllocation

/-- The white space beyond ASCII. -/
def blankRanges : CodeRanges := #[
    (0x85, 0x85), (0xa0, 0xa0), (0x1680, 0x1680), (0x2000, 0x200a), (0x2028, 0x2029),
    (0x202f, 0x202f), (0x205f, 0x205f), (0x3000, 0x3000)
]

/-- White space, line ends included. -/
def isBlank (c : Char) : Bool :=
  if c.toNat < 0x80 then c = ' ' || (9 ≤ c.toNat && c.toNat ≤ 13) else blankRanges.contains c

end RegisterAllocation
