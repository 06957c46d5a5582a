/-!
# Finite sets of words

Sets of register slots and the like, as ascending lists without repetitions, so that equal sets
are equal lists.
-/

namespace RegisterAllocation

/-- A finite set; `members` is strictly ascending. -/
structure WordSet where
  /-- The members in ascending order. -/
  members : List Int64
deriving DecidableEq, Repr

namespace WordSet

def empty : WordSet := ⟨[]⟩

/-- Whether `x` is a member. -/
def contains (set : WordSet) (x : Int64) : Bool := set.members.contains x

/-- Puts a word into an ascending list, once. -/
def insertMember (x : Int64) : List Int64 → List Int64
  | [] => [x]
  | y :: ys => if x < y then x :: y :: ys else if x = y then y :: ys else y :: insertMember x ys

def insert (x : Int64) (set : WordSet) : WordSet := ⟨insertMember x set.members⟩

/-- The set with the members of a list added. -/
def insertAll (xs : List Int64) (set : WordSet) : WordSet :=
  xs.foldl (fun set x => set.insert x) set

/-- The set of the elements of a list. -/
def ofList (xs : List Int64) : WordSet := empty.insertAll xs

/-- The set without `x`. -/
def erase (x : Int64) (set : WordSet) : WordSet := ⟨set.members.filter (· ≠ x)⟩

def inter (set other : WordSet) : WordSet := ⟨set.members.filter other.contains⟩

def intersects (set other : WordSet) : Bool := set.members.any other.contains

end WordSet
end RegisterAllocation
