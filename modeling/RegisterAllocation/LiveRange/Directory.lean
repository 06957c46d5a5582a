import RegisterAllocation.LiveRange

/-!
# Named live ranges

A directory gives names to live ranges. Two names can refer to the same range, and then an interval
added under one name is seen under the other: the union of nothing with a range is that range
itself and not a copy of it.
-/

namespace RegisterAllocation

/-- Named live ranges; a name without an entry refers to no range. -/
structure LiveRange.Directory where
  /-- The ranges that names refer to. -/
  ranges : Array LiveRange := #[]
  /-- The latest entry of a name counts. -/
  names : List (String × Nat) := []
deriving Repr

namespace LiveRange.Directory

def empty : Directory := {}

/-- The place of the range that a name refers to. -/
def place? (directory : Directory) (name : String) : Option Nat := directory.names.lookup name

def get? (directory : Directory) (name : String) : Option LiveRange := do
  directory.ranges[← directory.place? name]?

/-- Lets a name refer to a new range. -/
def insert (directory : Directory) (name : String) (range : LiveRange) : Directory :=
  { ranges := directory.ranges.push range
    names := (name, directory.ranges.size) :: directory.names }

/-- Lets a name refer to no range. -/
def erase (directory : Directory) (name : String) : Directory :=
  { directory with names := directory.names.filter (·.1 ≠ name) }

/-- Adds an interval to the range that a name refers to. -/
def add (directory : Directory) (name : String) (interval : Interval) : Except Fault Directory :=
  match directory.place? name with
  | none => .error .undefined
  | some place => .ok { directory with ranges := directory.ranges.modify place (·.add interval) }

/-- Whether the ranges of two names share a position. No range conflicts with none. -/
def conflicts (directory : Directory) (left right : String) : Bool :=
  match directory.get? left, directory.get? right with
  | some range, some other => range.conflicts other
  | _, _ => false

/-- Lets `name` refer to the union of the ranges of two names. With nothing on the left it comes to
refer to what the right name refers to. -/
def union (directory : Directory) (name left right : String) : Except Fault Directory :=
  match directory.get? left, directory.get? right with
  | none, _ =>
    match directory.place? right with
    | none => .ok (directory.erase name)
    | some place => .ok { directory with names := (name, place) :: directory.names }
  | some _, none => .error .undefined
  | some range, some other => return directory.insert name (← range.union other)

end LiveRange.Directory
end RegisterAllocation
