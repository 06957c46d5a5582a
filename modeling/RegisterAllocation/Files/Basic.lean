/-!
# Access to files

What the command needs of a file system, so that it can work on the real one and on one that is held
in memory.
-/

namespace RegisterAllocation

/-- Why a file cannot be read or written. -/
inductive FileError where
  | notFound
  | isDirectory
  | notADirectory
  | nameTooLong
  /-- Anything else, with its text. -/
  | other (text : String)
deriving DecidableEq, Repr

namespace FileError

/-- The text of the cause. -/
def reason : FileError → String
  | notFound => "no such file or directory"
  | isDirectory => "is a directory"
  | notADirectory => "not a directory"
  | nameTooLong => "file name too long"
  | other text => text

/-- The text of an error in reading a file. A directory can be opened but not read. -/
def readMessage (error : FileError) (path : String) : String :=
  let operation := if error = .isDirectory then "read " else "open "
  "cannot read " ++ path ++ ": " ++ operation ++ path ++ ": " ++ error.reason

/-- The text of an error in creating a file. -/
def createMessage (error : FileError) (path : String) : String :=
  "cannot create " ++ path ++ ": open " ++ path ++ ": " ++ error.reason

end FileError

/-- Access to files. -/
structure Files (m : Type → Type) where
  /-- The names in a directory; none if there is no such directory. -/
  list : String → m (Option (List String))
  /-- The contents of a file. -/
  read : String → m (Except FileError (List UInt8))
  /-- Replaces the contents of a file, or makes a new one. -/
  write : String → List UInt8 → m (Except FileError Unit)

end RegisterAllocation
