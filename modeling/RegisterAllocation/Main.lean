import RegisterAllocation.Cbor.Standard
import RegisterAllocation.Command.Run

/-!
# The program

Runs the command on the files of the machine.
-/

namespace RegisterAllocation

/-- Runs an action on a file; its errors are values. -/
def attempt {α : Type} (action : IO α) : IO (Except FileError α) := do
  match ← action.toBaseIO with
  | .ok a => return .ok a
  | .error (.noFileOrDirectory ..) => return .error .notFound
  | .error error => return .error (.other (toString error))

/-- Access to the files of the machine. Relative paths start at the current directory. -/
def machineFiles : Files IO where
  list path := do
    let directory := (← IO.currentDir) / path
    if ← directory.isDir then return some ((← directory.readDir).toList.map (·.fileName))
    else return none
  read path := do
    if ← ((← IO.currentDir) / path).isDir then return .error .isDirectory
    else attempt do return (← IO.FS.readBinFile path).toList
  write path data := do
    if ← ((← IO.currentDir) / path).isDir then return .error .isDirectory
    else attempt (IO.FS.writeBinFile path data.toByteArray)

end RegisterAllocation

/-- Runs the command with the arguments of the program. -/
def main (arguments : List String) : IO UInt32 := do
  let outcome ← RegisterAllocation.Command.run RegisterAllocation.Cbor.standard
    RegisterAllocation.machineFiles arguments
  (← IO.getStdout).putStr outcome.output
  (← IO.getStderr).putStr outcome.errors
  return outcome.status
