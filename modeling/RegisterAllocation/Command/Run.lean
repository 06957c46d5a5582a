import RegisterAllocation.Assignment.Wire
import RegisterAllocation.Command.Options
import RegisterAllocation.Files.Glob
import RegisterAllocation.Fixture.Run

/-!
# The command

The command runs every fixture of a directory and prints the results in the order of their paths. It
succeeds if every fixture with an expected output has that output and no result is wrong. It can
also write the assignments of all fixtures to a file, one after another, with a codec of its caller.
-/

namespace RegisterAllocation
namespace Command

/-- What the command prints and its exit status. -/
structure Outcome where
  status : UInt32 := 0
  output : String := ""
  errors : String := ""
deriving DecidableEq, Repr

/-- The outcome of a command that stops with a message. -/
def stopped (message : String) : Outcome := { status := 1, errors := message ++ "\n" }

/-- The outcome of a command that was called wrongly, or in which a contract was broken. -/
def aborted (message : String) : Outcome := { status := 2, errors := message ++ "\n" }

/-- What is reported of a broken contract. -/
def faultText (fault : Fault) : String := fault.message?.getD "undefined operation"

/-- The text of malformed settings. -/
def malformedText : String := "config: malformed settings"

variable {m : Type → Type} [Monad m] {ι : Type}

/-! ## Loading -/

/-- Reads the fixture at a path. -/
def loadFixture (files : Files m) (path : String) : m (Except Outcome Fixture) := do
  match ← files.read path with
  | .error error => return .error (stopped (error.readMessage path))
  | .ok data =>
    match Fixture.read (Path.stem (Path.base path)) data with
    | .ok fixture => return .ok fixture
    | .error (.refused error) =>
      return .error (stopped (path ++ ": " ++ error.message?.getD malformedText))
    | .error (.fault fault) => return .error (aborted (faultText fault))

/-- Reads the fixtures at paths, up to one that cannot be read. -/
def loadFixtures (files : Files m) : List String → m (Except Outcome (List Fixture))
  | [] => return .ok []
  | path :: paths => do
    match ← loadFixture files path with
    | .error outcome => return .error outcome
    | .ok fixture => return (← loadFixtures files paths).map (fixture :: ·)

/-- Reads the fixtures of a directory. -/
def loadDirectory (files : Files m) (directory : String) : m (Except Outcome (List Fixture)) := do
  match ← files.glob? (Path.join directory "*.txtar") with
  | none => return .error (stopped "syntax error in pattern")
  | some paths => loadFixtures files paths

/-- Reads limits from a file. -/
def loadConfig (files : Files m) (path : String) : m (Except Outcome Config) := do
  match ← files.read path with
  | .error error => return .error (stopped (error.readMessage path))
  | .ok data =>
    match Config.read data with
    | .ok config => return .ok config
    | .error .malformed => return .error (stopped (path ++ ": " ++ malformedText))
    | .error (.invalid error) => return .error (stopped (path ++ ": " ++ error.message))

/-! ## Running -/

/-- The result of a fixture, or why the result is wrong. -/
abbrev Result := Except String RunResult

/-- Runs a fixture. A broken contract ends the command. -/
def runFixture (fixture : Fixture) : Except Outcome Result :=
  match fixture.run with
  | .ok result => .ok (.ok result)
  | .error (.incorrect text) => .ok (.error text)
  | .error (.failure failure) =>
    .error (aborted (failure.message?.getD (faultText .undefined)))

/-- What is printed for a fixture, and whether it is as expected. -/
def report (fixture : Fixture) (result : Result) : String × Bool :=
  let title := "running '" ++ fixture.name ++ "'\n"
  match result with
  | .error text => (title ++ "  failed: " ++ text ++ "\n", false)
  | .ok result =>
    if fixture.want ≠ "" ∧ result.output ≠ fixture.want then
      (title ++ "  got\n" ++ result.output ++ "  but expected\n" ++ fixture.want, false)
    else (title ++ result.output, true)

/-- The bytes of the assignments of results, one after another. -/
def assignmentBytes (codec : Cbor.Codec ι) (results : List Result) : List UInt8 :=
  results.flatMap fun
    | .ok { assignment := some assignment, .. } => assignment.encode codec
    | _ => []

/-- Runs fixtures, prints their results and writes their assignments. -/
def runAll (codec : Cbor.Codec ι) (files : Files m) (options : Options) (fixtures : List Fixture) :
    m Outcome := do
  match fixtures.mapM runFixture with
  | .error outcome => return outcome
  | .ok results =>
    let reports := fixtures.zipWith report results
    let output := String.join (reports.map (·.1))
    let status : UInt32 := if reports.all (·.2) then 0 else 1
    if options.outputFile = "" then return { status, output }
    else match ← files.write options.outputFile (assignmentBytes codec results) with
      | .ok () => return { status, output }
      | .error error =>
        return { stopped (error.createMessage options.outputFile) with output }

/-- The command with its options. -/
def runWith (codec : Cbor.Codec ι) (files : Files m) (options : Options) : m Outcome := do
  match ← loadDirectory files options.directory with
  | .error outcome => return outcome
  | .ok fixtures =>
    if options.configFile = "" then runAll codec files options fixtures
    else match ← loadConfig files options.configFile with
      | .error outcome => return outcome
      | .ok config => runAll codec files options (fixtures.map (·.useConfig config))

/-- The command with its arguments. -/
def run (codec : Cbor.Codec ι) (files : Files m) (arguments : List String) : m Outcome := do
  match Options.read {} arguments with
  | .error .help => return { errors := OptionsError.help.message ++ "\n" }
  | .error error => return aborted error.message
  | .ok options => runWith codec files options

end Command
end RegisterAllocation
