import RegisterAllocation.Config.Reader
import RegisterAllocation.Fixture.Archive
import RegisterAllocation.Fixture.Moves
import RegisterAllocation.Fixture.Unit
import RegisterAllocation.SExpr.Reader

/-!
# Fixtures

A fixture is an archive with something to do in it: a unit to be allocated, a set of moves to be
scheduled, or both. It may also have limits of the register file and the expected output.
-/

namespace RegisterAllocation

/-- Something to be carried out, and what is expected of it. -/
structure Fixture where
  name : String
  unit : Option CodeUnit := none
  moves : List Move := []
  config : Config := {}
  /-- Whether the fixture gives its limits itself. -/
  ownConfig : Bool := false
  /-- The expected output; empty if nothing is expected. -/
  want : String := ""
deriving Repr

/-- Why a section with an s-expression is refused. -/
inductive SectionError where
  | read (error : ReadError)
  | form (error : FormError)
deriving DecidableEq, Repr

/-- Why an archive is no fixture. -/
inductive FixtureError where
  | duplicateSection (name : String)
  | unknownSection (name : String)
  | unit (error : SectionError)
  | moves (error : SectionError)
  | config (error : ConfigReadError)
  | nothingToDo
deriving DecidableEq, Repr

/-- How reading a fixture ends without success: it is refused, or a contract is broken. -/
inductive FixtureFailure where
  | refused (error : FixtureError)
  | fault (fault : Fault)
deriving DecidableEq, Repr

namespace SectionError

/-- The text of an error in a section. -/
def message : SectionError → String
  | read error => error.message
  | form error => error.message

end SectionError

namespace FixtureError

/-- The text of an error in a fixture. Malformed settings are not described. -/
def message? : FixtureError → Option String
  | duplicateSection name => some ("duplicate section '" ++ name ++ "'")
  | unknownSection name => some ("unknown section '" ++ name ++ "'")
  | unit error => some ("unit: " ++ error.message)
  | moves error => some ("moves: " ++ error.message)
  | config .malformed => none
  | config (.invalid error) => some error.message
  | nothingToDo => some "no unit or moves section"

end FixtureError

namespace Fixture

/-- Reads the one form in a section. -/
def readForm {α : Type} (wrap : SectionError → FixtureError)
    (ofSExpr : SExpr → Except FormFailure α) (data : List UInt8) : Except FixtureFailure α :=
  match SExpr.readOne (Utf8.lenient data) with
  | .error error => .error (.refused (wrap (.read error)))
  | .ok expr =>
    (ofSExpr expr).mapError fun
      | .malformed error => .refused (wrap (.form error))
      | .fault fault => .fault fault

/-- Adds what a section holds. -/
def addSection (fixture : Fixture) (part : Archive.Section) : Except FixtureFailure Fixture :=
  match part.name with
  | "unit" => do
    return { fixture with unit := some (← readForm .unit CodeUnit.ofSExpr part.data) }
  | "moves" => do
    return { fixture with moves := ← readForm .moves Move.setOfSExpr part.data }
  | "config.toml" =>
    match Config.read part.data with
    | .ok config => .ok { fixture with config, ownConfig := true }
    | .error error => .error (.refused (.config error))
  | "want" => .ok { fixture with want := String.ofList (Utf8.lenient part.data) }
  | name => .error (.refused (.unknownSection name))

/-- Adds sections. `seen` are the names of those before. -/
def addSections (fixture : Fixture) (seen : List String) :
    List Archive.Section → Except FixtureFailure Fixture
  | [] => .ok fixture
  | part :: parts =>
    if seen.contains part.name then .error (.refused (.duplicateSection part.name))
    else do (← fixture.addSection part).addSections (part.name :: seen) parts

def read (name : String) (bytes : List UInt8) : Except FixtureFailure Fixture := do
  let fixture ← addSections { name } [] (Archive.sections bytes)
  if fixture.unit.isNone ∧ fixture.moves.isEmpty then .error (.refused .nothingToDo)
  else return fixture

/-- Gives limits to a fixture that has none of its own. -/
def useConfig (fixture : Fixture) (config : Config) : Fixture :=
  if fixture.ownConfig then fixture else { fixture with config }

end Fixture
end RegisterAllocation
