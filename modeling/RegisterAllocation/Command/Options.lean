import RegisterAllocation.Literal.Numeral

/-!
# Options of the command

Options start with one or two hyphens. An option with a value has it behind an equals sign or as the
next argument. The first argument that is no option, or two hyphens alone, end the options.
-/

namespace RegisterAllocation

/-- What the command is asked to do. -/
structure Options where
  /-- The directory of the fixtures. -/
  directory : String := "test/units"
  /-- The number of fixtures to be run at once. -/
  jobs : Int64 := 1
  /-- The file with limits for fixtures without their own; empty if there is none. -/
  configFile : String := ""
  /-- The file for the assignments; empty if there is none. -/
  outputFile : String := ""
  /-- How much is logged. -/
  verbosity : Nat := 0
deriving DecidableEq, Repr

/-- Why arguments are refused. -/
inductive OptionsError where
  /-- The arguments ask for help. -/
  | help
  | badSyntax (argument : String)
  | unknown (name : String)
  | missingValue (name : String)
  | badValue (name value : String)
deriving DecidableEq, Repr

namespace OptionsError

/-- The text of an error in the arguments. -/
def message : OptionsError → String
  | help => "usage: [--dir directory] [--jobs n] [--config file] [--cbor file] [-v]"
  | badSyntax argument => "bad flag syntax: " ++ argument
  | unknown name => "flag provided but not defined: -" ++ name
  | missingValue name => "flag needs an argument: -" ++ name
  | badValue name value => "invalid value \"" ++ value ++ "\" for flag -" ++ name ++ ": parse error"

end OptionsError

namespace Options

/-- An integer in any base, if it is a word. -/
def word? (text : String) : Option Int64 := do
  let n ← Numeral.toInt? text.toList
  if -0x8000000000000000 ≤ n ∧ n < 0x8000000000000000 then some (Int64.ofInt n) else none

/-- Sets an option that has a value. -/
def set (options : Options) (name value : String) : Except OptionsError Options :=
  match name with
  | "dir" => .ok { options with directory := value }
  | "config" => .ok { options with configFile := value }
  | "cbor" => .ok { options with outputFile := value }
  | _ =>
    match word? value with
    | some jobs => .ok { options with jobs }
    | none => .error (.badValue name value)

/-- The name and the value of an option without its hyphens. -/
def splitValue (text : List Char) : String × Option String :=
  match text with
  | [] => ("", none)
  | first :: rest =>
    let name := first :: rest.takeWhile (· ≠ '=')
    match rest.dropWhile (· ≠ '=') with
    | _ :: value => (String.ofList name, some (String.ofList value))
    | [] => (String.ofList name, none)

/-- The text of an option behind its hyphens; `none` if an argument is no option. -/
def optionText? (argument : String) : Option (List Char) :=
  match argument.toList with
  | '-' :: '-' :: text => some text
  | '-' :: c :: text => some (c :: text)
  | _ => none

/-- Reads options up to the first argument that is none. -/
def read (options : Options) : List String → Except OptionsError Options
  | [] => .ok options
  | argument :: rest =>
    match optionText? argument with
    | none => .ok options
    | some text =>
      if argument = "--" then .ok options
      else if text.isEmpty ∨ text.head? = some '-' ∨ text.head? = some '=' then
        .error (.badSyntax argument)
      else
        let (name, value) := splitValue text
        if name = "v" then read { options with verbosity := options.verbosity + 1 } rest
        else if name ∈ ["dir", "jobs", "config", "cbor"] then
          match value with
          | some value => do (← options.set name value).read rest
          | none =>
            match rest with
            | next :: rest => do (← options.set name next).read rest
            | [] => .error (.missingValue name)
        else if name = "help" ∨ name = "h" then .error .help
        else .error (.unknown name)

end Options
end RegisterAllocation
