import RegisterAllocation.Config
import RegisterAllocation.Toml.Table

/-!
# Limits in settings files

The limits of the register file can be given in a settings file. A limit that is not given keeps its
default. The case of letters in names does not matter.
-/

namespace RegisterAllocation

/-- Why a settings file gives no limits. -/
inductive ConfigReadError where
  /-- The file is not well-formed, or a limit is no integer. -/
  | malformed
  | invalid (error : ConfigError)
deriving DecidableEq, Repr

namespace Config

/-- The names of the limits in settings files. -/
inductive Limit where
  | registers
  | maxRegisters
  | highThreshold
deriving DecidableEq, Repr

namespace Limit

/-- All limits. -/
def all : List Limit := [registers, maxRegisters, highThreshold]

def name : Limit → String
  | registers => "registers"
  | maxRegisters => "max-registers"
  | highThreshold => "high-register-threshold"

/-- A letter with its case taken away. Two letters outside of the basic alphabet belong to basic
ones. -/
def foldCase (c : Char) : Char :=
  if c.toNat = 0x17f then 's' else if c.toNat = 0x212a then 'k' else c.toLower

def ofName? (name : String) : Option Limit :=
  all.find? fun limit => limit.name.toList = name.toList.map foldCase

end Limit

/-- Sets a limit. -/
def set (config : Config) (limit : Limit) (n : Int64) : Config :=
  match limit with
  | .registers => { config with registers := n }
  | .maxRegisters => { config with maxRegisters := n }
  | .highThreshold => { config with highThreshold := n }

/-- Sets the limits among the entries of a table; they have to be integers. -/
def setAll? (config : Config) : Toml.Entries → Option Config
  | [] => some config
  | (name, node) :: entries =>
    match Limit.ofName? name, node with
    | none, _ => config.setAll? entries
    | some limit, .leaf (some n) => (config.set limit n).setAll? entries
    | some _, _ => none

def isLimit : Toml.Key → Bool
  | [name] => (Limit.ofName? name).isSome
  | _ => false

/-- Reads the limits in a settings file and checks them. The first key that is no limit is
refused. -/
def read (bytes : List UInt8) : Except ConfigReadError Config :=
  match Toml.Document.read? bytes with
  | none => .error .malformed
  | some document =>
    match ({} : Config).setAll? document.entries with
    | none => .error .malformed
    | some config =>
      match document.keys.find? (!isLimit ·) with
      | some key => .error (.invalid (.unknownKey key.text))
      | none =>
        match config.check with
        | .ok () => .ok config
        | .error error => .error (.invalid error)

end Config
end RegisterAllocation
