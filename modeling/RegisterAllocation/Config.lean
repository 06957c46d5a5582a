import RegisterAllocation.MoveType
import RegisterAllocation.Text.Quoted

/-!
# Register file limits

How many registers can be allocated, how many there are with the spill area and the temporaries,
and the last register that fits the short encodings.
-/

namespace RegisterAllocation

/-- Limits of the register file. -/
structure Config where
  /-- The allocatable registers are those below this. -/
  registers : Int64 := 256
  /-- All registers, with the spill area and the temporaries, are below this. -/
  maxRegisters : Int64 := 65536
  /-- The last register that fits the short encodings. -/
  highThreshold : Int64 := 15
deriving DecidableEq, Repr, Inhabited

/-- Why limits are refused. -/
inductive ConfigError where
  | tooFewRegisters (registers : Int64)
  | maxBelowRegisters (maxRegisters registers : Int64)
  | negativeThreshold (threshold : Int64)
  /-- A key that is no limit. -/
  | unknownKey (key : String)
deriving DecidableEq, Repr

namespace ConfigError

/-- The text of an error in the limits. -/
def message : ConfigError → String
  | tooFewRegisters registers =>
    "config: registers is " ++ Decimal.ofWord registers ++ ", need at least 2"
  | maxBelowRegisters maxRegisters registers =>
    "config: max-registers " ++ Decimal.ofWord maxRegisters ++ " is less than registers "
      ++ Decimal.ofWord registers
  | negativeThreshold threshold =>
    "config: negative high-register-threshold " ++ Decimal.ofWord threshold
  | unknownKey key => "config: unknown key " ++ Quoted.string key

end ConfigError

namespace Config

/-- Checks limits that were given by a user. -/
def check (config : Config) : Except ConfigError Unit :=
  if config.registers < 2 then .error (.tooFewRegisters config.registers)
  else if config.maxRegisters < config.registers then
    .error (.maxBelowRegisters config.maxRegisters config.registers)
  else if config.highThreshold < 0 then .error (.negativeThreshold config.highThreshold)
  else .ok ()

end Config
end RegisterAllocation
