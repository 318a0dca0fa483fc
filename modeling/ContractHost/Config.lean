import ContractHost.Gas
import ContractHost.KeySpaces

/-! The configuration of a host, and the rules that follow from a usable one. -/

namespace ContractHost

structure Config where
  reservedPrefix : String := "RESERVED"
  protectedPrefix : String := "VMHOST@"
  maxCallDepth : UInt64 := 64
  /-- In bytes. -/
  maxCodeSize : UInt64 := 131072
  schedule : GasSchedule := {}
  deriving DecidableEq, Repr, Inhabited

inductive ConfigProblem where
  | reservedPrefixEmpty
  | protectedPrefixEmpty
  | callDepthZero
  | codeSizeZero
  deriving DecidableEq, Repr

def ConfigProblem.message : ConfigProblem → String
  | .reservedPrefixEmpty => "Reserved key prefix cannot be empty"
  | .protectedPrefixEmpty => "Protected key prefix cannot be empty"
  | .callDepthZero => "Max call depth cannot be 0"
  | .codeSizeZero => "Max code size cannot be 0"

namespace Config

def fieldNames : List String :=
  ["reserved_key_prefix", "protected_key_prefix", "max_call_depth", "max_code_size", "gas_schedule"]

/-- The first problem, in the order of the fields. -/
def problem? (config : Config) : Option ConfigProblem :=
  if config.reservedPrefix.isEmpty then some .reservedPrefixEmpty
  else if config.protectedPrefix.isEmpty then some .protectedPrefixEmpty
  else if config.maxCallDepth = 0 then some .callDepthZero
  else if config.maxCodeSize = 0 then some .codeSizeZero
  else none

def keySpaces (config : Config) : Except Failure KeySpaces :=
  KeySpaces.ofPrefixes (Bytes.ofText config.reservedPrefix) (Bytes.ofText config.protectedPrefix)

end Config

/-- What a host goes by: its configuration and the key spaces that it names. -/
structure Rules where
  config : Config
  spaces : KeySpaces

namespace Rules

def ofConfig (config : Config) : Except Failure Rules := do
  let spaces ← config.keySpaces
  match config.problem? with
  | some problem => throw (.invalidConfig problem.message)
  | none => return { config, spaces }

def schedule (rules : Rules) : GasSchedule := rules.config.schedule

def maxCallDepth (rules : Rules) : Nat := rules.config.maxCallDepth.toNat

def maxCodeSize (rules : Rules) : Nat := rules.config.maxCodeSize.toNat

end Rules

end ContractHost
