import ContractHost.Config
import ContractHost.Toml.Parser
import ContractHost.Toml.Quoted

/-! Configuration files. A file names the fields that differ from the usual configuration; what is left out keeps
its usual value, and what is not known is passed over. -/

namespace ContractHost

inductive ConfigFault where
  | invalid (problem : ConfigProblem)
  | path
  | unreadable
  | unparsable
  | unwritable
  /-- An integer is too large for the file format. -/
  | unrepresentable
  deriving DecidableEq, Repr

def ConfigFault.message : ConfigFault → String
  | .invalid problem => problem.message
  | .path => "Invalid path: directory traversal detected"
  | .unreadable => "Failed to read config file"
  | .unparsable => "Failed to parse config"
  | .unwritable => "Failed to write config file"
  | .unrepresentable => "Failed to serialize config"

namespace Toml

/-- The nodes of the given names. An array gives them by position, and a time has none of them. -/
def Node.fields? (names : List String) : Node → Option (List (Option Node))
  | .table _ entries => some (names.map (fun name => Entries.find? entries name))
  | .array items => some ((items.map some ++ List.replicate names.length none).take names.length)
  | .tables elements =>
    some ((elements.map (fun entries => some (Node.table .header entries)) ++
      List.replicate names.length none).take names.length)
  | .time => some (names.map (fun _ => none))
  | _ => none

/-- Read a node that has a value of its own when it is left out. -/
def optionalNode {α : Type} (default : α) (read : Node → Option α) : Option Node → Option α
  | none => some default
  | some node => read node

def Node.word : Node → Option UInt64
  | .integer value => if 0 ≤ value then some (UInt64.ofNat value.toNat) else none
  | _ => none

def Node.string? : Node → Option String
  | .string text => some text
  | _ => none

end Toml

namespace GasSchedule

def ofNode (node : Toml.Node) : Option GasSchedule := do
  let nodes ← node.fields? costNames
  let found ← (({} : GasSchedule).costs.zip nodes).mapM (fun entry =>
    Toml.optionalNode entry.1 Toml.Node.word entry.2)
  ofCosts? found

end GasSchedule

namespace Config

def ofNode (node : Toml.Node) : Option Config := do
  let usual : Config := {}
  let [reserved, guarded, depth, size, costs] ← node.fields? fieldNames | none
  return { reservedPrefix := ← Toml.optionalNode usual.reservedPrefix Toml.Node.string? reserved
           protectedPrefix := ← Toml.optionalNode usual.protectedPrefix Toml.Node.string? guarded
           maxCallDepth := ← Toml.optionalNode usual.maxCallDepth Toml.Node.word depth
           maxCodeSize := ← Toml.optionalNode usual.maxCodeSize Toml.Node.word size
           schedule := ← Toml.optionalNode usual.schedule GasSchedule.ofNode costs }

def fieldLine (name : String) (written : List Char) : List Char := name.toList ++ " = ".toList ++ written ++ ['\n']

/-- Integers of files are signed, so that the upper half of the words has no written form. -/
def writtenWord (value : UInt64) : Option (List Char) :=
  if value.toNat < Toml.integerBound then some (toString value.toNat).toList else none

def render (config : Config) : Option String := do
  let texts := [Toml.quote config.reservedPrefix.toList, Toml.quote config.protectedPrefix.toList]
  let limits ← [config.maxCallDepth, config.maxCodeSize].mapM writtenWord
  let costs ← config.schedule.costs.mapM writtenWord
  let fields := List.zipWith fieldLine fieldNames (texts ++ limits)
  let costFields := List.zipWith fieldLine GasSchedule.costNames costs
  return String.ofList (fields.flatten ++ "\n[gas_schedule]\n".toList ++ costFields.flatten)

/-- Read the text of a file; the configuration has to be usable. -/
def parse (text : String) : Except ConfigFault Config :=
  match (Toml.parse text).bind (fun entries => ofNode (.table .header entries)) with
  | none => .error .unparsable
  | some config =>
    match config.problem? with
    | some problem => .error (.invalid problem)
    | none => .ok config

def hasTraversal : List Char → Bool
  | '.' :: '.' :: _ => true
  | _ :: rest => hasTraversal rest
  | [] => false

def checkPath (path : String) : Except ConfigFault Unit :=
  if hasTraversal path.toList then .error .path else .ok ()

/-- Load a configuration, `contents` being what can be read at the path, if anything can. -/
def load (path : String) (contents : Option String) : Except ConfigFault Config := do
  checkPath path
  match contents with
  | some text => parse text
  | none => throw .unreadable

/-- The text to be written when a configuration is saved under a path that can be written or cannot. -/
def save (config : Config) (path : String) (writable : Bool) : Except ConfigFault String := do
  checkPath path
  match config.render with
  | none => throw .unrepresentable
  | some text => if writable then return text else throw .unwritable

end Config

end ContractHost
