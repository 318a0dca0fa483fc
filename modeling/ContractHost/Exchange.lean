import ContractHost.Json.Parser
import ContractHost.Config
import ContractHost.CodeMetadata

/-! The forms in which values are exchanged as JSON: records as objects with their fields in order, bytes as
arrays of numbers, addresses as hexadecimal text, and whole numbers of any size as a sign and 32-bit digits. -/

namespace ContractHost

/-- Values that can be written as JSON, some of them only in part, and read back. -/
class Exchange (α : Type) where
  encode : α → Option Json
  decode : Json → Option α

namespace Exchange

variable {α : Type}

def toText [Exchange α] (value : α) : Option String := (encode value).map Json.toText

def ofText [Exchange α] (text : String) : Option α := (Json.parse text).bind decode

def required (read : Json → Option α) (member : Option Json) : Option α := member.bind read

/-- Read a member that has a value of its own when it is left out. -/
def optional (default : α) (read : Json → Option α) : Option Json → Option α
  | none => some default
  | some member => read member

def natural (bound : Nat) : Json → Option Nat
  | .integer value => if 0 ≤ value ∧ value < bound then some value.toNat else none
  | _ => none

def word (json : Json) : Option UInt64 := (natural UInt64.size json).map UInt64.ofNat

def ofWord (value : UInt64) : Json := .ofNat value.toNat

def bool : Json → Option Bool
  | .bool value => some value
  | _ => none

def string : Json → Option String
  | .text content => content
  | _ => none

def list (read : Json → Option α) : Json → Option (List α)
  | .array items => items.mapM read
  | _ => none

def byte (json : Json) : Option UInt8 := (natural 256 json).map UInt8.ofNat

def bytes (json : Json) : Option Bytes := list byte json

def ofBytes (bytes : Bytes) : Json := .array (bytes.map (fun byte => .ofNat byte.toNat))

def address (json : Json) : Option Address := do
  let text ← string json
  (Address.parse text).toOption

def ofAddress (address : Address) : Json := .string address.toHex

/-- The name of one of the given values, as a text or as the only member of an object, null being its content. -/
def choice (all : List α) (name : α → String) : Json → Option α
  | .text (some content) => all.find? (fun value => name value == content)
  | .object [(some content, .null)] => all.find? (fun value => name value == content)
  | _ => none

/-- The digits of a number in base 2³², least significant first and without a leading zero. -/
def digits (number : Nat) : List Nat :=
  if number = 0 then [] else number % UInt32.size :: digits (number / UInt32.size)
termination_by number
decreasing_by exact Nat.div_lt_self (by omega) (by decide)

def ofDigits (digits : List Nat) : Nat := digits.foldr (fun digit total => digit + UInt32.size * total) 0

/-- A sign and the digits of the magnitude. -/
def ofInt (value : Int) : Json := .array [.integer value.sign, .array ((digits value.natAbs).map .ofNat)]

/-- Leading zeros are passed over, and a number with sign zero is zero whatever its digits. -/
def int : Json → Option Int
  | .array [.integer sign, magnitude] => do
    let digits ← list (natural UInt32.size) magnitude
    if sign = -1 ∨ sign = 0 ∨ sign = 1 then some (sign * ofDigits digits) else none
  | _ => none

def ofOptionalInt : Option Int → Json
  | some value => ofInt value
  | none => .null

/-- Null stands for no number, and so does a member left out. -/
def optionalInt : Option Json → Option (Option Int)
  | none | some .null => some none
  | some json => (int json).map some

instance : Exchange Address where
  encode value := some (ofAddress value)
  decode := address

instance : Exchange CallKind where
  encode kind := some (.string kind.name)
  decode := choice CallKind.all CallKind.name

instance : Exchange ReturnCode where
  encode code := some (.string code.name)
  decode := choice ReturnCode.all ReturnCode.name

instance : Exchange CodeMetadata where
  encode metadata := some (.record
    [("upgradeable", .bool metadata.upgradeable), ("readable", .bool metadata.readable),
     ("payable", .bool metadata.payable), ("payable_by_sc", .bool metadata.payableByContract)])
  decode json := do
    let [upgradeable, readable, payable, payableByContract] ←
      json.fields? ["upgradeable", "readable", "payable", "payable_by_sc"] | none
    return { upgradeable := ← required bool upgradeable
             readable := ← required bool readable
             payable := ← required bool payable
             payableByContract := ← required bool payableByContract }

instance : Exchange StorageUpdate where
  encode update := some (.record [("offset", ofBytes update.offset), ("data", ofBytes update.data)])
  decode json := do
    let [offset, data] ← json.fields? ["offset", "data"] | none
    return { offset := ← required bytes offset, data := ← required bytes data }

def logEntry (json : Json) : Option LogEntry := do
  let [place, topics, data] ← json.fields? ["address", "topics", "data"] | none
  return { address := ← required address place
           topics := ← required (list bytes) topics
           data := ← required bytes data }

def ofLogEntry (entry : LogEntry) : Json :=
  .record [("address", ofAddress entry.address), ("topics", .array (entry.topics.map ofBytes)),
    ("data", ofBytes entry.data)]

instance : Exchange LogEntry where
  encode entry := some (ofLogEntry entry)
  decode := logEntry

/-- Keys that are bytes have no place as member names, so only an empty map can be written. -/
def ofUpdates (updates : StorageUpdates) : Option Json :=
  if updates.isEmpty then some (.object []) else none

def updates : Json → Option StorageUpdates
  | .object [] => some .empty
  | _ => none

def accountFields : List String :=
  ["address", "nonce", "balance", "balance_delta", "storage_updates", "bytes_added_to_storage",
   "bytes_deleted_from_storage", "is_new"]

def ofAccount (change : AccountChange) : Option Json := do
  let written ← ofUpdates change.updates
  return .record (accountFields.zip
    [ofAddress change.address, ofWord change.nonce, ofOptionalInt change.balance, ofInt change.balanceDelta,
     written, ofWord change.bytesAdded, ofWord change.bytesDeleted, .bool change.isNew])

def account (json : Json) : Option AccountChange := do
  let [place, nonce, balance, delta, written, added, deleted, isNew] ← json.fields? accountFields | none
  return { address := ← required address place
           nonce := ← required word nonce
           balance := ← optionalInt balance
           balanceDelta := ← required int delta
           updates := ← required updates written
           bytesAdded := ← required word added
           bytesDeleted := ← required word deleted
           isNew := ← required bool isNew }

instance : Exchange AccountChange where
  encode := ofAccount
  decode := account

/-- Accounts are the members of an object, named by their addresses. -/
def ofAccounts (accounts : SortedMap Address AccountChange) : Option Json := do
  let members ← accounts.entries.mapM (fun entry => (ofAccount entry.2).map (fun json => (entry.1.toHex, json)))
  return .record members

def accounts : Json → Option (SortedMap Address AccountChange)
  | .object members => do
    let entries ← members.mapM (fun member => do
      let place ← address (.text member.1)
      let change ← account member.2
      return (place, change))
    return .ofList entries
  | _ => none

def outputFields : List String :=
  ["return_code", "return_message", "output_accounts", "return_data", "logs", "gas_remaining", "gas_refund"]

instance : Exchange Output where
  encode output := do
    let code ← encode output.code
    let changes ← ofAccounts output.accounts
    return .record (outputFields.zip
      [code, .string output.message, changes, .array (output.data.map ofBytes),
       .array (output.logs.map ofLogEntry), ofWord output.gasRemaining, ofWord output.gasRefund])
  decode json := do
    let [code, message, changes, data, logs, gasRemaining, gasRefund] ← json.fields? outputFields | none
    return { code := ← required decode code
             message := ← required string message
             accounts := ← required accounts changes
             data := ← required (list bytes) data
             logs := ← required (list logEntry) logs
             gasRemaining := ← required word gasRemaining
             gasRefund := ← required word gasRefund }

def ofSchedule (schedule : GasSchedule) : Json :=
  .record (GasSchedule.costNames.zip (schedule.costs.map ofWord))

/-- Costs left out have their usual value. -/
def schedule (json : Json) : Option GasSchedule := do
  let members ← json.fields? GasSchedule.costNames
  let found ← (({} : GasSchedule).costs.zip members).mapM (fun entry => optional entry.1 word entry.2)
  GasSchedule.ofCosts? found

instance : Exchange GasSchedule where
  encode value := some (ofSchedule value)
  decode := schedule

instance : Exchange Config where
  encode config := some (.record (Config.fieldNames.zip
    [.string config.reservedPrefix, .string config.protectedPrefix, ofWord config.maxCallDepth,
     ofWord config.maxCodeSize, ofSchedule config.schedule]))
  decode json := do
    let usual : Config := {}
    let [reserved, guarded, depth, size, costs] ← json.fields? Config.fieldNames | none
    return { reservedPrefix := ← optional usual.reservedPrefix string reserved
             protectedPrefix := ← optional usual.protectedPrefix string guarded
             maxCallDepth := ← optional usual.maxCallDepth word depth
             maxCodeSize := ← optional usual.maxCodeSize word size
             schedule := ← optional usual.schedule schedule costs }

end Exchange

end ContractHost
