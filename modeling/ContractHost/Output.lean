import ContractHost.Address
import ContractHost.SortedMap

/-! The effects of a transaction: what it changed on each account, what it returned and what it logged.
Outputs of successive parts of a transaction are merged, the later part winning where both wrote. -/

namespace ContractHost

inductive ReturnCode where
  | ok
  | functionNotFound
  | functionWrongSignature
  | contractNotFound
  | userError
  | outOfGas
  | outOfFunds
  | callStackOverflow
  | contractInvalid
  | executionFailed
  deriving DecidableEq, Repr, Inhabited

namespace ReturnCode

def all : List ReturnCode :=
  [.ok, .functionNotFound, .functionWrongSignature, .contractNotFound, .userError, .outOfGas, .outOfFunds,
   .callStackOverflow, .contractInvalid, .executionFailed]

/-- The name under which files and messages carry the code. -/
def name : ReturnCode → String
  | .ok => "Ok"
  | .functionNotFound => "FunctionNotFound"
  | .functionWrongSignature => "FunctionWrongSignature"
  | .contractNotFound => "ContractNotFound"
  | .userError => "UserError"
  | .outOfGas => "OutOfGas"
  | .outOfFunds => "OutOfFunds"
  | .callStackOverflow => "CallStackOverFlow"
  | .contractInvalid => "ContractInvalid"
  | .executionFailed => "ExecutionFailed"

def ofName? (name : String) : Option ReturnCode := all.find? (fun code => code.name == name)

def description : ReturnCode → String
  | .ok => "ok"
  | .functionNotFound => "function not found"
  | .functionWrongSignature => "wrong signature for function"
  | .contractNotFound => "contract not found"
  | .userError => "user error"
  | .outOfGas => "out of gas"
  | .outOfFunds => "out of funds"
  | .callStackOverflow => "call stack overflow"
  | .contractInvalid => "contract invalid"
  | .executionFailed => "execution failed"

def isOk (code : ReturnCode) : Bool := code == .ok

end ReturnCode

/-- A storage cell and its new content; empty content clears the cell. -/
structure StorageUpdate where
  offset : Bytes
  data : Bytes
  deriving DecidableEq, Inhabited

abbrev StorageUpdates := SortedMap Bytes StorageUpdate

/-- What a transaction did to one account. The balance is what the ledger held, once it has been asked. -/
structure AccountChange where
  address : Address
  nonce : UInt64 := 0
  balance : Option Int := none
  balanceDelta : Int := 0
  updates : StorageUpdates := .empty
  bytesAdded : UInt64 := 0
  bytesDeleted : UInt64 := 0
  isNew : Bool := false
  deriving DecidableEq

namespace AccountChange

def write (change : AccountChange) (key data : Bytes) : AccountChange :=
  { change with updates := change.updates.insert key ⟨key, data⟩ }

/-- Changes to one account in sequence. Deltas and byte counters add up. -/
def merge (left right : AccountChange) : AccountChange :=
  { address := left.address
    nonce := max left.nonce right.nonce
    balance := right.balance.or left.balance
    balanceDelta := left.balanceDelta + right.balanceDelta
    updates := left.updates.union (fun _ later => later) right.updates
    bytesAdded := left.bytesAdded + right.bytesAdded
    bytesDeleted := left.bytesDeleted + right.bytesDeleted
    isNew := left.isNew || right.isNew }

end AccountChange

structure LogEntry where
  address : Address
  topics : List Bytes
  data : Bytes
  deriving DecidableEq

structure Output where
  code : ReturnCode := .ok
  message : String := ""
  accounts : SortedMap Address AccountChange := .empty
  data : List Bytes := []
  logs : List LogEntry := []
  gasRemaining : UInt64 := 0
  gasRefund : UInt64 := 0
  deriving DecidableEq

instance : Inhabited Output := ⟨{}⟩

namespace Output

def account? (output : Output) (address : Address) : Option AccountChange := output.accounts.find? address

/-- The entry of an account, an untouched one if there is none yet. -/
def account (output : Output) (address : Address) : AccountChange :=
  (output.account? address).getD { address }

/-- Change the entry of an account, making one first if there is none. -/
def modifyAccount (output : Output) (address : Address) (change : AccountChange → AccountChange) : Output :=
  { output with accounts := output.accounts.insert address (change (output.account address)) }

def written? (output : Output) (address : Address) (key : Bytes) : Option Bytes :=
  (output.account? address).bind (fun change => (change.updates.find? key).map (·.data))

/-- Effects in sequence. Code, message and gas stay those of `left`. -/
def merge (left right : Output) : Output :=
  { left with
    accounts := left.accounts.union AccountChange.merge right.accounts
    data := left.data ++ right.data
    logs := left.logs ++ right.logs }

end Output

end ContractHost
