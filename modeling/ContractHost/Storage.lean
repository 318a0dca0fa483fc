import ContractHost.Machine

/-! Contract storage. A read answers with what the transaction has written so far and asks the ledger only for
the rest. A write is checked against the policy, paid for by the change it makes, and then recorded. -/

namespace ContractHost

inductive StorageStatus where
  | unchanged
  | modified
  | added
  | deleted
  deriving DecidableEq, Repr

def StorageStatus.of (old new : Bytes) : StorageStatus :=
  if old = new then .unchanged
  else if new = [] then .deleted
  else if old = [] then .added
  else .modified

/-- What a write costs, what it gives back, and by how many bytes it lets the storage grow or shrink. -/
structure StorageBill where
  cost : UInt64
  freed : UInt64 := 0
  added : UInt64 := 0
  deleted : UInt64 := 0
  deriving DecidableEq, Repr

/-- Bytes that a cell already had are paid at the lower rate, new ones at the higher, and lost ones are given
back. -/
def StorageBill.of (schedule : GasSchedule) (old new : UInt64) : StorageBill :=
  if old < new then
    { cost := Gas.add (Gas.mul schedule.storePerByte (new - old)) (Gas.mul schedule.persistPerByte old)
      added := new - old }
  else if new < old then
    { cost := Gas.mul schedule.persistPerByte new
      freed := Gas.mul schedule.releasePerByte (old - new)
      deleted := old - new }
  else { cost := Gas.mul schedule.persistPerByte new }

def Bytes.size (bytes : Bytes) : UInt64 := UInt64.ofNat bytes.length

def AccountChange.record (change : AccountChange) (bill : StorageBill) (key value : Bytes) : AccountChange :=
  { change with
    bytesAdded := change.bytesAdded + bill.added
    bytesDeleted := change.bytesDeleted + bill.deleted }.write key value

namespace Storage

/-- The content of a cell of any account, and whether this transaction wrote it. -/
def readAt (ledger : Ledger) (address : Address) (key : Bytes) : Action (Bytes × Bool) := fun machine =>
  let touched := machine.mapLayers (·.touch address)
  match touched.layers.written? address key with
  | some data => .ok (data, true) touched
  | none =>
    match ledger.readStorage address key with
    | .ok data => .ok (data, false) touched
    | .error fault => .error (.ledger fault) touched

def read (ledger : Ledger) (key : Bytes) : Action (Bytes × Bool) := do
  readAt ledger (← get).storageAddress key

def isReadable (ledger : Ledger) (address : Address) : Except LedgerFault Bool :=
  (ledger.readAccount address).map (fun account => account.any (·.metadata.readable))

def readFrom (ledger : Ledger) (address : Address) (key : Bytes) : Action (Bytes × Bool) := do
  if address = (← get).storageAddress then readAt ledger address key
  else
    match isReadable ledger address with
    | .error fault => throw (.ledger fault)
    | .ok true => readAt ledger address key
    | .ok false => return ([], false)

/-- In read-only mode a write may only repeat what is there. -/
def admitReadOnly (ledger : Ledger) (key value : Bytes) : Action Unit := do
  let (current, _) ← read ledger key
  if current = value then return () else throw .writeOnReadOnly

def admitKey (rules : Rules) (key : Bytes) : Action Unit := fun machine =>
  if rules.spaces.isReserved key then .error .storeReservedKey machine
  else if machine.isProtected && rules.spaces.isProtected key then .error .writeProtectedKey machine
  else .ok () machine

/-- Pay for a write and enter it. Nothing is entered when the gas does not suffice. -/
def settle (bill : StorageBill) (key value : Bytes) : Action Unit := do
  Action.charge bill.cost
  modify (fun machine => machine.setGas (machine.gas.active.free bill.freed))
  modify (fun machine =>
    machine.mapLayers (·.modifyAccount machine.storageAddress (·.record bill key value)))

def write (rules : Rules) (ledger : Ledger) (readOnly : Bool) (key value : Bytes) : Action StorageStatus := do
  if readOnly then admitReadOnly ledger key value
  admitKey rules key
  let (old, _) ← read ledger.later key
  let status := StorageStatus.of old value
  match status with
  | .unchanged => return status
  | _ =>
    settle (StorageBill.of rules.schedule old.size value.size) key value
    return status

/-- Run an action with the protected keys open. They are closed when it ends, however it ends. -/
def unprotected (action : Action α) : Action α := fun machine =>
  match action (machine.setProtection false) with
  | .ok value after => .ok value (after.setProtection true)
  | .error failure after => .error failure (after.setProtection true)

end Storage

end ContractHost
