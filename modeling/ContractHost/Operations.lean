import ContractHost.Storage

/-! The elementary operations of running code: each is charged for first and then acts on the account, the
frame or the output that the running call has. -/

namespace ContractHost.Operations

def store (rules : Rules) (ledger : Ledger) (key value : Bytes) : Action StorageStatus := do
  Action.charge rules.schedule.storageStore
  Storage.write rules ledger (← get).readOnly key value

def load (rules : Rules) (ledger : Ledger) (key : Bytes) : Action Bytes := do
  Action.charge rules.schedule.storageLoad
  let (value, _) ← Storage.read ledger key
  return value

def loadFrom (rules : Rules) (ledger : Ledger) (address : Address) (key : Bytes) : Action Bytes := do
  Action.charge rules.schedule.storageLoad
  let (value, _) ← Storage.readFrom ledger address key
  return value

def argument (rules : Rules) (index : Nat) : Action Bytes := do
  Action.charge rules.schedule.getArgument
  Action.argument index

def finish (rules : Rules) (data : Bytes) : Action Unit := do
  Action.charge rules.schedule.finish
  modify (·.mapLayers (·.finish data))

def log (rules : Rules) (topics : List Bytes) (data : Bytes) : Action Unit := do
  Action.charge rules.schedule.writeLog
  modify (fun machine => machine.mapLayers (·.log { address := machine.contract, topics, data }))

/-- Ask the ledger for the balance of an account, unless it is known already. -/
def loadBalance (ledger : Ledger) (address : Address) : Action Unit := fun machine =>
  match machine.layers.knownBalance address with
  | some _ => .ok () machine
  | none =>
    match ledger.readAccount address with
    | .error fault => .error (.ledger fault) machine
    | .ok account =>
      .ok () (machine.mapLayers (·.noteBalance address ((account.map (·.balance)).getD 0)))

def transferCallValue (ledger : Ledger) (input : CallInput) : Action Unit :=
  if input.value = 0 then return ()
  else do
    loadBalance ledger input.caller
    Action.transfer input.caller input.recipient input.value

def transfer (rules : Rules) (ledger : Ledger) (destination : Address) (value : Nat) : Action Unit := do
  Action.charge rules.schedule.transferValue
  let machine ← get
  if machine.readOnly && value != 0 then throw .writeOnReadOnly
  else
    loadBalance ledger machine.contract
    Action.transfer machine.contract destination value

end ContractHost.Operations
