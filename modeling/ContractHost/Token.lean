import ContractHost.Operations

/-! Token balances. The balance of a token is kept in the account's storage under the protected prefix, where
contracts cannot write, as a big-endian number; a balance of zero is an empty cell. -/

namespace ContractHost.Token

/-- What stands between the protected prefix and the name of the token. -/
def marker : Bytes := Bytes.ofText "esdt"

def key (protectedPrefix token : Bytes) : Bytes := protectedPrefix ++ marker ++ token

def balance (rules : Rules) (ledger : Ledger) (address : Address) (token : Bytes) : Action Nat := do
  let (value, _) ← Storage.readAt ledger address (key rules.spaces.protectedPrefix token)
  return value.toNat

def setBalance (rules : Rules) (ledger : Ledger) (token : Bytes) (amount : Nat) : Action Unit := do
  let readOnly := (← get).readOnly
  let cell := key rules.spaces.protectedPrefix token
  let _ ← Storage.unprotected (Storage.write rules ledger readOnly cell (Bytes.ofNat amount))

def mint (rules : Rules) (ledger : Ledger) (token : Bytes) (amount : Nat) : Action Unit := do
  Action.charge rules.schedule.storageStore
  let held ← balance rules ledger (← get).storageAddress token
  setBalance rules ledger.later token (held + amount)

def within (address : Address) (action : Action α) : Action α := fun machine =>
  match action (machine.setStorageAddress address) with
  | .ok value after => .ok value (after.setStorageAddress machine.storageAddress)
  | .error failure after => .error failure (after.setStorageAddress machine.storageAddress)

/-- Run an action in an output layer of its own: kept if it succeeds, reverted if it fails. -/
def atomically (action : Action α) : Action α := fun machine =>
  match action (machine.mapLayers Layers.continued) with
  | .ok value after => .ok value (after.mapLayers Layers.keep)
  | .error failure after => .error failure (after.mapLayers Layers.revert)

def setBalances (rules : Rules) (ledger : Ledger) (token : Bytes) (destination : Address)
    (own other : Nat) : Action Unit := do
  setBalance rules ledger token own
  within destination (setBalance rules ledger.later.later token other)

/-- Move tokens from the account in scope. Both balances change or neither does. -/
def transfer (rules : Rules) (ledger : Ledger) (token : Bytes) (destination : Address) (amount : Nat) :
    Action Unit := do
  Action.charge rules.schedule.tokenTransfer
  let sender := (← get).storageAddress
  let held ← balance rules ledger sender token
  if held < amount then throw (.insufficientFunds (toString held) (toString amount))
  else if destination = sender then return ()
  else
    let received ← balance rules ledger.later destination token
    atomically (setBalances rules ledger.later.later token destination (held - amount) (received + amount))

end ContractHost.Token
