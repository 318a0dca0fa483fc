import ContractHost.Config
import ContractHost.Layers
import ContractHost.Ledger

/-! The state of the running transaction: the storage scope, the output layers, the gas, the call frame, each
with what was saved for the callers, and the chain of calls. An action works on this state and keeps what it
has done to it when it fails. -/

namespace ContractHost

/-- The account that storage operations apply to, and whether its protected keys are closed to them. -/
structure StorageScope where
  address : Address := .zero
  isProtected : Bool := true
  deriving DecidableEq

/-- The input of the running call and its mode. -/
structure Frame where
  input : CallInput := {}
  readOnly : Bool := false
  deriving DecidableEq

/-- One call of the chain; the outermost has depth zero. -/
structure CallRecord where
  address : Address
  caller : Address
  kind : CallKind
  depth : Nat
  deriving DecidableEq

structure Machine where
  scopes : Stacked StorageScope := ⟨{}, []⟩
  layers : Layers := .start
  gas : Stacked GasTracker := ⟨{ limit := 0 }, []⟩
  frames : Stacked Frame := ⟨{}, []⟩
  /-- The chain of calls, innermost first. -/
  calls : List CallRecord := []
  deriving DecidableEq

instance : Inhabited Machine := ⟨{}⟩

abbrev Action := EStateM Failure Machine

namespace Machine

def storageAddress (machine : Machine) : Address := machine.scopes.active.address

def isProtected (machine : Machine) : Bool := machine.scopes.active.isProtected

def input (machine : Machine) : CallInput := machine.frames.active.input

def readOnly (machine : Machine) : Bool := machine.frames.active.readOnly

def contract (machine : Machine) : Address := machine.input.recipient

def gasLeft (machine : Machine) : UInt64 := machine.gas.active.gasLeft

def gasFreed (machine : Machine) : UInt64 := machine.gas.active.freed

def callDepth (machine : Machine) : Nat := machine.calls.length

def origin? (machine : Machine) : Option Address := machine.calls.getLast?.map (·.caller)

def setStorageAddress (machine : Machine) (address : Address) : Machine :=
  { machine with scopes := machine.scopes.modify (fun scope => { scope with address }) }

def setProtection (machine : Machine) (on : Bool) : Machine :=
  { machine with scopes := machine.scopes.modify (fun scope => { scope with isProtected := on }) }

def setReadOnly (machine : Machine) (on : Bool) : Machine :=
  { machine with frames := machine.frames.modify (fun frame => { frame with readOnly := on }) }

def setInput (machine : Machine) (input : CallInput) : Machine :=
  { machine with frames := machine.frames.modify (fun frame => { frame with input }) }

def setGas (machine : Machine) (tracker : GasTracker) : Machine :=
  { machine with gas := { machine.gas with active := tracker } }

def mapLayers (machine : Machine) (change : Layers → Layers) : Machine :=
  { machine with layers := change machine.layers }

/-- Save the storage scope; the nested one applies to the same account, with its protected keys closed. -/
def pushScope (machine : Machine) : Machine :=
  { machine with scopes := machine.scopes.push (fun scope => { scope with isProtected := true }) }

def restoreScope (machine : Machine) : Machine := { machine with scopes := machine.scopes.restore }

def forgetScope (machine : Machine) : Machine := { machine with scopes := machine.scopes.forget }

def pushFrame (machine : Machine) : Machine := { machine with frames := machine.frames.push id }

def restoreFrame (machine : Machine) : Machine := { machine with frames := machine.frames.restore }

/-- Save the tracker of the caller and start one for a nested call. -/
def pushGas (machine : Machine) (limit : UInt64) : Machine :=
  { machine with gas := machine.gas.push (fun _ => { limit }) }

/-- Return to the caller's tracker with what the nested call did not use. -/
def mergeGas (machine : Machine) : Machine := { machine with gas := machine.gas.restoreWith GasTracker.absorb }

/-- Return to the caller's tracker; the gas of the nested call is lost. -/
def restoreGas (machine : Machine) : Machine := { machine with gas := machine.gas.restore }

def leave (machine : Machine) : Machine := { machine with calls := machine.calls.tail }

def beginScopes (machine : Machine) : Machine := { machine with scopes := ⟨{}, []⟩ }

def beginLayers (machine : Machine) : Machine := { machine with layers := .start }

def beginGas (machine : Machine) (limit : UInt64) : Machine := { machine with gas := ⟨{ limit }, []⟩ }

def beginFrames (machine : Machine) (input : CallInput) : Machine := { machine with frames := ⟨{ input }, []⟩ }

def clearCalls (machine : Machine) : Machine := { machine with calls := [] }

/-- Start a transaction, whatever was left behind by an earlier one. -/
def begin (machine : Machine) (input : CallInput) : Machine :=
  let fresh := (((machine.beginLayers.beginGas input.gas).beginScopes).setStorageAddress input.recipient)
  (fresh.beginFrames input).clearCalls

def settle (machine : Machine) : Machine :=
  { scopes := { machine.scopes with saved := [] }
    layers := machine.layers.keepAll
    gas := machine.gas.restoreFirst
    frames := machine.frames.restoreFirst
    calls := [] }

end Machine

/-- Fail where the value is an error, leaving the state as it is. -/
def Action.ofExcept (outcome : Except Failure α) : Action α := fun machine =>
  match outcome with
  | .ok value => .ok value machine
  | .error failure => .error failure machine

namespace Action

/-- Hand the outcome over as a value. -/
def attempt (action : Action α) : Action (Except Failure α) := fun machine =>
  match action machine with
  | .ok value after => .ok (.ok value) after
  | .error failure after => .ok (.error failure) after

def charge (amount : UInt64) : Action Unit := fun machine =>
  match machine.gas.active.charge amount with
  | (.ok (), tracker) => .ok () (machine.setGas tracker)
  | (.error failure, tracker) => .error failure (machine.setGas tracker)

/-- Enter a call, unless the chain is as deep as it may get; the result is the depth of the new call. -/
def enter (rules : Rules) (address caller : Address) (kind : CallKind) : Action Nat := fun machine =>
  let depth := machine.callDepth
  if rules.maxCallDepth ≤ depth then .error (.callDepthExceeded depth) machine
  else .ok depth { machine with calls := { address, caller, kind, depth } :: machine.calls }

def argument (index : Nat) : Action Bytes := do
  match (← get).input.arguments[index]? with
  | some argument => return argument
  | none => throw (.argumentOutOfRange index)

def transfer (sender receiver : Address) (value : Nat) : Action Unit := fun machine =>
  match machine.layers.transfer sender receiver value with
  | .ok layers => .ok () { machine with layers }
  | .error failure => .error failure machine

end Action

end ContractHost
