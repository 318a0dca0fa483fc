import ContractHost.Failure
import ContractHost.Stacked

/-! The output of the running transaction, kept in layers. A nested call either continues the output it was
made from, and then its layer holds a copy of all that came before, or it is isolated, and then its layer
starts empty and reads fall through to the layers beneath. Leaving the call keeps, merges or reverts its layer. -/

namespace ContractHost

structure Layer where
  output : Output := {}
  /-- Started empty, not as a copy of the layer beneath. -/
  isolated : Bool := false
  deriving DecidableEq

abbrev Layers := Stacked Layer

namespace Layers

def start : Layers := ⟨{}, []⟩

def output (layers : Layers) : Output := layers.active.output

def modifyOutput (layers : Layers) (change : Output → Output) : Layers :=
  layers.modify (fun layer => { layer with output := change layer.output })

/-- Open a layer that continues the active one. -/
def continued (layers : Layers) : Layers := layers.push (fun layer => { layer with isolated := false })

/-- Empty the active layer and cut it off from the one beneath. -/
def isolate (layers : Layers) : Layers := { layers with active := { isolated := true } }

/-- Close the active layer and everything done in it. -/
def revert (layers : Layers) : Layers := layers.restore

/-- Close the active layer, folding what was done in it into the one beneath. -/
def merge (layers : Layers) : Layers :=
  layers.restoreWith (fun beneath top =>
    { beneath with output := if top.isolated then beneath.output.merge top.output else top.output })

/-- Forget the layer beneath. One that continued it stands in its place. -/
def keep (layers : Layers) : Layers :=
  match layers.saved with
  | [] => layers
  | beneath :: older =>
    ⟨{ layers.active with isolated := layers.active.isolated || beneath.isolated }, older⟩

/-- Forget every layer beneath. -/
def keepAll (layers : Layers) : Layers :=
  ⟨{ layers.active with isolated := layers.active.isolated || layers.saved.any (·.isolated) }, []⟩

/-- The outputs that show below a layer: an isolated layer lets the next one show, a copy hides it. -/
def beneath (isolated : Bool) : List Layer → List Output
  | [] => []
  | layer :: older =>
    if isolated then layer.output :: beneath layer.isolated older else beneath layer.isolated older

/-- The outputs that together make up the current state, topmost first. -/
def visible (layers : Layers) : List Output :=
  layers.active.output :: beneath layers.active.isolated layers.saved

/-- The content last written to a storage cell in this transaction. -/
def written? (layers : Layers) (address : Address) (key : Bytes) : Option Bytes :=
  layers.visible.findSome? (fun output => output.written? address key)

def updatesIn (output : Output) (address : Address) : StorageUpdates :=
  ((output.account? address).map (·.updates)).getD .empty

def updates (layers : Layers) (address : Address) : StorageUpdates :=
  layers.visible.reverse.foldl
    (fun collected output => collected.union (fun _ later => later) (updatesIn output address)) .empty

/-- The ledger balance of an account, if it has been loaded. -/
def knownBalance (layers : Layers) (address : Address) : Option Int :=
  layers.visible.findSome? (fun output => (output.account? address).bind (·.balance))

def balanceDelta (layers : Layers) (address : Address) : Int :=
  layers.visible.foldr
    (fun output total => ((output.account? address).map (·.balanceDelta)).getD 0 + total) 0

def account? (layers : Layers) (address : Address) : Option AccountChange := layers.output.account? address

def modifyAccount (layers : Layers) (address : Address) (change : AccountChange → AccountChange) : Layers :=
  layers.modifyOutput (fun output => output.modifyAccount address change)

def touch (layers : Layers) (address : Address) : Layers := layers.modifyAccount address id

def noteBalance (layers : Layers) (address : Address) (balance : Int) : Layers :=
  layers.modifyAccount address (fun change => { change with balance := some balance })

/-- What an account can spend, taking an unknown ledger balance as zero. -/
def available (layers : Layers) (address : Address) : Int :=
  (layers.knownBalance address).getD 0 + layers.balanceDelta address

def credit (layers : Layers) (address : Address) (amount : Int) : Layers :=
  layers.modifyAccount address (fun change => { change with balanceDelta := change.balanceDelta + amount })

/-- Move funds between two accounts, if the sender has them. -/
def transfer (layers : Layers) (sender receiver : Address) (value : Nat) : Except Failure Layers :=
  let available := layers.available sender
  if available < value then .error (.insufficientFunds (toString available) (toString value))
  else .ok ((layers.credit sender (-(value : Int))).credit receiver value)

def finish (layers : Layers) (data : Bytes) : Layers :=
  layers.modifyOutput (fun output => { output with data := output.data ++ [data] })

def clearData (layers : Layers) : Layers := layers.modifyOutput (fun output => { output with data := [] })

def log (layers : Layers) (entry : LogEntry) : Layers :=
  layers.modifyOutput (fun output => { output with logs := output.logs ++ [entry] })

/-- The active layer as the output of a successful transaction. -/
def result (layers : Layers) (gasRemaining gasRefund : UInt64) : Output :=
  { layers.output with code := .ok, message := "", gasRemaining, gasRefund }

end Layers

end ContractHost
