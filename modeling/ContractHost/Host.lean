import ContractHost.Gate
import ContractHost.Program
import ContractHost.Token

/-! The host. It runs the code of contracts against the machine, serves their requests, and makes nested calls:
the caller's state is saved, the callee's code runs, and what it did is merged or reverted by its outcome. The
depth that is left bounds the nesting, so that every run ends. -/

namespace ContractHost

structure Host (environment : Environment) where
  rules : Rules
  gate : Gate
  builder : Builder (Program environment Unit)

/-- The state that a run changes: the machine of the host and what lies around it. -/
structure World (environment : Environment) where
  machine : Machine := {}
  ledger : Ledger := {}
  memory : environment.Memory

abbrev Run (environment : Environment) := EStateM Failure (World environment)

namespace Run

variable {environment : Environment} {α : Type}

def onMachine (action : Ledger → Action α) : Run environment α := fun world =>
  match action world.ledger world.machine with
  | .ok value machine => .ok value { world with machine }
  | .error failure machine => .error failure { world with machine }

def inspect (view : Machine → α) : Run environment α := fun world => .ok (view world.machine) world

end Run

namespace Program

variable {environment : Environment} {α : Type}

def run (serve : (operation : Operation) → Run environment operation.Reply) :
    Program environment α → Run environment α
  | .done value => fun world => .ok value world
  | .fail failure => fun world => .error failure world
  | .request operation next => fun world =>
    match serve operation world with
    | .ok reply after => run serve (next (.ok reply)) after
    | .error failure after => run serve (next (.error failure)) after
  | .consult question next => fun world =>
    match environment.respond question world.machine world.ledger world.memory with
    | (answer, ledger, memory) => run serve (next answer) { world with ledger, memory }

end Program

namespace Host

variable {environment : Environment}

def interfaceVersion : Nat := 1

def ofConfig (config : Config) (gate : Gate) (builder : Builder (Program environment Unit)) :
    Except Failure (Host environment) := do
  let rules ← Rules.ofConfig config
  return { rules, gate, builder }

/-- Serve a request of running code; nested calls are made by `nested`. -/
def serve (host : Host environment) (nested : Context → CallInput → Run environment Unit) :
    (operation : Operation) → Run environment operation.Reply
  | .store key value => Run.onMachine (fun ledger => Operations.store host.rules ledger key value)
  | .load key => Run.onMachine (fun ledger => Operations.load host.rules ledger key)
  | .loadFrom address key => Run.onMachine (fun ledger => Operations.loadFrom host.rules ledger address key)
  | .argument index => Run.onMachine (fun _ => Operations.argument host.rules index)
  | .arguments => Run.inspect (·.input.arguments)
  | .caller => Run.inspect (·.input.caller)
  | .contract => Run.inspect (·.contract)
  | .callValue => Run.inspect (·.input.value)
  | .finish data => Run.onMachine (fun _ => Operations.finish host.rules data)
  | .transfer destination value =>
    Run.onMachine (fun ledger => Operations.transfer host.rules ledger destination value)
  | .log topics data => Run.onMachine (fun _ => Operations.log host.rules topics data)
  | .useGas amount => Run.onMachine (fun _ => Action.charge amount)
  | .gasLeft => Run.inspect (·.gasLeft)
  | .isReadOnly => Run.inspect (·.readOnly)
  | .setReadOnly on => Run.onMachine (fun _ => modify (·.setReadOnly on))
  | .call context input => nested context input
  | .tokenBalance address token =>
    Run.onMachine (fun ledger => Token.balance host.rules ledger address token)
  | .tokenMint token amount => Run.onMachine (fun ledger => Token.mint host.rules ledger token amount)
  | .tokenTransfer token destination amount =>
    Run.onMachine (fun ledger => Token.transfer host.rules ledger token destination amount)

/-- Load the recipient's code, pay for it, and let it through the gate; the result is the body to run. -/
def prepare (host : Host environment) (ledger : Ledger) (input : CallInput) :
    Action (Program environment Unit) := do
  let code ← Action.ofExcept ((ledger.readCode input.recipient).mapError Failure.ledger)
  if code.isEmpty then throw (.contractNotFound input.recipient.toBech32)
  else if host.rules.maxCodeSize < code.length then
    throw (.codeSizeExceeded code.length host.rules.maxCodeSize)
  else
    Action.charge (host.rules.schedule.compileCost code.size)
    let contract ← Action.ofExcept (host.builder code)
    Action.ofExcept (host.gate.verify contract.interface)
    match contract.body? input.function with
    | some body => return body
    | none => throw (.functionNotFound input.function)

def execute (host : Host environment) (nested : Context → CallInput → Run environment Unit)
    (input : CallInput) : Run environment Unit := do
  let body ← Run.onMachine (fun ledger => host.prepare ledger input)
  body.run (host.serve nested)

def enterNested (context : Context) (input : CallInput) (machine : Machine) : Machine :=
  let saved := (machine.mapLayers Layers.continued).pushScope
  let placed :=
    match context with
    | .same => saved
    | .destination => (saved.mapLayers Layers.isolate).setStorageAddress input.recipient
  (placed.pushFrame.setInput input).pushGas input.gas

def leaveNested (context : Context) (succeeded : Bool) (machine : Machine) : Machine :=
  let returned :=
    if succeeded then
      match context with
      | .same => machine.mergeGas.mapLayers Layers.keep
      | .destination => machine.mergeGas.mapLayers Layers.merge
    else machine.restoreGas.mapLayers Layers.revert
  returned.restoreScope.restoreFrame.leave

def runNested (context : Context) (input : CallInput) (callee : Run environment Unit) :
    Run environment (Except Failure Unit) := fun world =>
  match callee { world with machine := enterNested context input world.machine } with
  | .ok () after => .ok (.ok ()) { after with machine := leaveNested context true after.machine }
  | .error failure after =>
    .ok (.error failure) { after with machine := leaveNested context false after.machine }

def runAdmitted (host : Host environment) (execute : CallInput → Run environment Unit) (context : Context)
    (input : CallInput) : Run environment (Except Failure Unit) := do
  let entered ← Run.onMachine (fun _ =>
    Action.attempt (Action.enter host.rules input.recipient input.caller input.kind))
  match entered with
  | .error failure => return .error failure
  | .ok _ =>
    runNested context input do
      Run.onMachine (fun ledger => Operations.transferCallValue ledger input)
      execute input

/-- Make a nested call. The callee gets the gas that was set aside for it; the host has the last word on who the
caller is. The final cost falls due whatever came of the call. -/
def call (host : Host environment) (execute : CallInput → Run environment Unit) (context : Context)
    (input : CallInput) : Run environment Unit := do
  let caller ← Run.inspect (·.contract)
  Run.onMachine (fun _ => Action.charge (host.rules.schedule.callCost context))
  Run.onMachine (fun _ => Action.charge input.gas)
  let outcome ← host.runAdmitted execute context { input with caller, kind := context.kind }
  Run.onMachine (fun _ => Action.charge host.rules.schedule.callFinalCost)
  Run.onMachine (fun _ => Action.ofExcept outcome)

/-- Make a nested call when `depthLeft` more calls fit into the chain. -/
def callWithin (host : Host environment) : Nat → Context → CallInput → Run environment Unit
  | 0 => host.call (fun _ => throw (.callDepthExceeded host.rules.maxCallDepth))
  | depthLeft + 1 => host.call (host.execute (host.callWithin depthLeft))

def executeTopLevel (host : Host environment) (input : CallInput) : Run environment Unit := do
  let _ ← Run.onMachine (fun _ => Action.enter host.rules input.recipient input.caller input.kind)
  Run.onMachine (fun ledger => Operations.transferCallValue ledger input)
  host.execute (host.callWithin (host.rules.maxCallDepth - 1)) input

/-- Run a transaction. Its failures show in the output's return code. -/
def run (host : Host environment) (input : CallInput) (world : World environment) :
    Output × World environment :=
  match host.executeTopLevel input { world with machine := world.machine.begin input } with
  | .ok () after =>
    (after.machine.layers.result after.machine.gasLeft after.machine.gasFreed,
      { after with machine := after.machine.settle })
  | .error failure after => (.failed failure, { after with machine := after.machine.settle })

/-- Run code against the host outside any transaction. -/
def runProgram {α : Type} (host : Host environment) (program : Program environment α) :
    Run environment α :=
  program.run (host.serve (host.callWithin host.rules.maxCallDepth))

end Host

end ContractHost
