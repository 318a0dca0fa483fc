import ContractHost.Proofs.Moments

/-! No transaction sees an earlier one. A host goes on with the machine that the transaction before has left, and
wherever that one stopped, whatever it had saved for its callers, switched on or used up, the next one starts from its
own input alone. -/

namespace ContractHost

private theorem Machine.begin_fresh (machine : Machine) (input : CallInput) :
    machine.begin input = ({} : Machine).begin input := rfl

/-- A transaction with what it finds around it: the contracts that are known, the ledger, and the memory of the
environment. -/
structure Turn (environment : Environment) where
  builder : Builder (Program environment Unit)
  input : CallInput
  ledger : Ledger
  memory : environment.Memory

namespace Host

variable {environment : Environment} (host : Host environment)

def take (turn : Turn environment) (machine : Machine) : Output × World environment :=
  { host with builder := turn.builder }.run turn.input ⟨machine, turn.ledger, turn.memory⟩

def used (past : List (Turn environment)) : Machine :=
  past.foldl (fun machine turn => (host.take turn machine).2.machine) {}

def outputs (host : Host environment) (machine : Machine) : List (Turn environment) → List Output
  | [] => []
  | turn :: later => (host.take turn machine).1 :: host.outputs (host.take turn machine).2.machine later

private theorem run_fresh (input : CallInput) (world : World environment) :
    host.run input world = host.run input { world with machine := {} } := by
  rw [run, run, Machine.begin_fresh]

private theorem visits_fresh (input : CallInput) (world : World environment) :
    host.Visits input world = host.Visits input { world with machine := {} } := by
  funext moment
  rw [Visits, Visits, Machine.begin_fresh]

/-- Transactions that are served one after another have the outputs that each would have on a new host. -/
theorem outputs_fresh (machine : Machine) (turns : List (Turn environment)) :
    host.outputs machine turns = turns.map (fun turn => (host.take turn {}).1) := by
  induction turns generalizing machine with
  | nil => rfl
  | cons turn later ih =>
    have fresh : host.take turn machine = host.take turn {} := run_fresh _ turn.input _
    rw [outputs, List.map_cons, fresh, ih]

/-- A host that has served any transactions serves the next one as a new host would: the output, what is left behind
and every moment on the way are the same. -/
theorem run_forgets_the_past (past : List (Turn environment)) (input : CallInput) (ledger : Ledger)
    (memory : environment.Memory) :
    host.run input ⟨host.used past, ledger, memory⟩ = host.run input ⟨{}, ledger, memory⟩ ∧
      ∀ moment, host.Visits input ⟨host.used past, ledger, memory⟩ moment ↔
        host.Visits input ⟨{}, ledger, memory⟩ moment := by
  refine ⟨host.run_fresh input _, fun moment => ?_⟩
  rw [host.visits_fresh input]

def interrupted : Host Environment.silent :=
  scripted .zero (.request (.setReadOnly true) fun _ => .request (.useGas 5) Program.ofExcept) (.done ())

def interruption : Turn Environment.silent :=
  ⟨interrupted.builder, { gas := 3 }, World.scripted.ledger, ()⟩

example : (interrupted.used [interruption]).readOnly = true ∧ (interrupted.used [interruption]).gasLeft = 0 := by
  decide +kernel

end Host

end ContractHost
