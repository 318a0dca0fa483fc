import ContractHost.Layers
import ContractHost.Proofs.OutputMerge

/-! One output taken by itself as the account of a whole transaction: what it answers, what can be done to it,
and what it answers after a merge. -/

namespace ContractHost.Output

def updates (output : Output) (address : Address) : StorageUpdates :=
  ((output.account? address).map (·.updates)).getD .empty

/-- The ledger balance of an account, if it has been noted. -/
def knownBalance (output : Output) (address : Address) : Option Int := (output.account? address).bind (·.balance)

def balanceDelta (output : Output) (address : Address) : Int :=
  ((output.account? address).map (·.balanceDelta)).getD 0

def noteBalance (output : Output) (address : Address) (balance : Int) : Output :=
  output.modifyAccount address (fun change => { change with balance := some balance })

def credit (output : Output) (address : Address) (amount : Int) : Output :=
  output.modifyAccount address (fun change => { change with balanceDelta := change.balanceDelta + amount })

def available (output : Output) (address : Address) : Int :=
  (output.knownBalance address).getD 0 + output.balanceDelta address

def transfer (output : Output) (sender receiver : Address) (value : Nat) : Except Failure Output :=
  let available := output.available sender
  if available < value then .error (.insufficientFunds (toString available) (toString value))
  else .ok ((output.credit sender (-(value : Int))).credit receiver value)

def finish (output : Output) (data : Bytes) : Output := { output with data := output.data ++ [data] }

def log (output : Output) (entry : LogEntry) : Output := { output with logs := output.logs ++ [entry] }

theorem updates_merge (earlier later : Output) (address : Address) :
    (earlier.merge later).updates address =
      (earlier.updates address).union (fun _ later => later) (later.updates address) := by
  simp only [updates, account?_merge]
  cases earlier.account? address with
  | none =>
    cases later.account? address with
    | none => rfl
    | some after => exact (SortedMap.empty_union _ _).symm
  | some before => cases later.account? address <;> rfl

theorem knownBalance_merge (earlier later : Output) (address : Address) :
    (earlier.merge later).knownBalance address =
      (later.knownBalance address).or (earlier.knownBalance address) := by
  simp only [knownBalance, account?_merge]
  cases earlier.account? address with
  | none => cases later.account? address <;> simp [Option.merge]
  | some before => cases later.account? address <;> simp [Option.merge, AccountChange.merge]

theorem balanceDelta_merge (earlier later : Output) (address : Address) :
    (earlier.merge later).balanceDelta address =
      later.balanceDelta address + earlier.balanceDelta address := by
  simp only [balanceDelta, account?_merge]
  cases earlier.account? address with
  | none => cases later.account? address <;> simp [Option.merge]
  | some before =>
    cases later.account? address <;> simp [Option.merge, AccountChange.merge, Int.add_comm]

private theorem account_modifyAccount (output : Output) (address : Address) (change : AccountChange → AccountChange) :
    (output.modifyAccount address change).account? address = some (change (output.account address)) := by
  rw [account?_modifyAccount, if_pos rfl]

theorem knownBalance_noteBalance (output : Output) (address : Address) (balance : Int) :
    (output.noteBalance address balance).knownBalance address = some balance := by
  rw [knownBalance, noteBalance, account_modifyAccount]
  rfl

theorem updates_account (output : Output) (address : Address) :
    (output.account address).updates = output.updates address := by
  simp only [account, updates]
  cases output.account? address <;> rfl

theorem updates_modifyAccount (output : Output) (address other : Address) (change : AccountChange → AccountChange) :
    (output.modifyAccount address change).updates other =
      if other = address then (change (output.account address)).updates else output.updates other := by
  simp only [updates, account?_modifyAccount]
  split <;> rfl

theorem written?_updates (output : Output) (address : Address) (key : Bytes) :
    output.written? address key = ((output.updates address).find? key).map (·.data) := by
  simp only [written?, updates]
  cases output.account? address <;> rfl

theorem updates_unchanged (output : Output) (address other : Address) {change : AccountChange → AccountChange}
    (same : ∀ account, (change account).updates = account.updates) :
    (output.modifyAccount address change).updates other = output.updates other := by
  rw [updates_modifyAccount, same, updates_account]
  split
  next equal => rw [equal]
  next => rfl

/-- A change of an output that comes to the same whether it is made before or after the earlier part is merged
in. -/
def Trailing (change : Output → Output) : Prop :=
  ∀ earlier later : Output, earlier.merge (change later) = change (earlier.merge later)

theorem trailing_modifyAccount (address : Address) {change : AccountChange → AccountChange}
    (trailing : AccountChange.Trailing change) : Trailing (·.modifyAccount address change) :=
  fun earlier later => merge_modifyAccount trailing earlier later address

theorem trailing_credit (address : Address) (amount : Int) : Trailing (·.credit address amount) :=
  trailing_modifyAccount address (AccountChange.trailing_credit amount)

theorem trailing_finish (data : Bytes) : Trailing (·.finish data) :=
  fun earlier later => by simp only [merge, finish, List.append_assoc]

theorem trailing_log (entry : LogEntry) : Trailing (·.log entry) :=
  fun earlier later => by simp only [merge, log, List.append_assoc]

end ContractHost.Output
