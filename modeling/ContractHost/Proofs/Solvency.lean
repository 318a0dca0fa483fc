import ContractHost.Proofs.FailedCall
import ContractHost.Proofs.Moments

/-! Conservation of funds. While the ledger stays as it is, what a run moves adds up to nothing at every moment, and
no account has spent more than the ledger holds for it. The output of a transaction therefore settles exactly: no
balance is cut off at zero, and the supply stays the same. -/

namespace ContractHost

namespace Output

def moved (output : Output) : Int := output.accounts.total (fun _ change => change.balanceDelta)

/-- Balances are known as the ledger has them, nothing has been made or lost, and no account is overdrawn. -/
structure Solvent (ledger : Ledger) (shown : Output) : Prop where
  known (address : Address) (balance : Int) : shown.knownBalance address = some balance → balance = ledger.balance address
  balanced : shown.moved = 0
  covered (address : Address) : 0 ≤ (ledger.balance address : Int) + shown.balanceDelta address

/-- Nothing about funds tells the two outputs apart. -/
structure SameFunds (before after : Output) : Prop where
  known (address : Address) : after.knownBalance address = before.knownBalance address
  moved : after.moved = before.moved
  delta (address : Address) : after.balanceDelta address = before.balanceDelta address

private theorem moved_modifyAccount (output : Output) (address : Address) (change : AccountChange → AccountChange) :
    (output.modifyAccount address change).moved =
      output.moved + (change (output.account address)).balanceDelta - output.balanceDelta address := by
  simp only [moved, modifyAccount, balanceDelta, account?]
  rw [SortedMap.total_insert]

theorem balanceDelta_account (output : Output) (address : Address) :
    (output.account address).balanceDelta = output.balanceDelta address := by
  simp only [account, balanceDelta]
  cases output.account? address <;> rfl

private theorem knownBalance_account (output : Output) (address : Address) :
    (output.account address).balance = output.knownBalance address := by
  simp only [account, knownBalance]
  cases output.account? address <;> rfl

theorem balanceDelta_modifyAccount (output : Output) (address other : Address)
    (change : AccountChange → AccountChange) :
    (output.modifyAccount address change).balanceDelta other =
      if other = address then (change (output.account address)).balanceDelta else output.balanceDelta other := by
  simp only [balanceDelta, account?_modifyAccount]
  split <;> rfl

private theorem knownBalance_modifyAccount (output : Output) (address other : Address)
    (change : AccountChange → AccountChange) :
    (output.modifyAccount address change).knownBalance other =
      if other = address then (change (output.account address)).balance else output.knownBalance other := by
  simp only [knownBalance, account?_modifyAccount]
  split <;> rfl

private theorem SameFunds.modifyAccount (output : Output) (address : Address) {change : AccountChange → AccountChange}
    (known : ∀ account, (change account).balance = account.balance)
    (delta : ∀ account, (change account).balanceDelta = account.balanceDelta) :
    output.SameFunds (output.modifyAccount address change) where
  known other := by
    rw [knownBalance_modifyAccount, known, knownBalance_account]
    split
    next same => rw [same]
    next => rfl
  moved := by
    rw [moved_modifyAccount, delta, balanceDelta_account]
    omega
  delta other := by
    rw [balanceDelta_modifyAccount, delta, balanceDelta_account]
    split
    next same => rw [same]
    next => rfl

namespace Solvent

variable {ledger : Ledger} {shown after : Output}

private theorem start (ledger : Ledger) : Solvent ledger {} where
  known _ _ absent := nomatch absent
  balanced := rfl
  covered address := by
    change (0 : Int) ≤ ledger.balance address + 0
    omega

private theorem of_sameFunds (solvent : shown.Solvent ledger) (same : shown.SameFunds after) :
    after.Solvent ledger where
  known address balance held := solvent.known address balance ((same.known address).symm.trans held)
  balanced := same.moved.trans solvent.balanced
  covered address := by
    rw [same.delta]
    exact solvent.covered address

private theorem of_accounts (solvent : shown.Solvent ledger) (same : after.accounts = shown.accounts) :
    after.Solvent ledger :=
  solvent.of_sameFunds
    { known := fun address => by simp only [knownBalance, account?, same]
      moved := by simp only [moved, same]
      delta := fun address => by simp only [balanceDelta, account?, same] }

private theorem note (solvent : shown.Solvent ledger) (address : Address) :
    (shown.noteBalance address (ledger.balance address)).Solvent ledger where
  known other balance held := by
    rw [noteBalance, knownBalance_modifyAccount] at held
    split at held
    next same =>
      rw [same]
      exact (Option.some.inj held).symm
    next => exact solvent.known other balance held
  balanced := by
    rw [noteBalance, moved_modifyAccount, balanceDelta_account, solvent.balanced]
    omega
  covered other := by
    rw [noteBalance, balanceDelta_modifyAccount, balanceDelta_account]
    have covered := solvent.covered other
    split
    next same =>
      subst same
      exact covered
    next => exact covered

end Solvent

private theorem moved_credit (output : Output) (address : Address) (amount : Int) :
    (output.credit address amount).moved = output.moved + amount := by
  rw [credit, moved_modifyAccount]
  dsimp only
  rw [balanceDelta_account]
  omega

theorem balanceDelta_credit (output : Output) (address other : Address) (amount : Int) :
    (output.credit address amount).balanceDelta other =
      output.balanceDelta other + if other = address then amount else 0 := by
  rw [credit, balanceDelta_modifyAccount, balanceDelta_account]
  split
  next same => rw [same]
  next => omega

private theorem knownBalance_credit (output : Output) (address other : Address) (amount : Int) :
    (output.credit address amount).knownBalance other = output.knownBalance other := by
  rw [credit, knownBalance_modifyAccount, knownBalance_account]
  split
  next same => rw [same]
  next => rfl

/-- Funds that the sender has can be moved, also to the sender itself. -/
theorem Solvent.transfer {ledger : Ledger} {shown after : Output} (solvent : shown.Solvent ledger)
    {sender receiver : Address} {value : Nat} (known : (shown.knownBalance sender).isSome)
    (moved : shown.transfer sender receiver value = .ok after) : after.Solvent ledger := by
  obtain ⟨balance, known⟩ := Option.isSome_iff_exists.mp known
  simp only [Output.transfer, available, known, Option.getD_some, solvent.known sender balance known] at moved
  split at moved
  next => cases moved
  next afforded =>
    cases moved
    refine ⟨?_, ?_, ?_⟩
    · intro other balance held
      rw [knownBalance_credit, knownBalance_credit] at held
      exact solvent.known other balance held
    · rw [moved_credit, moved_credit, solvent.balanced]
      omega
    · intro other
      have covered := solvent.covered other
      rw [balanceDelta_credit, balanceDelta_credit]
      by_cases spends : other = sender
      · subst spends
        rw [if_pos rfl]
        split <;> omega
      · rw [if_neg spends]
        split <;> omega

/-- Every effect that a run may have keeps the funds in order. -/
theorem Solvent.perform {ledger : Ledger} {shown : Output} (solvent : shown.Solvent ledger) {effect : Effect}
    (right : effect.Quiet ledger shown) : (shown.perform effect).Solvent ledger := by
  cases effect with
  | touch address => exact solvent.of_sameFunds (.modifyAccount shown address (fun _ => rfl) (fun _ => rfl))
  | note address balance =>
    cases right
    exact solvent.note address
  | transfer sender receiver value =>
    simp only [Output.perform]
    cases attempt : shown.transfer sender receiver value with
    | error failure => exact solvent
    | ok after => exact solvent.transfer right attempt
  | finish data => exact solvent.of_sameFunds ⟨fun _ => rfl, rfl, fun _ => rfl⟩
  | log entry => exact solvent.of_sameFunds ⟨fun _ => rfl, rfl, fun _ => rfl⟩
  | write address key data => exact right.elim
  | count address added deleted => exact right.elim

end Output

private theorem Ledger.balance_congr {first second : Ledger} (same : second.accounts = first.accounts)
    (address : Address) :
    second.balance address = first.balance address := by
  simp only [balance, account?, same]

namespace Layers

variable {schedule : GasSchedule} {ledger : Ledger} {scope : Address → Prop} {before after : Layers}

private theorem Advances.solvent (advances : Advances schedule ledger scope before after)
    (solvent : before.flatten.Solvent ledger) : after.flatten.Solvent ledger := by
  induction advances with
  | stay => exact solvent
  | quiet earlier effect right ih =>
    rw [flatten_perform]
    exact (ih solvent).perform right
  | record earlier outside inside widens key value ih =>
    rw [flatten_modifyAccount (AccountChange.trailing_record _ key value)]
    exact (ih solvent).of_sameFunds (.modifyAccount _ _ (fun _ => rfl) (fun _ => rfl))

private theorem solvent_invariant (schedule : GasSchedule) :
    RunInvariant schedule (fun _ _ => True) (fun ledger layers => layers.flatten.Solvent ledger) where
  accounts same solvent := by
    refine ⟨fun address balance held => ?_, solvent.balanced, fun address => ?_⟩
    · rw [Ledger.balance_congr same]
      exact solvent.known address balance held
    · rw [Ledger.balance_congr same]
      exact solvent.covered address
  quiet advances solvent := advances.solvent solvent
  advance advances _ solvent := advances.solvent solvent
  enter context solvent := by
    rw [flatten_entering]
    exact solvent
  leave framed _ solvent := by
    rw [framed.flatten_leaving]
    exact solvent

/-- The sum of the balance deltas over the visible layers and all accounts. -/
def moved (layers : Layers) : Int := (layers.visible.map Output.moved).sum

private theorem moved_eq (layers : Layers) : layers.moved = layers.flatten.moved := by
  have folded : ∀ outputs : List Output, (outputs.map Output.moved).sum = (fold outputs).moved := by
    intro outputs
    induction outputs with
    | nil => rfl
    | cons output outputs ih =>
      rw [List.map_cons, List.sum_cons, ih, fold_cons]
      have additive (_ : Address) (first second : AccountChange) :
          (first.merge second).balanceDelta = first.balanceDelta + second.balanceDelta := rfl
      have added := SortedMap.total_union (fun _ change => change.balanceDelta) additive
        (fold outputs).accounts output.accounts
      simp only [Output.moved, Output.merge] at added ⊢
      omega
  exact folded layers.visible

/-- At the bottom what shows is the layer itself. -/
theorem accounts_of_bottom {layers : Layers} (bottom : Layers.start.Framed layers) :
    layers.flatten.accounts = layers.output.accounts := by
  obtain ⟨active, saved⟩ := layers
  obtain ⟨rfl, -⟩ := bottom
  exact SortedMap.empty_union _ _

end Layers

namespace LedgerAccount

/-- Settling a change reaches the nonce, the balance and the storage, and the first two at once. -/
theorem apply_rest (account : LedgerAccount) (change : AccountChange) :
    account.apply change =
      { account with
        nonce := max account.nonce change.nonce
        balance := ((account.balance : Int) + change.balanceDelta).toNat
        storage := (account.apply change).storage } := by
  have stored (updates : List StorageUpdate) (account : LedgerAccount) :
      let after := updates.foldl (fun account update => account.store update.offset update.data) account
      after = { account with storage := after.storage } := by
    induction updates generalizing account with
    | nil => rfl
    | cons update updates ih => exact ih _
  exact stored _ _

theorem balance_apply (account : LedgerAccount) (change : AccountChange) :
    (account.apply change).balance = ((account.balance : Int) + change.balanceDelta).toNat := by
  rw [apply_rest]

end LedgerAccount

namespace Ledger

def supply (ledger : Ledger) : Int := ledger.accounts.total (fun _ account => (account.balance : Int))

private theorem accounts_apply (ledger : Ledger) {output : Output} (ok : output.code.isOk) :
    (ledger.apply output).accounts =
      ledger.accounts.absorb (fun held change => (held.getD {}).apply change) output.accounts.entries := by
  rw [apply, if_pos ok]
  generalize output.accounts.entries = entries
  induction entries generalizing ledger with
  | nil => rfl
  | cons entry entries ih => exact ih _

theorem account?_apply (ledger : Ledger) {output : Output} (ok : output.code.isOk) (address : Address) :
    (ledger.apply output).account? address =
      ((output.account? address).map (((ledger.account? address).getD {}).apply)).or (ledger.account? address) := by
  have found := SortedMap.find?_absorb (fun held change => (held.getD {}).apply change) ledger.accounts
    output.accounts.ascending address
  rw [← accounts_apply ledger ok] at found
  exact found

theorem apply_failed (ledger : Ledger) (failure : Failure) : ledger.apply (.failed failure) = ledger := by
  have notOk : ¬(Output.failed failure).code.isOk := by
    rw [ReturnCode.isOk, beq_iff_eq]
    exact failure.returnCode_ne_ok
  rw [apply, if_neg notOk]

variable {ledger : Ledger} {output : Output}

/-- What an account that is not overdrawn has after its change is settled. -/
theorem balance_settled (solvent : output.Solvent ledger) {address : Address} {change : AccountChange}
    (changed : output.account? address = some change) :
    ((((ledger.accounts.find? address).getD {}).apply change).balance : Int) =
      ledger.balance address + change.balanceDelta := by
  have covered := solvent.covered address
  have delta : output.balanceDelta address = change.balanceDelta := by
    rw [Output.balanceDelta, changed]
    rfl
  have held : ((ledger.accounts.find? address).getD {}).balance = ledger.balance address := by
    rw [balance, account?]
    cases ledger.accounts.find? address <;> rfl
  rw [LedgerAccount.balance_apply, held]
  omega

private theorem balance_apply (ok : output.code.isOk) (solvent : output.Solvent ledger) (address : Address) :
    ((ledger.apply output).balance address : Int) = ledger.balance address + output.balanceDelta address := by
  rw [balance, account?_apply ledger ok, Output.balanceDelta]
  cases changed : output.account? address with
  | none => exact (Int.add_zero _).symm
  | some change => exact balance_settled solvent changed

private theorem supply_apply (ok : output.code.isOk) (solvent : output.Solvent ledger) :
    (ledger.apply output).supply = ledger.supply := by
  have summed := SortedMap.total_absorb (fun _ account => (LedgerAccount.balance account : Int))
    (fun held change => (held.getD {}).apply change) ledger.accounts output.accounts.ascending
    (fun _ change => change.balanceDelta) (by
      intro address held change found member
      subst found
      have settled := balance_settled solvent (SortedMap.mem_entries_iff.mp member)
      rw [settled, balance, account?]
      cases ledger.accounts.find? address <;> rfl)
  rw [← accounts_apply ledger ok] at summed
  have balanced : (output.accounts.entries.map (fun entry => entry.2.balanceDelta)).sum = 0 := solvent.balanced
  rw [balanced, Int.add_zero] at summed
  exact summed

end Ledger

namespace Host

variable {environment : Environment}

/-- On a ledger that stays as it is, funds are neither made nor lost at any moment of a transaction, no account is
overdrawn, and applying the output moves every balance by exactly its delta and keeps the supply. -/
theorem run_conserves_funds (host : Host environment) (input : CallInput) (world : World environment)
    (steady : ∀ moment, host.Visits input world moment → moment.ledger.accounts = world.ledger.accounts) :
    (∀ moment, host.Visits input world moment → moment.layers.moved = 0 ∧
      ∀ address, 0 ≤ (world.ledger.balance address : Int) + moment.layers.balanceDelta address) ∧
    let (output, after) := host.run input world
    (∀ address, ((after.ledger.apply output).balance address : Int) =
      after.ledger.balance address + output.balanceDelta address) ∧
    (after.ledger.apply output).supply = after.ledger.supply := by
  have solvent {moment : Moment environment} (visited : host.Visits input world moment) :
      moment.layers.flatten.Solvent world.ledger :=
    (Layers.solvent_invariant host.rules.schedule).visits steady (fun _ _ _ _ => trivial) (.start world.ledger) visited
  refine ⟨fun moment visited => ⟨?_, fun address => ?_⟩, ?_⟩
  · rw [Layers.moved_eq]
    exact (solvent visited).balanced
  · rw [Layers.balanceDelta_eq]
    exact (solvent visited).covered address
  · rcases host.run_cases input world with
      ⟨failure, failed⟩ | ⟨moment, visited, bottom, ledger, remaining, refund, result⟩
    · dsimp only
      rw [failed, Ledger.apply_failed]
      exact ⟨fun _ => (Int.add_zero _).symm, rfl⟩
    · have settled : (moment.layers.result remaining refund).Solvent (host.run input world).2.ledger := by
        rw [ledger]
        refine (Layers.solvent_invariant host.rules.schedule).accounts (steady moment visited) (solvent visited)
          |>.of_accounts (Layers.accounts_of_bottom bottom).symm
      dsimp only
      rw [result]
      exact ⟨Ledger.balance_apply rfl settled, Ledger.supply_apply rfl settled⟩

/-- An account with five units, and a contract that it can pay. -/
def funded : World Environment.silent := { deployed with ledger := deployed.ledger.addAccount (.ofLabel "payer") 5 }

/-- A transaction that pays three of five units. -/
def payment : CallInput := { caller := .ofLabel "payer", value := 3, gas := 10 }

theorem payment_conserves_funds :
    (writing.run payment funded).1.balanceDelta (.ofLabel "payer") = -3 ∧
      ((writing.run payment funded).2.ledger.apply (writing.run payment funded).1).supply =
        (writing.run payment funded).2.ledger.supply :=
  have paid : (writing.run payment funded).1.balanceDelta (.ofLabel "payer") = -3 := by decide +kernel
  ⟨paid, (run_conserves_funds writing payment funded
    (fun _ visited => congrArg Ledger.accounts (writing.visits_ledger visited))).2.2⟩

end Host

end ContractHost
