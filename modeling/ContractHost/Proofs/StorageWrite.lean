import ContractHost.Proofs.OperationProgress

/-! A storage write that returns has changed one cell and what that cell is counted by, and nothing else: the content
that it replaced, in whichever layer or in the ledger that stood, decides its status, its price and what is counted. -/

namespace ContractHost

theorem Bytes.toNat_size {bytes : Bytes} (fits : bytes.length < UInt64.size) : bytes.size.toNat = bytes.length :=
  UInt64.toNat_ofNat_of_lt' fits

namespace StorageBill

/-- What replacing content of one length by content of another costs, in numbers without a limit. -/
def price (schedule : GasSchedule) (old new : Nat) : Nat :=
  if old < new then schedule.storePerByte.toNat * (new - old) + schedule.persistPerByte.toNat * old
  else schedule.persistPerByte.toNat * new

theorem toNat_cost (schedule : GasSchedule) (old new : UInt64) :
    (of schedule old new).cost.toNat = min (price schedule old.toNat new.toNat) Gas.most := by
  simp only [of, price]
  by_cases grows : old < new
  · have longer := UInt64.lt_iff_toNat_lt.mp grows
    rw [if_pos grows, if_pos longer, Gas.toNat_add, Gas.toNat_mul, Gas.toNat_mul,
      UInt64.toNat_sub_of_le _ _ (UInt64.le_of_lt grows)]
    omega
  · have stays := UInt64.lt_iff_toNat_lt.not.mp grows
    rw [if_neg grows, if_neg stays]
    split <;> exact Gas.toNat_mul _ _

theorem toNat_added (schedule : GasSchedule) (old new : UInt64) :
    (of schedule old new).added.toNat = new.toNat - old.toNat := by
  simp only [of]
  split
  next grows =>
    rw [UInt64.toNat_sub_of_le _ _ (UInt64.le_of_lt grows)]
  next stays =>
    rw [UInt64.lt_iff_toNat_lt] at stays
    split <;> (change 0 = _; omega)

theorem toNat_deleted (schedule : GasSchedule) (old new : UInt64) :
    (of schedule old new).deleted.toNat = old.toNat - new.toNat := by
  simp only [of]
  split
  next grows =>
    rw [UInt64.lt_iff_toNat_lt] at grows
    change 0 = _
    omega
  next stays =>
    split
    next shrinks => rw [UInt64.toNat_sub_of_le _ _ (UInt64.le_of_lt shrinks)]
    next same =>
      rw [UInt64.lt_iff_toNat_lt] at same
      change 0 = _
      omega

theorem toNat_freed (schedule : GasSchedule) (old new : UInt64) :
    (of schedule old new).freed.toNat =
      min (schedule.releasePerByte.toNat * (of schedule old new).deleted.toNat) Gas.most := by
  have none : (0 : Nat) = min (schedule.releasePerByte.toNat * (0 : UInt64).toNat) Gas.most := by
    rw [UInt64.toNat_zero, Nat.mul_zero, Nat.zero_min]
  simp only [of]
  split
  next => exact none
  next =>
    split
    next => exact Gas.toNat_mul _ _
    next => exact none

end StorageBill

namespace Layers

theorem account?_modifyAccount (layers : Layers) (address other : Address) (change : AccountChange → AccountChange) :
    (layers.modifyAccount address change).output.account? other =
      if other = address then some (change (layers.output.account address)) else layers.output.account? other :=
  Output.account?_modifyAccount layers.output address other change

private theorem account_modifyAccount (layers : Layers) (address other : Address)
    (change : AccountChange → AccountChange) :
    (layers.modifyAccount address change).output.account other =
      if other = address then change (layers.output.account address) else layers.output.account other := by
  rw [Output.account, account?_modifyAccount]
  split <;> rfl

end Layers

private theorem Gas.min_most {amount : Nat} (fits : amount < UInt64.size) : min amount Gas.most = amount :=
  Nat.min_eq_left (Nat.le_pred_of_lt fits)

namespace Machine

variable (machine : Machine) (bill : StorageBill) (key value : Bytes)

private theorem gasLeft_recorded
    (covered : machine.gas.active.used.toNat + bill.cost.toNat ≤ machine.gas.active.limit.toNat) :
    (machine.recorded bill key value).gasLeft.toNat + bill.cost.toNat = machine.gasLeft.toNat := by
  have used := GasTracker.toNat_spend covered
  have paid : (machine.recorded bill key value).gasLeft = (machine.gas.active.spend bill.cost).gasLeft := by
    change (machine.gas.active.charge bill.cost).2.gasLeft = _
    rw [GasTracker.charge_covered covered]
  have limit : (machine.gas.active.spend bill.cost).limit = machine.gas.active.limit := rfl
  rw [paid, gasLeft, GasTracker.toNat_gasLeft (Nat.le_trans (Nat.le_add_right _ _) covered),
    GasTracker.toNat_gasLeft (used.trans_le covered), used, limit]
  omega

private theorem gasFreed_recorded :
    (machine.recorded bill key value).gasFreed.toNat = min (machine.gasFreed.toNat + bill.freed.toNat) Gas.most := by
  change (Gas.add (machine.gas.active.charge bill.cost).2.freed bill.freed).toNat = _
  rw [Gas.toNat_add, GasTracker.freed_charge]
  rfl

private theorem account_recorded :
    (machine.recorded bill key value).layers.output.account machine.storageAddress =
      (machine.layers.output.account machine.storageAddress).record bill key value :=
  (Layers.account_modifyAccount machine.layers _ _ (·.record bill key value)).trans (if_pos rfl)

end Machine

namespace Storage

variable {rules : Rules} {ledger : Ledger} {before after : Machine}

private theorem readAt_answer (ledger : Ledger) (address : Address) (key : Bytes) (machine : Machine) :
    (outcome (readAt ledger address key) machine).1 =
      match machine.layers.written? address key with
      | some data => .ok (data, true)
      | none =>
        match ledger.readStorage address key with
        | .ok data => .ok (data, false)
        | .error fault => .error (.ledger fault) := by
  have seen : (machine.mapLayers (·.touch address)).layers.written? address key = machine.layers.written? address key :=
    Layers.written?_touch machine.layers address address key
  simp only [outcome, readAt, seen]
  cases machine.layers.written? address key with
  | some data => rfl
  | none => cases ledger.readStorage address key <;> rfl

private theorem readAt_congr (ledger : Ledger) {address : Address} {key : Bytes}
    (same : after.layers.written? address key = before.layers.written? address key) :
    (outcome (readAt ledger address key) after).1 = (outcome (readAt ledger address key) before).1 := by
  rw [readAt_answer, readAt_answer, same]

private theorem readFrom_congr (ledger : Ledger) {address : Address} {key : Bytes}
    (scope : after.storageAddress = before.storageAddress)
    (same : after.layers.written? address key = before.layers.written? address key) :
    (outcome (readFrom ledger address key) after).1 = (outcome (readFrom ledger address key) before).1 := by
  have reading := readAt_congr ledger same
  have getting (machine : Machine) : (MonadState.get : Action Machine) machine = .ok machine machine := rfl
  rw [readFrom, outcome_bind_of_ok (getting after), outcome_bind_of_ok (getting before), scope]
  split
  next => exact reading
  next =>
    split
    next => rfl
    next => exact reading
    next => rfl

/-- A cell that the transaction wrote is read without asking the ledger. -/
theorem read_written {key value : Bytes} {machine : Machine} (entered : machine.touched = machine)
    (written : machine.layers.written? machine.storageAddress key = some value) :
    read ledger key machine = .ok (value, true) machine := by
  change readAt ledger machine.storageAddress key machine = _
  rw [Machine.touched] at entered
  simp only [readAt, entered, written]

/-- A write of what is there already is let through and changes nothing. -/
theorem write_again {readOnly : Bool} {key value : Bytes} {machine : Machine} {pending : Bool}
    (admitted : Admitted rules ledger readOnly key value machine)
    (looked : read ledger.later key machine = .ok (value, pending) machine.touched) :
    write rules ledger readOnly key value machine = .ok .unchanged machine.touched := by
  have unchanged : StorageStatus.of value value = .unchanged := StorageStatus.of_eq_unchanged.mpr rfl
  have replaced : replace rules ledger.later key value machine = .ok .unchanged machine.touched := by
    rw [replace, bind_of_ok looked]
    simp only [unchanged]
    rfl
  have let_through (seen : Machine) (closed : seen.isProtected = machine.isProtected) :
      admitKey rules key seen = .ok () seen := by
    have unlocked := admitted.unlocked
    rw [← closed] at unlocked
    rw [admitKey, if_neg (by rw [admitted.free]; exact Bool.false_ne_true), if_neg ?_]
    intro both
    rw [Bool.and_eq_true] at both
    rw [unlocked both.1] at both
    exact Bool.false_ne_true both.2
  rw [write_eq]
  cases readOnly with
  | false => exact (bind_of_ok (let_through machine rfl)).trans replaced
  | true =>
    have repeats : admitReadOnly ledger key value machine = .ok () machine.touched := by
      obtain ⟨_, repeated⟩ := admitted.repeats rfl
      rw [admitReadOnly, bind_of_ok repeated]
      exact congrFun (if_pos rfl) _
    refine (bind_of_ok repeats).trans ?_
    refine (bind_of_ok (let_through machine.touched rfl)).trans ?_
    rw [replace_touched, replaced]

/-- Only the gas and the output differ, and of the output only what the account in scope has pending and counted. -/
structure Local (before after : Machine) : Prop where
  machine : after = { before with layers := after.layers, gas := ⟨after.gas.active, before.gas.saved⟩ }
  limit : after.gas.active.limit = before.gas.active.limit
  beneath : after.layers.saved = before.layers.saved
  opened : after.layers.active.isolated = before.layers.active.isolated
  effects : { after.layers.output with accounts := before.layers.output.accounts } = before.layers.output
  others (address : Address) : address ≠ before.storageAddress →
    after.layers.output.account? address = before.layers.output.account? address
  own : ∃ updates bytesAdded bytesDeleted, after.layers.output.account before.storageAddress =
    { before.layers.output.account before.storageAddress with updates, bytesAdded, bytesDeleted }

/-- What is paid and counted where content of one length gave way to content of another. -/
structure Metered (schedule : GasSchedule) (old new : Nat) (before after : Machine) : Prop where
  gas : StorageBill.price schedule old new < UInt64.size →
    after.gasLeft.toNat + StorageBill.price schedule old new = before.gasLeft.toNat
  freed : before.gasFreed.toNat + schedule.releasePerByte.toNat * (old - new) < UInt64.size →
    after.gasFreed.toNat = before.gasFreed.toNat + schedule.releasePerByte.toNat * (old - new)
  added : (before.layers.output.account before.storageAddress).bytesAdded.toNat + (new - old) < UInt64.size →
    (after.layers.output.account before.storageAddress).bytesAdded.toNat =
      (before.layers.output.account before.storageAddress).bytesAdded.toNat + (new - old)
  deleted : (before.layers.output.account before.storageAddress).bytesDeleted.toNat + (old - new) < UInt64.size →
    (after.layers.output.account before.storageAddress).bytesDeleted.toNat =
      (before.layers.output.account before.storageAddress).bytesDeleted.toNat + (old - new)

/-- Nothing has changed but that the account in scope may have an entry now. -/
structure Idle (before after : Machine) : Prop where
  gas : after.gas = before.gas
  accounts (address : Address) : after.layers.output.account address = before.layers.output.account address
  pending (address : Address) : after.layers.updates address = before.layers.updates address

/-- What has become of a cell that held `old`, and of everything else. That the cell reads as `value` is for a ledger
that answers as it has answered the write. -/
structure Exact (rules : Rules) (ledger : Ledger) (readOnly : Bool) (key old value : Bytes) (before after : Machine)
    (status : StorageStatus) : Prop where
  unchanged : status = .unchanged ↔ value = old
  deleted : value ≠ old → (status = .deleted ↔ value = [])
  added : value ≠ old → value ≠ [] → (status = .added ↔ old = [])
  modified : value ≠ old → value ≠ [] → (status = .modified ↔ old ≠ [])
  reads : ∃ pending, (outcome (read ledger.later key) after).1 = .ok (value, pending)
  elsewhere (address : Address) (cell : Bytes) : ¬(address = before.storageAddress ∧ cell = key) →
    (outcome (readAt ledger address cell) after).1 = (outcome (readAt ledger address cell) before).1 ∧
      (outcome (readFrom ledger address cell) after).1 = (outcome (readFrom ledger address cell) before).1
  rest : Local before after
  pending : status ≠ .unchanged → ∀ address, after.layers.updates address =
    if address = before.storageAddress then (before.layers.updates address).insert key ⟨key, value⟩
    else before.layers.updates address
  metered : status ≠ .unchanged → old.length < UInt64.size → value.length < UInt64.size →
    Metered rules.schedule old.length value.length before after
  idle : status = .unchanged → Idle before after
  again : write rules ledger readOnly key value after = .ok .unchanged after

theorem touched_local (machine : Machine) : Local machine machine.touched where
  machine := rfl
  limit := rfl
  beneath := rfl
  opened := rfl
  effects := rfl
  others address other := (Layers.account?_modifyAccount machine.layers _ address id).trans (if_neg other)
  own := ⟨_, _, _, (Layers.account_modifyAccount machine.layers _ _ id).trans (if_pos rfl)⟩

private theorem recorded_local (machine : Machine) (bill : StorageBill) (key value : Bytes) :
    Local machine (machine.recorded bill key value) where
  machine := rfl
  limit := GasTracker.limit_charge _ _
  beneath := rfl
  opened := rfl
  effects := rfl
  others address other :=
    (Layers.account?_modifyAccount machine.layers _ address (·.record bill key value)).trans (if_neg other)
  own := ⟨_, _, _, machine.account_recorded bill key value⟩

private theorem touched_idle (machine : Machine) : Idle machine machine.touched where
  gas := rfl
  accounts address := by
    refine (Layers.account_modifyAccount machine.layers machine.storageAddress address id).trans ?_
    split
    next here => rw [here, id]
    next => rfl
  pending address := Layers.updates_touch machine.layers _ address

private theorem recorded_metered (schedule : GasSchedule) (machine : Machine) (key : Bytes) {old value : Bytes}
    (oldFits : old.length < UInt64.size) (newFits : value.length < UInt64.size)
    (covered : machine.gas.active.used.toNat + (StorageBill.of schedule old.size value.size).cost.toNat ≤
      machine.gas.active.limit.toNat) :
    Metered schedule old.length value.length machine
      (machine.recorded (StorageBill.of schedule old.size value.size) key value) := by
  have oldSize := Bytes.toNat_size oldFits
  have newSize := Bytes.toNat_size newFits
  have account := machine.account_recorded (StorageBill.of schedule old.size value.size) key value
  refine ⟨fun fits => ?_, fun fits => ?_, fun fits => ?_, fun fits => ?_⟩
  · have cost := StorageBill.toNat_cost schedule old.size value.size
    rw [oldSize, newSize, Gas.min_most fits] at cost
    rw [← cost]
    exact machine.gasLeft_recorded _ key value covered
  · have freed := StorageBill.toNat_freed schedule old.size value.size
    rw [StorageBill.toNat_deleted, oldSize, newSize,
      Gas.min_most (Nat.lt_of_le_of_lt (Nat.le_add_left _ _) fits)] at freed
    rw [machine.gasFreed_recorded, freed, Gas.min_most fits]
  · have added := StorageBill.toNat_added schedule old.size value.size
    rw [oldSize, newSize] at added
    rw [account]
    change (_ + (StorageBill.of schedule old.size value.size).added).toNat = _
    rw [UInt64.toNat_add, added, Nat.mod_eq_of_lt fits]
  · have deleted := StorageBill.toNat_deleted schedule old.size value.size
    rw [oldSize, newSize] at deleted
    rw [account]
    change (_ + (StorageBill.of schedule old.size value.size).deleted).toNat = _
    rw [UInt64.toNat_add, deleted, Nat.mod_eq_of_lt fits]

private theorem status_cases (old value : Bytes) :
    (StorageStatus.of old value = .unchanged ↔ value = old) ∧
      (value ≠ old → (StorageStatus.of old value = .deleted ↔ value = [])) ∧
      (value ≠ old → value ≠ [] → (StorageStatus.of old value = .added ↔ old = [])) ∧
      (value ≠ old → value ≠ [] → (StorageStatus.of old value = .modified ↔ old ≠ [])) := by
  simp only [StorageStatus.of]
  grind

private theorem read_recorded (ledger : Ledger) (machine : Machine) (bill : StorageBill) (key value : Bytes) :
    read ledger key (machine.recorded bill key value) = .ok (value, true) (machine.recorded bill key value) :=
  read_written (machine.touched_recorded bill key value)
    ((Layers.written?_record machine.layers _ _ _ key key value).trans (if_pos ⟨rfl, rfl⟩))

/-- However it went, the cell now reads as the value, and the account in scope has its entry. -/
theorem Wrote.reads_back {key value : Bytes} {status : StorageStatus}
    (wrote : Wrote rules ledger key value before status after) :
    after.touched = after ∧ ∃ pending, read ledger key after = .ok (value, pending) after := by
  cases wrote with
  | @same pending looked =>
    refine ⟨before.touched_touched, pending, ?_⟩
    rw [read_touched]
    exact looked
  | paid => exact ⟨before.touched_recorded _ key value, true, read_recorded ledger before _ key value⟩

private theorem Wrote.elsewhere {key value : Bytes} {status : StorageStatus}
    (wrote : Wrote rules ledger key value before status after) {address : Address} {cell : Bytes}
    (other : ¬(address = before.storageAddress ∧ cell = key)) :
    after.layers.written? address cell = before.layers.written? address cell := by
  cases wrote with
  | same =>
    exact Layers.written?_touch before.layers _ address cell
  | paid => exact (Layers.written?_record before.layers _ address _ key cell value).trans (if_neg other)

theorem Wrote.local {key value : Bytes} {status : StorageStatus}
    (wrote : Wrote rules ledger key value before status after) : Local before after := by
  cases wrote with
  | same => exact touched_local before
  | paid => exact recorded_local before _ key value

private theorem Admitted.still {readOnly : Bool} {key value : Bytes} {status : StorageStatus}
    (admitted : Admitted rules ledger readOnly key value before)
    (wrote : Wrote rules ledger.later key value before status after) :
    Admitted rules ledger readOnly key value after := by
  have scope : after.scopes = before.scopes := by rw [wrote.local.machine]
  refine ⟨fun on => ?_, admitted.free, ?_⟩
  · cases wrote with
    | same =>
      obtain ⟨pending, repeated⟩ := admitted.repeats on
      rw [read_touched, before.touched_touched]
      exact ⟨pending, repeated⟩
    | paid =>
      rw [before.touched_recorded]
      exact ⟨true, read_recorded ledger before _ key value⟩
  · rw [Machine.isProtected, scope]
    exact admitted.unlocked

/-- A write that returns has changed its cell, what the account has pending and counted, and the gas, each by exactly
what the change comes to; one that repeats what is there has changed none of them. -/
theorem write_changes_one_cell {readOnly : Bool} {key value : Bytes} {status : StorageStatus}
    (returned : write rules ledger readOnly key value before = .ok status after) :
    ∃ old pending, (outcome (read ledger.later key) before).1 = .ok (old, pending) ∧
      Exact rules ledger readOnly key old value before after status := by
  obtain ⟨admitted, wrote⟩ := (write_wrote readOnly key value before).of_ok returned
  obtain ⟨entered, pending, reads⟩ := wrote.reads_back
  have scope : after.storageAddress = before.storageAddress := by rw [wrote.local.machine]; rfl
  have again := write_again (admitted.still wrote) (reads.trans (congrArg _ entered.symm))
  rw [entered] at again
  have elsewhere (address : Address) (cell : Bytes) (other : ¬(address = before.storageAddress ∧ cell = key)) :=
    And.intro (readAt_congr ledger (wrote.elsewhere other))
      (readFrom_congr ledger scope (wrote.elsewhere other))
  have readable : (outcome (read ledger.later key) after).1 = .ok (value, pending) := by rw [outcome_eq_ok.mpr reads]
  have rest := wrote.local
  cases wrote with
  | @same pending looked =>
    refine ⟨value, pending, by rw [outcome_eq_ok.mpr looked], ?_⟩
    exact {
      unchanged := ⟨fun _ => rfl, fun _ => rfl⟩
      deleted := fun differs => absurd rfl differs
      added := fun differs => absurd rfl differs
      modified := fun differs => absurd rfl differs
      reads := ⟨_, readable⟩
      elsewhere := elsewhere
      rest := rest
      pending := fun changed => absurd rfl changed
      metered := fun changed => absurd rfl changed
      idle := fun _ => touched_idle before
      again := again }
  | @paid old pending looked changes covered =>
    obtain ⟨unchanged, deleted, added, modified⟩ := status_cases old value
    refine ⟨old, pending, by rw [outcome_eq_ok.mpr looked], ?_⟩
    exact {
      unchanged := unchanged
      deleted := deleted
      added := added
      modified := modified
      reads := ⟨_, readable⟩
      elsewhere := elsewhere
      rest := rest
      pending := fun _ address => by
        refine (Layers.updates_record before.layers _ address _ key value).trans ?_
        split
        next here => rw [here]
        next => rfl
      metered := fun _ oldFits newFits => recorded_metered rules.schedule before key oldFits newFits covered
      idle := fun same => absurd (unchanged.mp same).symm changes
      again := again }

/-- The cell was written beneath, out of sight of the active layer. -/
def shadowed : Machine :=
  { layers := (Layers.start.modifyAccount .zero (·.write [5] [1, 2, 3])).continued.isolate
    gas := ⟨{ limit := 10 }, []⟩ }

def priced : Rules where
  config := { schedule := { persistPerByte := 2, releasePerByte := 3 } }
  spaces := ⟨[6], [7], List.cons_ne_nil _ _, List.cons_ne_nil _ _⟩

theorem shortening_changes_one_cell :
    ∃ after, write priced {} false [5] [9] shadowed = .ok .modified after ∧
      Exact priced {} false [5] [1, 2, 3] [9] shadowed after .modified ∧
      after.gasLeft.toNat + 2 = shadowed.gasLeft.toNat ∧ after.gasFreed.toNat = 6 := by
  obtain ⟨after, returned⟩ : ∃ after, write priced {} false [5] [9] shadowed = .ok .modified after := ⟨_, rfl⟩
  obtain ⟨old, pending, looked, exactly⟩ := write_changes_one_cell returned
  have found : (outcome (read (Ledger.later {}) [5]) shadowed).1 = .ok ([1, 2, 3], true) := by decide +kernel
  obtain ⟨rfl, rfl⟩ : [1, 2, 3] = old ∧ true = pending := by simpa using found.symm.trans looked
  have metered := exactly.metered (by decide) (by decide) (by decide)
  exact ⟨after, returned, exactly, metered.gas (by decide), metered.freed (by decide)⟩

end Storage

end ContractHost
