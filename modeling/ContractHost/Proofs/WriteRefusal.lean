import ContractHost.Proofs.StorageWrite

/-! A storage write is refused on the first ground that there is, in a fixed order, and on none but these. A refused
write has recorded nothing: the account in scope may have an empty entry now, and gas that did not suffice is gone. -/

namespace ContractHost

namespace Storage

variable {α β : Type} {rules : Rules} {ledger : Ledger} {before after : Machine}

/-- The ledger has to be asked for the cell, and fails. -/
def unread? (ledger : Ledger) (key : Bytes) (machine : Machine) : Option Failure :=
  match machine.layers.written? machine.storageAddress key, ledger.readStorage machine.storageAddress key with
  | none, .error fault => some (.ledger fault)
  | _, _ => none

/-- There is something to change, and the gas does not cover it. -/
def unpaid? (schedule : GasSchedule) (old value : Bytes) (tracker : GasTracker) : Option Failure :=
  let total := tracker.used.toNat + min (StorageBill.price schedule old.size.toNat value.size.toNat) Gas.most
  if old ≠ value ∧ tracker.limit.toNat < total then some (.outOfGas (Gas.capped total) tracker.limit) else none

def modeGrounds (ledger : Ledger) (readOnly : Bool) (key value : Bytes) (machine : Machine) : List (Option Failure) :=
  [if readOnly then unread? ledger key machine else none,
   if readOnly ∧ machine.layers.content ledger machine.storageAddress key ≠ value then some .writeOnReadOnly else none]

def keyGrounds (rules : Rules) (key : Bytes) (machine : Machine) : List (Option Failure) :=
  [if rules.spaces.isReserved key then some .storeReservedKey else none,
   if machine.isProtected ∧ rules.spaces.isProtected key then some .writeProtectedKey else none]

def changeGrounds (rules : Rules) (ledger : Ledger) (key value : Bytes) (machine : Machine) : List (Option Failure) :=
  [unread? ledger key machine,
   unpaid? rules.schedule (machine.layers.content ledger machine.storageAddress key) value machine.gas.active]

/-- All the grounds on which a write may be refused, those that count first standing first. The ledger is asked once
for the mode and once more for the change. -/
def grounds (rules : Rules) (ledger : Ledger) (readOnly : Bool) (key value : Bytes) (machine : Machine) :
    List (Option Failure) :=
  modeGrounds ledger readOnly key value machine ++ keyGrounds rules key machine ++
    changeGrounds rules ledger.later key value machine

/-- A failure costs nothing, unless it is for want of gas. -/
def gasAfter : Failure → GasTracker → GasTracker
  | .outOfGas _ _, tracker => tracker.exhausted
  | _, tracker => tracker

/-- What a refused write leaves behind. -/
structure Refused (failure : Failure) (before after : Machine) : Prop where
  rest : Local before after
  entry : after.layers.output.account? before.storageAddress = before.layers.output.account? before.storageAddress ∨
    before.layers.output.account? before.storageAddress = none ∧
      after.layers.output.account? before.storageAddress = some { address := before.storageAddress }
  gas : after.gas.active = gasAfter failure before.gas.active

private theorem touched_entry (machine : Machine) :
    machine.touched.layers.output.account? machine.storageAddress =
        machine.layers.output.account? machine.storageAddress ∨
      machine.layers.output.account? machine.storageAddress = none ∧
        machine.touched.layers.output.account? machine.storageAddress = some { address := machine.storageAddress } := by
  have entered : machine.touched.layers.output.account? machine.storageAddress =
      some (machine.layers.output.account machine.storageAddress) :=
    (Layers.account?_modifyAccount machine.layers _ _ id).trans (if_pos rfl)
  rw [entered, Output.account]
  cases machine.layers.output.account? machine.storageAddress with
  | none => exact .inr ⟨rfl, rfl⟩
  | some change => exact .inl rfl

private theorem untouched_local (machine : Machine) : Local machine machine where
  machine := rfl
  limit := rfl
  beneath := rfl
  opened := rfl
  effects := rfl
  others _ _ := rfl
  own := ⟨_, _, _, rfl⟩

/-- Before anything is paid for, a write does no more than look its cell up. -/
theorem Refused.of_looked {failure : Failure} (free : gasAfter failure before.gas.active = before.gas.active)
    (looked : after = before ∨ after = before.touched) : Refused failure before after := by
  rcases looked with rfl | rfl
  · exact ⟨untouched_local _, .inl rfl, free.symm⟩
  · exact ⟨touched_local before, touched_entry before, free.symm⟩

private theorem Refused.of_exhausted {failure : Failure} {machine : Machine}
    (spent : gasAfter failure machine.gas.active = machine.gas.active.exhausted) :
    Refused failure machine (machine.touched.setGas machine.gas.active.exhausted) where
  rest := { touched_local machine with machine := rfl, limit := rfl }
  entry := touched_entry machine
  gas := spent.symm

/-- The action fails with the first of the grounds that there is, by which the write that began at `start` is refused.
Where there is none it returns as asserted. -/
def Weighs (grounds : List (Option Failure)) (start : Machine) (action : Action α) (before : Machine)
    (returns : α → Machine → Prop) : Prop :=
  Ensures action before (fun value after => grounds.findSome? id = none ∧ returns value after)
    (fun failure after => grounds.findSome? id = some failure ∧ Refused failure start after)

private theorem Weighs.bind {first second : List (Option Failure)} {start : Machine} {action : Action α}
    {next : α → Action β}
    {middle : α → Machine → Prop} {returns : β → Machine → Prop} (weighs : Weighs first start action before middle)
    (rest : ∀ value after, middle value after → Weighs second start (next value) after returns) :
    Weighs (first ++ second) start (action >>= next) before returns := by
  simp only [Weighs, List.findSome?_append]
  refine Ensures.bind (Ensures.weaken weighs (fun _ _ => id) ?_) ?_
  · rintro failure after ⟨ground, refused⟩
    exact ⟨by rw [ground, Option.some_or], refused⟩
  · rintro value after ⟨free, reached⟩
    simp only [free, Option.none_or]
    exact rest value after reached

private theorem read_weighs (key : Bytes) (start : Machine) :
    Weighs [unread? ledger key start] start (read ledger key) start (fun seen after =>
      after = start.touched ∧ seen.1 = start.layers.content ledger start.storageAddress key) := by
  have seen : (start.mapLayers (·.touch start.storageAddress)).layers.written? start.storageAddress key =
      start.layers.written? start.storageAddress key := Layers.written?_touch start.layers _ _ key
  have refused (fault : LedgerFault) : Refused (.ledger fault) start start.touched := .of_looked rfl (.inr rfl)
  change Weighs _ start (readAt ledger start.storageAddress key) start _
  simp only [Weighs, Ensures, readAt, seen, unread?, Layers.content, Ledger.readStorage]
  cases start.layers.written? start.storageAddress key with
  | some data => exact ⟨rfl, rfl, rfl⟩
  | none =>
    cases ledger.fault? (.cell start.storageAddress key) with
    | some fault => exact ⟨rfl, refused fault⟩
    | none => exact ⟨rfl, rfl, rfl⟩

private theorem admitReadOnly_weighs (key value : Bytes) (start : Machine) :
    Weighs (modeGrounds ledger true key value start) start (admitReadOnly ledger key value) start
      (fun _ after => after = start.touched) := by
  have parts : modeGrounds ledger true key value start = [unread? ledger key start] ++
      [if start.layers.content ledger start.storageAddress key ≠ value then some .writeOnReadOnly else none] := by
    simp only [modeGrounds, ↓reduceIte, true_and, List.cons_append, List.nil_append]
  rw [parts]
  refine Weighs.bind (read_weighs key start) ?_
  rintro ⟨current, pending⟩ _ ⟨rfl, rfl⟩
  refine Ensures.ite (fun same => ?_) (fun differs => ?_)
  · exact Ensures.pure _ ⟨by simp [same], rfl⟩
  · exact Ensures.throw _ ⟨by simp [differs], .of_looked rfl (.inr rfl)⟩

private theorem admitKey_weighs (key : Bytes) {start : Machine} (looked : before = start ∨ before = start.touched) :
    Weighs (keyGrounds rules key start) start (admitKey rules key) before (fun _ after => after = before) := by
  have closed : start.isProtected = before.isProtected := by rcases looked with rfl | rfl <;> rfl
  simp only [Weighs, Ensures, admitKey, keyGrounds, closed]
  cases rules.spaces.isReserved key with
  | true => exact ⟨rfl, .of_looked rfl looked⟩
  | false =>
    cases before.isProtected with
    | false => exact ⟨rfl, rfl⟩
    | true =>
      cases rules.spaces.isProtected key with
      | true => exact ⟨rfl, .of_looked rfl looked⟩
      | false => exact ⟨rfl, rfl⟩

private theorem settle_weighs (schedule : GasSchedule) (key : Bytes) {old value : Bytes} (changes : old ≠ value)
    (start : Machine) :
    Weighs [unpaid? schedule old value start.gas.active] start
      (settle (StorageBill.of schedule old.size value.size) key value) start.touched (fun _ _ => True) := by
  rw [unpaid?, ← StorageBill.toNat_cost]
  generalize StorageBill.of schedule old.size value.size = bill
  have gas : start.touched.gas = start.gas := rfl
  rcases Nat.lt_or_ge start.gas.active.limit.toNat (start.gas.active.used.toNat + bill.cost.toNat) with
    exceeded | covered
  · have charged : Action.charge bill.cost start.touched = .error
        (.outOfGas (Gas.capped (start.gas.active.used.toNat + bill.cost.toNat)) start.gas.active.limit)
        (start.touched.setGas start.gas.active.exhausted) := by
      simp only [Action.charge, gas, GasTracker.charge_exceeded exceeded]
    rw [if_pos ⟨changes, exceeded⟩, Weighs, Ensures, settle, bind_of_error charged]
    exact ⟨rfl, .of_exhausted rfl⟩
  · have charged : Action.charge bill.cost start.touched =
        .ok () (start.touched.setGas (start.gas.active.spend bill.cost)) := by
      simp only [Action.charge, gas, GasTracker.charge_covered covered]
    rw [if_neg (fun unpaid => Nat.not_lt_of_le covered unpaid.2), Weighs, Ensures, settle, bind_of_ok charged]
    exact ⟨rfl, trivial⟩

private theorem replace_weighs (key value : Bytes) {start : Machine}
    (looked : before = start ∨ before = start.touched) :
    Weighs (changeGrounds rules ledger key value start) start (replace rules ledger key value) before
      (fun _ _ => True) := by
  have replaces : Weighs (changeGrounds rules ledger key value start) start (replace rules ledger key value) start
      (fun _ _ => True) := by
    refine Weighs.bind (read_weighs key start) ?_
    rintro ⟨old, pending⟩ _ ⟨rfl, rfl⟩
    dsimp only
    cases status : StorageStatus.of _ value with
    | unchanged =>
      have same := StorageStatus.of_eq_unchanged.mp status
      exact Ensures.pure _ ⟨by simp [unpaid?, same], trivial⟩
    | _ =>
      have changes := StorageStatus.ne_of_changed status (by decide)
      have settles := settle_weighs rules.schedule key changes start
      exact Ensures.bind settles (fun _ _ paid => Ensures.pure _ paid)
  rcases looked with rfl | rfl
  · exact replaces
  · rw [Weighs, Ensures, replace_touched]
    exact replaces

/-- A write weighs its grounds one check after the other. -/
theorem write_weighs (readOnly : Bool) (key value : Bytes) (start : Machine) :
    Weighs (grounds rules ledger readOnly key value start) start (write rules ledger readOnly key value) start
      (fun _ _ => True) := by
  have admitted (looked : Machine) (same : looked = start ∨ looked = start.touched) :
      Weighs (keyGrounds rules key start ++ changeGrounds rules ledger.later key value start) start
        (admitKey rules key >>= fun _ => replace rules ledger.later key value) looked (fun _ _ => True) := by
    refine Weighs.bind (admitKey_weighs key same) ?_
    rintro _ _ rfl
    exact replace_weighs key value same
  rw [write_eq, grounds, List.append_assoc]
  cases readOnly with
  | false => exact admitted start (.inl rfl)
  | true =>
    refine Weighs.bind (admitReadOnly_weighs key value start) ?_
    rintro _ _ rfl
    exact admitted _ (.inr rfl)

private theorem unpaid?_isSome (schedule : GasSchedule) {old value : Bytes} (tracker : GasTracker)
    (fits : tracker.used.toNat ≤ tracker.limit.toNat) (oldFits : old.length < UInt64.size)
    (newFits : value.length < UInt64.size) :
    (unpaid? schedule old value tracker).isSome = true ↔
      old ≠ value ∧ tracker.gasLeft.toNat < min (StorageBill.price schedule old.length value.length) Gas.most := by
  rw [unpaid?, Bytes.toNat_size oldFits, Bytes.toNat_size newFits, GasTracker.toNat_gasLeft fits]
  split
  next unpaid => exact ⟨fun _ => ⟨unpaid.1, by omega⟩, fun _ => rfl⟩
  next paid => exact ⟨nofun, fun ⟨changes, short⟩ => absurd ⟨changes, by omega⟩ paid⟩

variable (rules ledger before) (readOnly : Bool) (key value : Bytes)

/-- A write fails when there is a ground to refuse it, with the first one that there is. Then it has left no trace but an
empty entry, and want of gas is the one failure that takes gas: that a change costs more than is left. -/
theorem refused_write_changes_nothing :
    (∀ failure, (outcome (write rules ledger readOnly key value) before).1 = .error failure ↔
      (grounds rules ledger readOnly key value before).findSome? id = some failure) ∧
    (∀ failure after, write rules ledger readOnly key value before = .error failure after →
      Refused failure before after) ∧
    (before.gas.active.used ≤ before.gas.active.limit → ∀ old : Bytes, old.length < UInt64.size →
      value.length < UInt64.size →
      ((unpaid? rules.schedule old value before.gas.active).isSome = true ↔
        old ≠ value ∧ before.gasLeft.toNat < min (StorageBill.price rules.schedule old.length value.length) Gas.most)) := by
  have weighed : Ensures (write rules ledger readOnly key value) before _ _ := write_weighs readOnly key value before
  refine ⟨fun failure => ?_, fun failure after failed => (weighed.of_error failed).2,
    fun fits old => unpaid?_isSome rules.schedule before.gas.active fits⟩
  rw [outcome]
  cases ended : write rules ledger readOnly key value before with
  | ok status after =>
    rw [(weighed.of_ok ended).1]
    simp only [reduceCtorEq]
  | error found after =>
    rw [(weighed.of_error ended).1]
    simp only [Except.error.injEq, Option.some.injEq]

theorem lengthening_refused :
    ∃ after, write priced {} false [5] [1, 2, 3, 4, 5] shadowed = .error (.outOfGas 106 10) after ∧
      (grounds priced {} false [5] [1, 2, 3, 4, 5] shadowed).findSome? id = some (.outOfGas 106 10) ∧
      (unpaid? priced.schedule [1, 2, 3] [1, 2, 3, 4, 5] shadowed.gas.active).isSome = true ∧
      Refused (.outOfGas 106 10) shadowed after ∧ after.gas.active = { limit := 10, used := 10 } := by
  obtain ⟨after, failed⟩ : ∃ after,
      write priced {} false [5] [1, 2, 3, 4, 5] shadowed = .error (.outOfGas 106 10) after := ⟨_, rfl⟩
  obtain ⟨fails, keeps, costs⟩ := refused_write_changes_nothing priced {} shadowed false [5] [1, 2, 3, 4, 5]
  have refused := keeps _ after failed
  have ground := (fails (.outOfGas 106 10)).mp (by rw [outcome_eq_error.mpr failed])
  have unpaid := (costs (by decide) [1, 2, 3] (by decide) (by decide)).mpr (by decide)
  exact ⟨after, failed, ground, unpaid, refused, refused.gas⟩

end Storage

end ContractHost
