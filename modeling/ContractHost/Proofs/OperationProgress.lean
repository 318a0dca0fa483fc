import ContractHost.Host
import ContractHost.Proofs.MachineWork
import ContractHost.Proofs.Outcome

/-! Every operation but a call is work within a footprint, whether it succeeds or fails, and one that fails has
written nothing. A token transfer that fails half way goes back to where it was. -/

namespace ContractHost

def Machine.Advances (rules : Rules) (ledger : Ledger) (scope : Address → Prop) (before after : Machine) : Prop :=
  Layers.Advances rules.schedule ledger scope before.layers after.layers

open Layers (nowhere only)

namespace Machine

/-- The cell that a write changes, where the policy lets it through. -/
def admitted (rules : Rules) (machine : Machine) (readOnly : Bool) (key value : Bytes) : Footprint :=
  fun address held content =>
    Footprint.cell machine.storageAddress key value address held content ∧ readOnly = false ∧
      rules.spaces.isReserved key = false ∧ (machine.isProtected = true → rules.spaces.isProtected key = false)

/-- Nothing has changed but the gas in use, of which none was freed. -/
structure Spent (before after : Machine) : Prop where
  rest : after = before.setGas after.gas.active
  gas : before.gas.active.Runs after.gas.active
  freed : after.gasFreed = before.gasFreed

namespace Spent

variable {before middle after : Machine}

theorem refl (machine : Machine) : machine.Spent machine := ⟨rfl, .refl _, rfl⟩

theorem trans (first : before.Spent middle) (second : middle.Spent after) : before.Spent after where
  rest := by
    rw [second.rest, first.rest]
    rfl
  gas := first.gas.trans second.gas
  freed := second.freed.trans first.freed

theorem charge (machine : Machine) (amount : UInt64) :
    machine.Spent (machine.setGas (machine.gas.active.charge amount).2) :=
  ⟨rfl, GasTracker.runs_charge _ _, GasTracker.freed_charge _ _⟩

theorem layers (spent : before.Spent after) : after.layers = before.layers := by
  rw [spent.rest]
  rfl

theorem kept (spent : before.Spent after) : before.Kept after := by
  rw [spent.rest]
  exact .setGas spent.gas

end Spent

/-- Nothing has changed but the output, to which nothing was written, and the gas in use, of which none was freed. -/
structure Staged (rules : Rules) (ledger : Ledger) (before after : Machine) : Prop where
  rest : after = { before with layers := after.layers, gas := ⟨after.gas.active, before.gas.saved⟩ }
  layers : before.Advances rules ledger nowhere after
  gas : before.gas.active.Runs after.gas.active
  freed : after.gasFreed = before.gasFreed

namespace Staged

variable {rules : Rules} {ledger : Ledger} {before middle after : Machine}

theorem refl (machine : Machine) : Staged rules ledger machine machine := ⟨rfl, .stay, .refl _, rfl⟩

theorem of_spent (spent : before.Spent after) : Staged rules ledger before after where
  rest := by
    rw [spent.rest]
    rfl
  layers := by
    rw [Machine.Advances, spent.layers]
    exact .stay
  gas := spent.gas
  freed := spent.freed

theorem trans (first : Staged rules ledger before middle) (second : Staged rules ledger middle after) :
    Staged rules ledger before after where
  rest := by
    rw [second.rest, first.rest]
  layers := Layers.Advances.then_quietly first.layers second.layers
  gas := first.gas.trans second.gas
  freed := second.freed.trans first.freed

private theorem quiet (machine : Machine) {effect : Effect} (right : effect.Quiet ledger machine.layers.flatten) :
    Staged rules ledger machine (machine.mapLayers (·.perform effect)) :=
  ⟨rfl, Layers.Advances.stay.quiet effect right, .refl _, rfl⟩

theorem kept (staged : Staged rules ledger before after) : before.Kept after := by
  have rest := staged.rest
  have framed : before.layers.Framed after.layers := Layers.Advances.frame staged.layers
  have runs := staged.gas
  generalize after.layers = layers at rest framed
  generalize after.gas.active = tracker at rest runs
  subst rest
  exact ⟨rfl, id, rfl, framed, runs, rfl, rfl, rfl, rfl⟩

end Staged

end Machine

variable {α : Type} {rules : Rules} {ledger : Ledger}

namespace Action

theorem charge_leaves (amount : UInt64) (machine : Machine) :
    Leaves (charge amount) machine (· = machine.setGas (machine.gas.active.charge amount).2) := by
  simp only [Leaves, Ensures, charge]
  rcases machine.gas.active.charge amount with ⟨_ | _, tracker⟩ <;> rfl

theorem charge_covers (amount : UInt64) (machine : Machine) :
    Ensures (charge amount) machine
      (fun _ after => machine.gas.active.used.toNat + amount.toNat ≤ machine.gas.active.limit.toNat ∧
        after = machine.setGas (machine.gas.active.charge amount).2)
      (fun _ after => machine.gas.active.limit.toNat < machine.gas.active.used.toNat + amount.toNat ∧
        after = machine.setGas (machine.gas.active.charge amount).2) := by
  rcases Nat.lt_or_ge machine.gas.active.limit.toNat (machine.gas.active.used.toNat + amount.toNat) with
    exceeded | covered
  · simpa only [Ensures, charge, GasTracker.charge_exceeded exceeded, and_true] using exceeded
  · simpa only [Ensures, charge, GasTracker.charge_covered covered, and_true] using covered

private theorem charge_works (amount : UInt64) (machine : Machine) :
    Leaves (charge amount) machine (machine.Works rules ledger .nothing) :=
  (charge_leaves amount machine).reaching (.charge machine amount)

/-- An action that is charged for first need only be followed from where the charge leads. -/
theorem charge_bind {action : Action α} {machine : Machine} {returns : α → Machine → Prop}
    {fails : Failure → Machine → Prop} (amount : UInt64)
    (stops : ∀ failure, fails failure (machine.setGas (machine.gas.active.charge amount).2))
    (rest : Ensures action (machine.setGas (machine.gas.active.charge amount).2) returns fails) :
    Ensures (charge amount >>= fun _ => action) machine returns fails := by
  refine Ensures.bind (Ensures.weaken (charge_leaves amount machine) (fun _ _ => id) ?_) ?_
  · intro failure after charged
    rw [charged]
    exact stops failure
  · intro _ after charged
    rw [charged]
    exact rest

private theorem charged_works {action : Action α} {machine : Machine} (amount : UInt64)
    (left : Leaves action (machine.setGas (machine.gas.active.charge amount).2)
      ((machine.setGas (machine.gas.active.charge amount).2).Works rules ledger .nothing)) :
    Leaves (charge amount >>= fun _ => action) machine (machine.Works rules ledger .nothing) :=
  charge_bind amount (fun _ => .charge machine amount) (left.weaken (fun _ => .after_quiet (.charge machine amount)))

theorem ofExcept_ensures (value : Except Failure α) (machine : Machine) :
    Ensures (ofExcept value) machine (fun found after => value = .ok found ∧ after = machine)
      (fun failure after => value = .error failure ∧ after = machine) := by
  cases value <;> exact ⟨rfl, rfl⟩

private theorem ofExcept_leaves (value : Except Failure α) (machine : Machine) :
    Leaves (ofExcept value) machine (· = machine) :=
  (ofExcept_ensures value machine).weaken (fun _ _ => And.right) (fun _ _ => And.right)

private theorem argument_leaves (index : Nat) (machine : Machine) : Leaves (argument index) machine (· = machine) := by
  refine Ensures.bind_get ?_
  split
  next => exact Ensures.pure _ rfl
  next => exact Ensures.throw _ rfl

theorem transfer_ensures (sender receiver : Address) (value : Nat) (machine : Machine) :
    Ensures (transfer sender receiver value) machine
      (fun _ after => after = machine.mapLayers (·.perform (.transfer sender receiver value)))
      (fun _ after => after = machine) := by
  simp only [Ensures, transfer, Machine.mapLayers, Layers.perform]
  cases machine.layers.transfer sender receiver value <;> rfl

end Action

theorem StorageStatus.of_eq_unchanged {old new : Bytes} : StorageStatus.of old new = .unchanged ↔ old = new := by
  simp only [StorageStatus.of]
  split
  next same => exact ⟨fun _ => same, fun _ => rfl⟩
  next differs =>
    refine ⟨fun unchanged => ?_, fun same => absurd same differs⟩
    split at unchanged
    next => cases unchanged
    next => split at unchanged <;> cases unchanged

theorem StorageStatus.ne_of_changed {old new : Bytes} {status : StorageStatus} (found : StorageStatus.of old new = status)
    (changed : status ≠ .unchanged) : old ≠ new :=
  fun same => changed (found.symm.trans (of_eq_unchanged.mpr same))

namespace Storage

private theorem readAt_ensures (address : Address) (key : Bytes) (machine : Machine) :
    Ensures (readAt ledger address key) machine
      (fun read after => after = machine.mapLayers (·.touch address) ∧
        read.1 = machine.layers.content ledger address key)
      (fun _ after => after = machine.mapLayers (·.touch address)) := by
  rw [← Layers.content_touch machine.layers ledger address address key]
  simp only [Ensures, readAt, Layers.content, Ledger.readStorage, Machine.mapLayers]
  cases (machine.layers.touch address).written? address key with
  | some data => exact ⟨rfl, rfl⟩
  | none =>
    cases ledger.fault? (.cell address key) with
    | some fault => exact rfl
    | none => exact ⟨rfl, rfl⟩

theorem readAt_leaves (address : Address) (key : Bytes) (machine : Machine) :
    Leaves (readAt ledger address key) machine (· = machine.mapLayers (·.touch address)) :=
  (readAt_ensures address key machine).weaken (fun _ _ seen => seen.1) (fun _ _ => id)

private theorem readAt_works (address : Address) (key : Bytes) (machine : Machine) :
    Leaves (readAt ledger address key) machine (machine.Works rules ledger .nothing) :=
  (readAt_leaves address key machine).reaching (.touch machine address)

theorem read_ensures (key : Bytes) (machine : Machine) :
    Ensures (read ledger key) machine
      (fun read after => after = machine.mapLayers (·.touch machine.storageAddress) ∧
        read.1 = machine.layers.content ledger machine.storageAddress key)
      (fun _ after => after = machine.mapLayers (·.touch machine.storageAddress)) := by
  refine Ensures.bind_get ?_
  exact readAt_ensures _ key _

private theorem read_works (key : Bytes) (machine : Machine) :
    Leaves (read ledger key) machine (machine.Works rules ledger .nothing) := by
  refine Ensures.bind_get ?_
  exact readAt_works _ key _

private theorem readFrom_works (address : Address) (key : Bytes) (machine : Machine) :
    Leaves (readFrom ledger address key) machine (machine.Works rules ledger .nothing) := by
  refine Ensures.bind_get ?_
  refine Ensures.ite (fun _ => readAt_works address key _) (fun _ => ?_)
  split
  next => exact Ensures.throw _ (.stay _)
  next => exact readAt_works address key _
  next => exact Ensures.pure _ (.stay _)

private theorem admitReadOnly_ensures (key value : Bytes) (machine : Machine) :
    Ensures (admitReadOnly ledger key value) machine
      (fun _ after => after = machine.touched ∧ ∃ pending, read ledger key machine = .ok (value, pending) machine.touched)
      (fun _ after => after = machine.touched) := by
  refine Ensures.bind ((read_ensures key machine).running.weaken (fun _ _ => id) (fun _ _ => id)) ?_
  rintro ⟨current, pending⟩ after ⟨looked, rfl, -⟩
  exact Ensures.ite (fun same => Ensures.pure _ ⟨rfl, pending, same ▸ looked⟩) (fun _ => Ensures.throw _ rfl)

theorem admitKey_ensures (key : Bytes) (machine : Machine) :
    Ensures (admitKey rules key) machine
      (fun _ after => after = machine ∧ rules.spaces.isReserved key = false ∧
        (machine.isProtected = true → rules.spaces.isProtected key = false))
      (fun _ after => after = machine) := by
  simp only [Ensures, admitKey]
  cases reserved : rules.spaces.isReserved key with
  | true => rfl
  | false =>
    cases closed : machine.isProtected && rules.spaces.isProtected key with
    | true => rfl
    | false => exact ⟨rfl, rfl, fun on => by simpa [on] using closed⟩

theorem settle_ensures (bill : StorageBill) (key value : Bytes) (machine : Machine) :
    Ensures (settle bill key value) machine
      (fun _ after => machine.gas.active.used.toNat + bill.cost.toNat ≤ machine.gas.active.limit.toNat ∧
        after = machine.recorded bill key value)
      (fun _ after => after = machine.setGas (machine.gas.active.charge bill.cost).2) := by
  refine Ensures.bind ((Action.charge_covers bill.cost machine).weaken (fun _ _ => id) (fun _ _ => And.right)) ?_
  rintro _ _ ⟨covered, rfl⟩
  exact ⟨covered, rfl⟩

/-- What a write does once it has been let through: it looks the cell up, and pays for what it changes. -/
def replace (rules : Rules) (ledger : Ledger) (key value : Bytes) : Action StorageStatus := do
  let (old, _) ← read ledger key
  let status := StorageStatus.of old value
  match status with
  | .unchanged => return status
  | _ =>
    settle (StorageBill.of rules.schedule old.size value.size) key value
    return status

theorem write_eq (readOnly : Bool) (key value : Bytes) :
    write rules ledger readOnly key value = (do
      if readOnly then admitReadOnly ledger key value
      admitKey rules key
      replace rules ledger.later key value) := rfl

/-- Having looked at the account before makes no difference to a read. -/
theorem read_touched (key : Bytes) (machine : Machine) : read ledger key machine.touched = read ledger key machine := by
  have same : machine.touched.mapLayers (·.touch machine.storageAddress) =
      machine.mapLayers (·.touch machine.storageAddress) := machine.touched_touched
  change readAt ledger machine.storageAddress key machine.touched = readAt ledger machine.storageAddress key machine
  rw [readAt, readAt, same]

theorem replace_touched (key value : Bytes) (machine : Machine) :
    replace rules ledger key value machine.touched = replace rules ledger key value machine := by
  simp only [replace, Bind.bind, EStateM.bind, read_touched]

/-- How a write that is let through may return: the cell holds the value already, or the change is paid for. -/
inductive Wrote (rules : Rules) (ledger : Ledger) (key value : Bytes) (before : Machine) :
    StorageStatus → Machine → Prop where
  | same {pending : Bool} (looked : read ledger key before = .ok (value, pending) before.touched) :
      Wrote rules ledger key value before .unchanged before.touched
  | paid {old : Bytes} {pending : Bool} (looked : read ledger key before = .ok (old, pending) before.touched)
      (changes : old ≠ value)
      (covered : before.gas.active.used.toNat + (StorageBill.of rules.schedule old.size value.size).cost.toNat ≤
        before.gas.active.limit.toNat) :
      Wrote rules ledger key value before (StorageStatus.of old value)
        (before.recorded (StorageBill.of rules.schedule old.size value.size) key value)

private theorem replace_wrote (key value : Bytes) (machine : Machine) :
    Ensures (replace rules ledger key value) machine (Wrote rules ledger key value machine)
      (fun _ => machine.Works rules ledger .nothing) := by
  have looking : machine.Works rules ledger .nothing machine.touched := .touch machine _
  refine Ensures.bind ((read_ensures key machine).running.weaken (fun _ _ => id) ?_) ?_
  · intro _ after looked
    rw [looked]
    exact looking
  rintro ⟨old, pending⟩ _ ⟨looked, rfl, -⟩
  dsimp only
  cases status : StorageStatus.of old value with
  | unchanged =>
    rw [StorageStatus.of_eq_unchanged] at status
    subst status
    exact Ensures.pure _ (.same looked)
  | _ =>
    have changes := StorageStatus.ne_of_changed status (by decide)
    refine Ensures.bind ((settle_ensures _ key value machine.touched).weaken (fun _ _ => id) ?_) ?_
    · intro _ after charged
      rw [charged]
      exact looking.then_quietly (.charge machine.touched _)
    · rintro _ _ ⟨covered, rfl⟩
      have paid : Wrote rules ledger key value machine _ _ := .paid looked changes covered
      rw [status, ← Machine.recorded_touched] at paid
      exact Ensures.pure _ paid

/-- What the policy asks of a write. -/
structure Admitted (rules : Rules) (ledger : Ledger) (readOnly : Bool) (key value : Bytes) (machine : Machine) :
    Prop where
  repeats : readOnly = true → ∃ pending, read ledger key machine = .ok (value, pending) machine.touched
  free : rules.spaces.isReserved key = false
  unlocked : machine.isProtected = true → rules.spaces.isProtected key = false

/-- A write that returns was let through and looked its cell up; one that fails has written nothing. -/
theorem write_wrote (readOnly : Bool) (key value : Bytes) (machine : Machine) :
    Ensures (write rules ledger readOnly key value) machine
      (fun status after => Admitted rules ledger readOnly key value machine ∧
        Wrote rules ledger.later key value machine status after)
      (fun _ => machine.Works rules ledger .nothing) := by
  -- Past the check for read-only mode the machine is as it was, but for the account having been touched.
  have replaced (looked : Machine) (looking : machine.Works rules ledger .nothing looked)
      (same : looked = machine ∨ looked = machine.touched)
      (repeats : readOnly = true → ∃ pending, read ledger key machine = .ok (value, pending) machine.touched) :
      Ensures (admitKey rules key >>= fun _ => replace rules ledger.later key value) looked
        (fun status after => Admitted rules ledger readOnly key value machine ∧
          Wrote rules ledger.later key value machine status after)
        (fun _ => machine.Works rules ledger .nothing) := by
    have closed : looked.isProtected = machine.isProtected := by
      rcases same with rfl | rfl <;> rfl
    refine Ensures.bind ((admitKey_ensures key looked).weaken (fun _ _ => id) ?_) ?_
    · rintro _ _ rfl
      exact looking
    intro _ after passed
    obtain ⟨reached, free, unlocked⟩ := passed
    rw [closed] at unlocked
    have wrote : Ensures (replace rules ledger.later key value) after (Wrote rules ledger.later key value machine)
        (fun _ => machine.Works rules ledger.later .nothing) := by
      rw [reached]
      rcases same with rfl | rfl
      · exact replace_wrote key value _
      · rw [Ensures, replace_touched]
        exact replace_wrote key value machine
    exact wrote.weaken (fun _ _ => And.intro ⟨repeats, free, unlocked⟩) (fun _ _ => .of_later)
  rw [write_eq]
  refine Ensures.ite (fun on => ?_) (fun off => ?_)
  · refine Ensures.bind ((admitReadOnly_ensures key value machine).weaken (fun _ _ => id) ?_) ?_
    · rintro _ _ rfl
      exact .touch machine _
    · rintro _ _ ⟨rfl, held⟩
      exact replaced _ (.touch machine _) (.inr rfl) (fun _ => held)
  · exact replaced machine (.stay machine) (.inl rfl) (fun on => absurd on off)

/-- What a read answers is the content of the cell. -/
theorem content_of_read {key old : Bytes} {pending : Bool} {machine after : Machine}
    (looked : read ledger key machine = .ok (old, pending) after) :
    machine.layers.content ledger machine.storageAddress key = old :=
  ((read_ensures key machine).of_ok looked).2.symm

/-- A write that returns has its cell hold the value, and one that fails has written nothing. -/
theorem write_ensures (readOnly : Bool) (key value : Bytes) (machine : Machine) :
    Ensures (write rules ledger readOnly key value) machine
      (fun _ after => machine.Works rules ledger (machine.admitted rules readOnly key value) after ∧
        after.layers.content ledger machine.storageAddress key = value)
      (fun _ => machine.Works rules ledger .nothing) := by
  refine (write_wrote readOnly key value machine).weaken ?_ (fun _ _ => id)
  rintro status after ⟨admitted, wrote⟩
  cases wrote with
  | same looked =>
    have held := content_of_read looked
    rw [Layers.content_later] at held
    exact ⟨Machine.Works.anywhere (.touch machine _), (Layers.content_touch machine.layers ledger _ _ key).trans held⟩
  | @paid old pending looked changes covered =>
    have held := content_of_read looked
    rw [Layers.content_later] at held
    have mode : readOnly = false := by
      refine Bool.eq_false_iff.mpr (fun on => changes ?_)
      obtain ⟨_, repeated⟩ := admitted.repeats on
      exact held.symm.trans (content_of_read repeated)
    have written : (machine.recorded (StorageBill.of rules.schedule old.size value.size) key value).layers.written?
        machine.storageAddress key = some value :=
      (Layers.written?_record machine.layers _ _ _ key key value).trans (if_pos ⟨rfl, rfl⟩)
    have wrote : Machine.Works rules ledger _ machine _ := .write machine key value
    rw [Layers.bill, held] at wrote
    refine ⟨wrote.widen ?_, ?_⟩
    · exact fun _ _ _ cell => ⟨cell, mode, admitted.free, admitted.unlocked⟩
    · rw [Layers.content, written]
      rfl

theorem write_leaves (readOnly : Bool) (key value : Bytes) (machine : Machine) :
    Leaves (write rules ledger readOnly key value) machine
      (machine.Advances rules ledger (only machine.storageAddress)) := by
  refine (write_ensures readOnly key value machine).weaken ?_ ?_
  · intro _ after wrote
    refine wrote.1.advances.widen ?_
    rintro address ⟨_, _, ⟨mine, -⟩, -⟩
    exact mine
  · intro _ after works
    refine works.advances.widen ?_
    rintro address ⟨_, _, absurd⟩
    exact absurd.elim

theorem unprotected_ensures {action : Action α} {machine : Machine} {returns : α → Machine → Prop}
    {fails : Failure → Machine → Prop}
    (ensured : Ensures action (machine.setProtection false)
      (fun value after => returns value (after.setProtection true))
      (fun failure after => fails failure (after.setProtection true))) :
    Ensures (unprotected action) machine returns fails := by
  simp only [Ensures, unprotected] at ensured ⊢
  cases run : action (machine.setProtection false) with
  | ok value after => rw [run] at ensured; exact ensured
  | error failure after => rw [run] at ensured; exact ensured

end Storage

namespace Operations

private theorem store_ensures (key value : Bytes) (machine : Machine) :
    Ensures (store rules ledger key value) machine
      (fun _ => machine.Works rules ledger (machine.admitted rules machine.readOnly key value))
      (fun _ => machine.Works rules ledger .nothing) := by
  refine Action.charge_bind _ (fun _ => .charge machine _) ?_
  refine Ensures.bind_get ?_
  refine (Storage.write_ensures _ key value _).weaken ?_ ?_
  · exact fun _ _ wrote => .after_quiet (.charge machine _) wrote.1
  · exact fun _ _ => .after_quiet (.charge machine _)

private theorem load_works (key : Bytes) (machine : Machine) :
    Leaves (load rules ledger key) machine (machine.Works rules ledger .nothing) := by
  refine Action.charged_works _ ?_
  refine Leaves.bind (Storage.read_works key _) (fun _ => id) ?_
  intro read _ works
  exact Ensures.pure _ works

private theorem loadFrom_works (address : Address) (key : Bytes) (machine : Machine) :
    Leaves (loadFrom rules ledger address key) machine (machine.Works rules ledger .nothing) := by
  refine Action.charged_works _ ?_
  refine Leaves.bind (Storage.readFrom_works address key _) (fun _ => id) ?_
  intro read _ works
  exact Ensures.pure _ works

private theorem argument_works (index : Nat) (machine : Machine) :
    Leaves (argument rules index) machine (machine.Works rules ledger .nothing) := by
  refine Action.charged_works _ ?_
  exact (Action.argument_leaves index _).reaching (.stay _)

private theorem finish_works (data : Bytes) (machine : Machine) :
    Leaves (finish rules data) machine (machine.Works rules ledger .nothing) := by
  refine Action.charged_works _ ?_
  exact Leaves.reaching Ensures.modify (.quiet _ (.finish data) trivial (fun _ => trivial))

private theorem log_works (topics : List Bytes) (data : Bytes) (machine : Machine) :
    Leaves (log rules topics data) machine (machine.Works rules ledger .nothing) := by
  refine Action.charged_works _ ?_
  exact Leaves.reaching Ensures.modify (.quiet _ (.log _) trivial (fun _ => trivial))

/-- A balance that has been loaded is known, and it is noted as the ledger has it. -/
theorem loadBalance_ensures (address : Address) (machine : Machine) :
    Ensures (loadBalance ledger address) machine
      (fun _ after => (after = machine ∨
          after = machine.mapLayers (·.perform (.note address (ledger.balance address)))) ∧
        (after.layers.flatten.knownBalance address).isSome)
      (fun _ after => after = machine) := by
  simp only [Ensures, loadBalance, Ledger.readAccount]
  cases known : machine.layers.knownBalance address with
  | some balance =>
    rw [Layers.knownBalance_eq] at known
    exact ⟨.inl rfl, Option.isSome_iff_exists.mpr ⟨balance, known⟩⟩
  | none =>
    cases ledger.fault? (.account address) with
    | some fault => exact rfl
    | none =>
      have stated : ((ledger.account? address).map (fun account => (account.balance : Int))).getD 0 =
          ledger.balance address := by
        rw [Ledger.balance]
        cases ledger.account? address <;> rfl
      simp only [stated]
      have noted := Layers.flatten_perform machine.layers (.note address (ledger.balance address))
      refine ⟨.inr rfl, Option.isSome_iff_exists.mpr ⟨(ledger.balance address : Int), ?_⟩⟩
      exact (congrArg (Output.knownBalance · address) noted).trans
        (Output.knownBalance_noteBalance machine.layers.flatten address _)

theorem transferCallValue_staged (input : CallInput) (machine : Machine) :
    Leaves (transferCallValue ledger input) machine (machine.Staged rules ledger) := by
  refine Ensures.ite (fun _ => Ensures.pure _ (.refl machine)) (fun _ => ?_)
  refine Ensures.bind ((loadBalance_ensures input.caller machine).weaken (fun _ _ => id) ?_) ?_
  · intro _ after kept
    rw [kept]
    exact .refl machine
  intro _ loaded loading
  obtain ⟨noting, known⟩ := loading
  have noted : machine.Staged rules ledger loaded := by
    rcases noting with rfl | rfl
    · exact .refl _
    · exact .quiet machine rfl
  refine (Action.transfer_ensures input.caller input.recipient input.value loaded).weaken ?_ ?_
  · intro _ after moved
    rw [moved]
    exact noted.trans (.quiet loaded known)
  · intro _ after kept
    rw [kept]
    exact noted

private theorem transfer_works (destination : Address) (value : Nat) (machine : Machine) :
    Leaves (transfer rules ledger destination value) machine (machine.Works rules ledger .nothing) := by
  refine Action.charged_works _ ?_
  generalize machine.setGas (machine.gas.active.charge rules.schedule.transferValue).2 = charged
  refine Ensures.bind_get ?_
  refine Ensures.ite (fun _ => Ensures.throw _ (.stay charged)) (fun idle => ?_)
  refine Ensures.bind ((loadBalance_ensures charged.contract charged).weaken (fun _ _ => id) ?_) ?_
  · intro _ after kept
    rw [kept]
    exact .stay charged
  intro _ loaded loading
  obtain ⟨noting, known⟩ := loading
  have noted : charged.Works rules ledger .nothing loaded := by
    rcases noting with rfl | rfl
    · exact .stay _
    · exact .quiet charged _ rfl (fun _ => trivial)
  refine (Action.transfer_ensures charged.contract destination value loaded).weaken ?_ ?_
  · intro _ after moved
    rw [moved]
    refine noted.then_quietly (.quiet loaded _ known ?_)
    intro on
    rw [noted.readOnly] at on
    change value = 0
    simpa [on] using idle
  · intro _ after kept
    rw [kept]
    exact noted

end Operations

namespace Token

def held (rules : Rules) (ledger : Ledger) (layers : Layers) (address : Address) (token : Bytes) : Nat :=
  (layers.content ledger address (key rules.spaces.protectedPrefix token)).toNat

private theorem balance_ensures (address : Address) (token : Bytes) (machine : Machine) :
    Ensures (balance rules ledger address token) machine
      (fun amount after => after = machine.mapLayers (·.touch address) ∧
        amount = held rules ledger machine.layers address token)
      (fun _ after => after = machine.mapLayers (·.touch address)) := by
  refine Ensures.bind (Storage.readAt_ensures address _ machine) ?_
  intro read after seen
  obtain ⟨rfl, found⟩ := seen
  exact Ensures.pure _ ⟨rfl, congrArg Bytes.toNat found⟩

private theorem balance_works (address : Address) (token : Bytes) (machine : Machine) :
    Leaves (balance rules ledger address token) machine (machine.Works rules ledger .nothing) := by
  refine (balance_ensures address token machine).weaken ?_ ?_
  · intro _ after seen
    rw [seen.1]
    exact .touch machine address
  · intro _ after looked
    rw [looked]
    exact .touch machine address

/-- The cell of a token's balance, where the mode and the spaces let it be written. -/
def footprint (rules : Rules) (machine : Machine) (address : Address) (token : Bytes) (amount : Nat) : Footprint :=
  fun other held content =>
    Footprint.cell address (key rules.spaces.protectedPrefix token) (Bytes.ofNat amount) other held content ∧
      machine.readOnly = false ∧ rules.spaces.isReserved (key rules.spaces.protectedPrefix token) = false

theorem setBalance_ensures (token : Bytes) (amount : Nat) (machine : Machine) :
    Ensures (setBalance rules ledger token amount) machine
      (fun _ after => machine.Works rules ledger (footprint rules machine machine.storageAddress token amount) after ∧
        held rules ledger after.layers machine.storageAddress token = amount)
      (fun _ => machine.Works rules ledger .nothing) := by
  refine Ensures.bind_get ?_
  have written : Ensures (Storage.unprotected (Storage.write rules ledger machine.readOnly
      (key rules.spaces.protectedPrefix token) (Bytes.ofNat amount))) machine
      (fun _ after => machine.Works rules ledger (footprint rules machine machine.storageAddress token amount) after ∧
        held rules ledger after.layers machine.storageAddress token = amount)
      (fun _ => machine.Works rules ledger .nothing) := by
    refine Storage.unprotected_ensures ((Storage.write_ensures _ _ _ _).weaken ?_ (fun _ _ => .unprotected))
    intro _ after wrote
    refine ⟨(Machine.Works.unprotected wrote.1).widen ?_, ?_⟩
    · exact fun _ _ _ cell => ⟨cell.1, cell.2.1, cell.2.2.1⟩
    · exact (congrArg Bytes.toNat wrote.2).trans (Bytes.toNat_ofNat amount)
  exact Ensures.bind written (fun _ _ holds => Ensures.pure _ holds)

theorem mint_ensures (token : Bytes) (amount : Nat) (machine : Machine) :
    let minted := held rules ledger machine.layers machine.storageAddress token + amount
    Ensures (mint rules ledger token amount) machine
      (fun _ after => machine.Works rules ledger (footprint rules machine machine.storageAddress token minted) after ∧
        held rules ledger after.layers machine.storageAddress token = minted)
      (fun _ => machine.Works rules ledger .nothing) := by
  intro minted
  refine Action.charge_bind _ (fun _ => .charge machine _) ?_
  refine Ensures.bind_get ?_
  let charged := machine.setGas (machine.gas.active.charge rules.schedule.storageStore).2
  have looking : machine.Works rules ledger .nothing (charged.mapLayers (·.touch machine.storageAddress)) :=
    .after_quiet (.charge machine _) (.touch charged _)
  refine Ensures.bind ((balance_ensures _ token charged).weaken (fun _ _ => id) ?_) ?_
  · intro _ after looked
    rw [looked]
    exact looking
  intro found after seen
  obtain ⟨rfl, rfl⟩ := seen
  refine (setBalance_ensures token _ _).weaken ?_ ?_
  · exact fun _ _ wrote => ⟨looking.after_quiet wrote.1.of_later, wrote.2⟩
  · exact fun _ _ failed => looking.after_quiet failed.of_later

theorem within_ensures {action : Action α} {address : Address} {machine : Machine} {returns : α → Machine → Prop}
    {fails : Failure → Machine → Prop}
    (ensured : Ensures action (machine.setStorageAddress address)
      (fun value after => returns value (after.setStorageAddress machine.storageAddress))
      (fun failure after => fails failure (after.setStorageAddress machine.storageAddress))) :
    Ensures (within address action) machine returns fails := by
  simp only [Ensures, within] at ensured ⊢
  cases run : action (machine.setStorageAddress address) with
  | ok value after => rw [run] at ensured; exact ensured
  | error failure after => rw [run] at ensured; exact ensured

theorem atomically_ensures {action : Action α} {machine : Machine} {returns : α → Machine → Prop}
    {fails : Failure → Machine → Prop}
    (ensured : Ensures action (machine.mapLayers Layers.continued)
      (fun value after => returns value (after.mapLayers Layers.keep))
      (fun failure after => fails failure (after.mapLayers Layers.revert))) :
    Ensures (atomically action) machine returns fails := by
  simp only [Ensures, atomically] at ensured ⊢
  cases run : action (machine.mapLayers Layers.continued) with
  | ok value after => rw [run] at ensured; exact ensured
  | error failure after => rw [run] at ensured; exact ensured

def transferFootprint (rules : Rules) (machine : Machine) (token : Bytes) (destination : Address) (own other : Nat) :
    Footprint :=
  (footprint rules machine machine.storageAddress token own).either (footprint rules machine destination token other)

/-- Both balances are written, or it fails with at most the first of them written. -/
theorem setBalances_ensures (token : Bytes) (destination : Address) (own other : Nat) (machine : Machine)
    (apart : destination ≠ machine.storageAddress) :
    Ensures (setBalances rules ledger token destination own other) machine
      (fun _ after => machine.Works rules ledger (transferFootprint rules machine token destination own other) after ∧
        held rules ledger after.layers machine.storageAddress token = own ∧
        held rules ledger after.layers destination token = other)
      (fun _ => machine.Works rules ledger (footprint rules machine machine.storageAddress token own)) := by
  refine Ensures.bind ((setBalance_ensures token own machine).weaken (fun _ _ => id) (fun _ _ => .anywhere)) ?_
  intro _ debited debit
  obtain ⟨debit, remaining⟩ := debit
  have mode : debited.readOnly = machine.readOnly := debit.readOnly
  refine within_ensures ((setBalance_ensures token other _).weaken ?_ ?_)
  · intro _ after credit
    obtain ⟨credit, received⟩ := credit
    have returned := Machine.Works.within destination credit.of_later.of_later
    have outside (value : Bytes) : ¬footprint rules (debited.setStorageAddress destination) destination token other
        machine.storageAddress (key rules.spaces.protectedPrefix token) value :=
      fun credited => apart credited.1.1.symm
    have still : held rules ledger after.layers machine.storageAddress token =
        held rules ledger debited.layers machine.storageAddress token :=
      congrArg Bytes.toNat (returned.content outside ledger)
    refine ⟨(debit.trans returned ?_).widen ?_, still.trans remaining, received⟩
    · rintro address ⟨_, _, ⟨there, -⟩, -⟩ ⟨_, _, ⟨here, -⟩, -⟩
      exact apart (there.symm.trans here)
    · refine fun _ _ _ written => written.imp id ?_
      exact fun credited => ⟨credited.1, mode ▸ credited.2.1, credited.2.2⟩
  · exact fun _ after failed => debit.then_quietly (.within destination failed.of_later.of_later)

/-- Tokens are moved as a whole, or the transfer is undone. -/
theorem transfer_ensures (token : Bytes) (destination : Address) (amount : Nat) (machine : Machine) :
    let own := held rules ledger machine.layers machine.storageAddress token
    let other := held rules ledger machine.layers destination token
    Ensures (transfer rules ledger token destination amount) machine
      (fun _ after => amount ≤ own ∧
        ((destination = machine.storageAddress ∧ machine.Works rules ledger .nothing after) ∨
          (destination ≠ machine.storageAddress ∧
            machine.Works rules ledger
              (transferFootprint rules machine token destination (own - amount) (other + amount)) after ∧
            held rules ledger after.layers machine.storageAddress token = own - amount ∧
            held rules ledger after.layers destination token = other + amount)))
      (fun _ => machine.Undone rules ledger) := by
  intro own other
  refine Action.charge_bind _ (fun _ => (Machine.Works.charge machine _).undone) ?_
  let charged := machine.setGas (machine.gas.active.charge rules.schedule.tokenTransfer).2
  refine Ensures.bind_get ?_
  let seen := charged.mapLayers (·.touch machine.storageAddress)
  have seeing : machine.Works rules ledger .nothing seen := .after_quiet (.charge machine _) (.touch charged _)
  refine Ensures.bind ((balance_ensures _ token charged).weaken (fun _ _ => id) ?_) ?_
  · intro _ after looked
    rw [looked]
    exact seeing.undone
  intro found after looked
  obtain ⟨rfl, rfl⟩ := looked
  refine Ensures.ite (fun _ => Ensures.throw _ seeing.undone) (fun covered => ?_)
  have afforded : amount ≤ own := Nat.le_of_not_lt covered
  refine Ensures.ite (fun same => Ensures.pure _ ⟨afforded, .inl ⟨same, seeing⟩⟩) (fun apart => ?_)
  let looked := seen.mapLayers (·.touch destination)
  have looking : machine.Works rules ledger .nothing looked := seeing.then_quietly (.touch seen destination)
  refine Ensures.bind ((balance_ensures destination token seen).weaken (fun _ _ => id) ?_) ?_
  · intro _ after reached
    rw [reached]
    exact looking.undone
  intro found after reached
  obtain ⟨rfl, rfl⟩ := reached
  have still : held rules ledger.later seen.layers destination token = other :=
    congrArg Bytes.toNat (seeing.content (fun _ => id) ledger)
  rw [still]
  have moved : Ensures (setBalances rules ledger.later.later token destination (own - amount) (other + amount))
      (looked.mapLayers Layers.continued) _ _ := setBalances_ensures token destination _ _ _ apart
  refine atomically_ensures (moved.weaken ?_ ?_)
  · intro _ after moved
    obtain ⟨works, debited, credited⟩ := moved
    replace works := works.of_later.of_later
    have continues : after.layers.active.isolated = false := works.kept_all.layers.2
    refine ⟨afforded, .inr ⟨apart, looking.after_quiet (.kept works), ?_⟩⟩
    simp only [held, Layers.content, Layers.written?_eq] at debited credited ⊢
    change ((after.layers.keep.flatten.written? _ _).getD _).toNat = _ ∧
      ((after.layers.keep.flatten.written? _ _).getD _).toNat = _
    rw [Layers.flatten_keep after.layers continues]
    exact ⟨debited, credited⟩
  · intro _ after works
    have kept := works.kept_all
    have inside : (looked.layers.step Context.same.entering).Framed after.layers := kept.layers
    have reverted : after.layers.revert = looked.layers := inside.revert
    refine ⟨looking.kept_all.trans ?_, works.frames.trans looking.frames, looked, looking, reverted⟩
    have framed : looked.layers.Framed after.layers.revert := by
      rw [reverted]
      exact .refl _
    exact { kept with layers := framed }

end Token

namespace Operation

/-- The cells that an operation other than a call may write. -/
def footprint (rules : Rules) (ledger : Ledger) (machine : Machine) : Operation → Footprint
  | .store key value => machine.admitted rules machine.readOnly key value
  | .tokenMint token amount =>
    Token.footprint rules machine machine.storageAddress token
      (Token.held rules ledger machine.layers machine.storageAddress token + amount)
  | .tokenTransfer token destination amount =>
    Token.transferFootprint rules machine token destination
      (Token.held rules ledger machine.layers machine.storageAddress token - amount)
      (Token.held rules ledger machine.layers destination token + amount)
  | _ => .nothing

theorem footprint_mode {operation : Operation} {machine : Machine} {address : Address} {key value : Bytes}
    (writes : operation.footprint rules ledger machine address key value) : machine.readOnly = false := by
  cases operation with
  | store => exact writes.2.1
  | tokenMint => exact writes.2.1
  | tokenTransfer => exact writes.elim (·.2.1) (·.2.1)
  | _ => exact writes.elim

def MovesTokens : Operation → Prop
  | .tokenTransfer .. => True
  | _ => False

end Operation

section Host

variable {environment : Environment} {holds : Machine → Prop}

def World.Progress (rules : Rules) (before after : World environment) : Prop :=
  after.ledger = before.ledger ∧ ∃ scope, before.machine.Advances rules before.ledger scope after.machine

theorem Run.onMachine_ensures {action : Ledger → Action α} {world : World environment}
    {returns : α → Machine → Prop} {fails : Failure → Machine → Prop}
    (ensured : Ensures (action world.ledger) world.machine returns fails) :
    Ensures (onMachine action) world (fun value after => after.ledger = world.ledger ∧ returns value after.machine)
      (fun failure after => after.ledger = world.ledger ∧ fails failure after.machine) := by
  simp only [Ensures, onMachine] at ensured ⊢
  cases run : action world.ledger world.machine with
  | ok value after => rw [run] at ensured; exact ⟨rfl, ensured⟩
  | error failure after => rw [run] at ensured; exact ⟨rfl, ensured⟩

theorem Run.onMachine_leaves {action : Ledger → Action α} {world : World environment}
    (left : Leaves (action world.ledger) world.machine holds) :
    Leaves (onMachine action) world (fun after => after.ledger = world.ledger ∧ holds after.machine) :=
  onMachine_ensures left

namespace Host

/-- An operation that returns has done work within its footprint, and one that fails has written nothing. A token
transfer that fails may have been undone. -/
theorem serve_works (host : Host environment) (nested : Context → CallInput → Run environment Unit)
    (operation : Operation) (elementary : ∀ context input, operation ≠ .call context input)
    (moded : ∀ on, operation ≠ .setReadOnly on) (world : World environment) :
    Ensures (host.serve nested operation) world
      (fun _ after => after.ledger = world.ledger ∧ world.machine.Works host.rules world.ledger
        (operation.footprint host.rules world.ledger world.machine) after.machine)
      (fun _ after => after.ledger = world.ledger ∧
        (world.machine.Works host.rules world.ledger .nothing after.machine ∨
          (operation.MovesTokens ∧ world.machine.Undone host.rules world.ledger after.machine))) := by
  have writing {α : Type} {footprint : Footprint} {action : Ledger → Action α}
      (works : Ensures (action world.ledger) world.machine
        (fun _ => world.machine.Works host.rules world.ledger footprint)
        (fun _ => world.machine.Works host.rules world.ledger .nothing)) :
      Ensures (Run.onMachine action) world
        (fun _ after => after.ledger = world.ledger ∧
          world.machine.Works host.rules world.ledger footprint after.machine)
        (fun _ after => after.ledger = world.ledger ∧
          (world.machine.Works host.rules world.ledger .nothing after.machine ∨
            (operation.MovesTokens ∧ world.machine.Undone host.rules world.ledger after.machine))) :=
    (Run.onMachine_ensures works).weaken (fun _ _ => id) (fun _ _ failed => ⟨failed.1, .inl failed.2⟩)
  cases operation with
  | store key value =>
    simp only [serve]
    exact writing (Operations.store_ensures key value _)
  | load key =>
    simp only [serve]
    exact writing (Operations.load_works key _)
  | loadFrom address key =>
    simp only [serve]
    exact writing (Operations.loadFrom_works address key _)
  | argument index =>
    simp only [serve]
    exact writing (Operations.argument_works index _)
  | finish data =>
    simp only [serve]
    exact writing (Operations.finish_works data _)
  | transfer destination value =>
    simp only [serve]
    exact writing (Operations.transfer_works destination value _)
  | log topics data =>
    simp only [serve]
    exact writing (Operations.log_works topics data _)
  | useGas amount =>
    simp only [serve]
    exact writing (Action.charge_works amount _)
  | setReadOnly on => exact absurd rfl (moded on)
  | call context input => exact absurd rfl (elementary context input)
  | tokenBalance address token =>
    simp only [serve]
    exact writing (Token.balance_works address token _)
  | tokenMint token amount =>
    simp only [serve]
    exact writing ((Token.mint_ensures token amount _).weaken (fun _ _ minted => minted.1) (fun _ _ => id))
  | tokenTransfer token destination amount =>
    simp only [serve]
    refine (Run.onMachine_ensures (Token.transfer_ensures token destination amount world.machine)).weaken ?_ ?_
    · intro _ after moved
      obtain ⟨ledger, -, ⟨-, works⟩ | ⟨-, works, -⟩⟩ := moved
      · exact ⟨ledger, works.anywhere⟩
      · exact ⟨ledger, works⟩
    · exact fun _ _ failed => ⟨failed.1, .inr ⟨trivial, failed.2⟩⟩
  | _ => exact ⟨rfl, .stay world.machine⟩

theorem serve_setReadOnly (host : Host environment) (nested : Context → CallInput → Run environment Unit)
    (on : Bool) (world : World environment) :
    host.serve nested (.setReadOnly on) world = .ok () { world with machine := world.machine.setReadOnly on } := rfl

theorem serve_undone (host : Host environment) {nested : Context → CallInput → Run environment Unit}
    {operation : Operation} (elementary : ∀ context input, operation ≠ .call context input)
    {world after : World environment} {failure : Failure}
    (ran : host.serve nested operation world = .error failure after) :
    after.ledger = world.ledger ∧ world.machine.Undone host.rules world.ledger after.machine := by
  have moded (on : Bool) : operation ≠ .setReadOnly on := by
    rintro rfl
    cases ran
  obtain ⟨ledger, works | ⟨-, undone⟩⟩ := (host.serve_works nested operation elementary moded world).of_error ran
  · exact ⟨ledger, works.undone⟩
  · exact ⟨ledger, undone⟩

theorem serve_progress (host : Host environment) (nested : Context → CallInput → Run environment Unit)
    (operation : Operation) (elementary : ∀ context input, operation ≠ .call context input)
    (world : World environment) : Leaves (host.serve nested operation) world (world.Progress host.rules) := by
  by_cases moded : ∃ on, operation = .setReadOnly on
  · obtain ⟨on, rfl⟩ := moded
    exact ⟨rfl, nowhere, .stay⟩
  refine (host.serve_works nested operation elementary (fun on same => moded ⟨on, same⟩) world).weaken ?_ ?_
  · exact fun _ after works => ⟨works.1, _, works.2.advances⟩
  · rintro _ after ⟨ledger, works | ⟨-, undone⟩⟩
    · exact ⟨ledger, _, works.advances⟩
    · obtain ⟨middle, works, layers⟩ := undone.layers
      refine ⟨ledger, Footprint.nothing.accounts, ?_⟩
      rw [Machine.Advances, layers]
      exact works.advances

theorem prepare_spent (host : Host environment) (input : CallInput) (machine : Machine) :
    Leaves (host.prepare ledger input) machine machine.Spent := by
  have checked {α : Type} (value : Except Failure α) (machine : Machine) :
      Leaves (Action.ofExcept value) machine machine.Spent :=
    (Action.ofExcept_leaves value machine).reaching (.refl machine)
  refine Leaves.bind (checked _ machine) (fun _ => id) ?_
  intro code loaded loading
  refine Ensures.ite (fun _ => Ensures.throw _ loading) (fun _ => ?_)
  refine Ensures.ite (fun _ => Ensures.throw _ loading) (fun _ => ?_)
  refine Action.charge_bind _ (fun _ => loading.trans (.charge loaded _)) ?_
  refine Leaves.bind (checked _ _) (fun _ => (loading.trans (.charge loaded _)).trans) ?_
  intro contract built building
  have paid := (loading.trans (.charge loaded _)).trans building
  refine Leaves.bind (checked _ _) (fun _ => paid.trans) ?_
  intro _ admitted gating
  split
  next => exact Ensures.pure _ (paid.trans gating)
  next => exact Ensures.throw _ (paid.trans gating)

end Host

end Host

end ContractHost
