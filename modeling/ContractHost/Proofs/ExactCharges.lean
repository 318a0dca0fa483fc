import ContractHost.Proofs.Admission
import ContractHost.Proofs.WriteRefusal

/-! Costs are capped at the largest amount of gas there is, and what costs more than is left is refused nevertheless.
The one exception is a tracker with the largest limit of which nothing has been used: it affords the cap, and with it
all that would cost more than the cap. -/

namespace ContractHost

def GasSchedule.compilePrice (schedule : GasSchedule) (size : Nat) : Nat := schedule.compilePerByte.toNat * size

private theorem GasSchedule.toNat_compileCost (schedule : GasSchedule) (size : UInt64) :
    (schedule.compileCost size).toNat = min (schedule.compilePrice size.toNat) Gas.most :=
  Gas.toNat_mul _ _

namespace GasTracker

/-- All the gas that a tracker can hold, and nothing used of it. -/
def Brimming (tracker : GasTracker) : Prop := tracker.used.toNat = 0 ∧ tracker.limit.toNat = Gas.most

/-- A price above what is left is charged for in vain, also where the charge is only the cap. -/
theorem exceeds_of_price {tracker : GasTracker} {price : Nat} {cost : UInt64} (capped : cost.toNat = min price Gas.most)
    (dear : tracker.gasLeft.toNat < price) (partly : ¬tracker.Brimming) :
    tracker.limit.toNat < tracker.used.toNat + cost.toNat := by
  have bound := tracker.limit.toNat_lt
  have most : Gas.most = 2 ^ 64 - 1 := rfl
  rw [Brimming] at partly
  -- The cap is out of reach of all trackers but the one that has it for its limit and has used nothing.
  rcases Nat.lt_or_ge tracker.limit.toNat tracker.used.toNat with overdrawn | fits
  · omega
  · rw [toNat_gasLeft fits] at dear
    omega

private theorem covered_of_brimming {tracker : GasTracker} (brimming : tracker.Brimming) (cost : UInt64) :
    tracker.used.toNat + cost.toNat ≤ tracker.limit.toNat := by
  have bound := cost.toNat_lt
  have most : Gas.most = 2 ^ 64 - 1 := rfl
  obtain ⟨unused, full⟩ := brimming
  omega

/-- What would cost more than all of it is had for all of it. -/
theorem spend_of_brimming {tracker : GasTracker} (brimming : tracker.Brimming) {price : Nat} {cost : UInt64}
    (capped : cost.toNat = min price Gas.most) (dear : tracker.gasLeft.toNat < price) :
    tracker.spend cost = tracker.exhausted := by
  have paid := toNat_spend (covered_of_brimming brimming cost)
  obtain ⟨unused, full⟩ := brimming
  have left := toNat_gasLeft (Nat.le_trans (Nat.le_of_eq unused) (Nat.zero_le tracker.limit.toNat))
  have used : (tracker.spend cost).used = tracker.limit := by
    apply UInt64.toNat_inj.mp
    omega
  change { tracker with used := (tracker.spend cost).used } = _
  rw [used]
  rfl

end GasTracker

namespace Storage

/-- The write changes its cell, and nothing but the gas can stand in its way. -/
structure Due (rules : Rules) (ledger : Ledger) (readOnly : Bool) (key value : Bytes) (machine : Machine) : Prop where
  changes : machine.layers.content ledger machine.storageAddress key ≠ value
  admitted : (modeGrounds ledger readOnly key value machine ++ keyGrounds rules key machine ++
    [unread? ledger.later key machine]).findSome? id = none

variable {rules : Rules} {ledger : Ledger} {readOnly : Bool} {key value : Bytes} {machine : Machine}

private theorem Due.grounds (due : Due rules ledger readOnly key value machine) :
    (grounds rules ledger readOnly key value machine).findSome? id =
      unpaid? rules.schedule (machine.layers.content ledger machine.storageAddress key) value machine.gas.active := by
  have last : Storage.grounds rules ledger readOnly key value machine =
      (modeGrounds ledger readOnly key value machine ++ keyGrounds rules key machine ++
        [unread? ledger.later key machine]) ++
        [unpaid? rules.schedule (machine.layers.content ledger machine.storageAddress key) value
          machine.gas.active] := by
    simp only [Storage.grounds, changeGrounds, Layers.content_later, List.append_assoc, List.cons_append,
      List.nil_append]
  rw [last, List.findSome?_append, due.admitted, Option.none_or]
  cases unpaid? rules.schedule _ value machine.gas.active <;> rfl

def duePrice (rules : Rules) (ledger : Ledger) (key value : Bytes) (machine : Machine) : Nat :=
  StorageBill.price rules.schedule (machine.layers.content ledger machine.storageAddress key).length value.length

private theorem toNat_dueCost (rules : Rules) (ledger : Ledger) (key value : Bytes) (machine : Machine)
    (oldFits : (machine.layers.content ledger machine.storageAddress key).length < UInt64.size)
    (newFits : value.length < UInt64.size) :
    (StorageBill.of rules.schedule (machine.layers.content ledger machine.storageAddress key).size
      value.size).cost.toNat = min (duePrice rules ledger key value machine) Gas.most := by
  rw [StorageBill.toNat_cost, Bytes.toNat_size oldFits, Bytes.toNat_size newFits]
  rfl

private theorem Due.refused (due : Due rules ledger readOnly key value machine)
    (exceeded : machine.gas.active.limit.toNat < machine.gas.active.used.toNat +
      (StorageBill.of rules.schedule (machine.layers.content ledger machine.storageAddress key).size
        value.size).cost.toNat) :
    ∃ total after, write rules ledger readOnly key value machine =
        .error (.outOfGas total machine.gas.active.limit) after ∧
      Refused (.outOfGas total machine.gas.active.limit) machine after := by
  have weighed : Ensures (write rules ledger readOnly key value) machine _ _ := write_weighs readOnly key value machine
  rw [StorageBill.toNat_cost] at exceeded
  have ground := due.grounds
  rw [unpaid?, if_pos ⟨due.changes, exceeded⟩] at ground
  cases ended : write rules ledger readOnly key value machine with
  | ok status after =>
    have none := (weighed.of_ok ended).1
    rw [ground] at none
    cases none
  | error failure after =>
    obtain ⟨found, refused⟩ := weighed.of_error ended
    rw [ground] at found
    cases found
    exact ⟨_, after, rfl, refused⟩

private theorem Due.paid (due : Due rules ledger readOnly key value machine)
    (covered : machine.gas.active.used.toNat +
      (StorageBill.of rules.schedule (machine.layers.content ledger machine.storageAddress key).size
        value.size).cost.toNat ≤ machine.gas.active.limit.toNat) :
    ∃ status, status ≠ .unchanged ∧ write rules ledger readOnly key value machine = .ok status (machine.recorded
      (StorageBill.of rules.schedule (machine.layers.content ledger machine.storageAddress key).size value.size)
      key value) := by
  have weighed : Ensures (write rules ledger readOnly key value) machine _ _ := write_weighs readOnly key value machine
  have wrote : Ensures (write rules ledger readOnly key value) machine _ _ := write_wrote readOnly key value machine
  rw [StorageBill.toNat_cost] at covered
  have ground := due.grounds
  rw [unpaid?, if_neg (fun unpaid => Nat.not_lt_of_le covered unpaid.2)] at ground
  cases ended : write rules ledger readOnly key value machine with
  | error failure after =>
    have found := (weighed.of_error ended).1
    rw [ground] at found
    cases found
  | ok status after =>
    obtain ⟨-, wrote⟩ := wrote.of_ok ended
    cases wrote with
    | same looked => exact absurd (content_of_read looked) due.changes
    | @paid old pending looked changes covered =>
      have held := content_of_read looked
      rw [Layers.content_later] at held
      rw [held]
      exact ⟨_, fun same => changes (StorageStatus.of_eq_unchanged.mp same), rfl⟩

end Storage

namespace Host

variable {environment : Environment} (host : Host environment)

private theorem prepare_eq {ledger : Ledger} {input : CallInput} {code : Bytes}
    (loaded : ledger.readCode input.recipient = .ok code) (nonempty : code ≠ [])
    (bounded : code.length ≤ host.rules.maxCodeSize) :
    host.prepare ledger input = (do
      Action.charge (host.rules.schedule.compileCost code.size)
      let contract ← Action.ofExcept (host.builder code)
      host.bodyOf input.function contract) := by
  funext machine
  have reading : Action.ofExcept ((ledger.readCode input.recipient).mapError Failure.ledger) machine =
      .ok code machine := by
    rw [loaded]
    rfl
  refine (bind_of_ok reading).trans ?_
  rw [if_neg (fun empty => nonempty (List.isEmpty_iff.mp empty)), if_neg (Nat.not_lt_of_le bounded)]
  rfl

private theorem toNat_compileCost {code : Bytes} (bounded : code.length ≤ host.rules.maxCodeSize) :
    (host.rules.schedule.compileCost code.size).toNat =
      min (host.rules.schedule.compilePrice code.length) Gas.most := by
  have fits : code.length < UInt64.size := Nat.lt_of_le_of_lt bounded host.rules.config.maxCodeSize.toNat_lt
  rw [GasSchedule.toNat_compileCost, Bytes.toNat_size fits]

/-- A change of a cell, or a compilation, that costs more than is left is refused for want of gas and leaves nothing but
the gas gone, unless none of the largest limit has been used. In that case it is made, and what it costs beyond the
limit is not charged for. -/
theorem dear_changes_refused :
    (∀ ledger readOnly key value machine, Storage.Due host.rules ledger readOnly key value machine →
      (machine.layers.content ledger machine.storageAddress key).length < UInt64.size → value.length < UInt64.size →
      machine.gasLeft.toNat < Storage.duePrice host.rules ledger key value machine →
      (¬machine.gas.active.Brimming → ∃ total after, Storage.write host.rules ledger readOnly key value machine =
          .error (.outOfGas total machine.gas.active.limit) after ∧
        Storage.Refused (.outOfGas total machine.gas.active.limit) machine after) ∧
      (machine.gas.active.Brimming → ∃ status after, status ≠ .unchanged ∧
        Storage.write host.rules ledger readOnly key value machine = .ok status after ∧ after.gasLeft = 0)) ∧
    ∀ nested input (world : World environment) code, world.ledger.readCode input.recipient = .ok code → code ≠ [] →
      code.length ≤ host.rules.maxCodeSize →
      world.machine.gasLeft.toNat < host.rules.schedule.compilePrice code.length →
      (¬world.machine.gas.active.Brimming → ∃ total, host.execute nested input world =
        .error (.outOfGas total world.machine.gas.active.limit) (world.setGas world.machine.gas.active.exhausted)) ∧
      (world.machine.gas.active.Brimming → host.prepare world.ledger input world.machine =
        (Action.ofExcept (host.builder code) >>= host.bodyOf input.function)
          (world.machine.setGas world.machine.gas.active.exhausted)) := by
  refine ⟨?_, ?_⟩
  · intro ledger readOnly key value machine due oldFits newFits dear
    have capped := Storage.toNat_dueCost host.rules ledger key value machine oldFits newFits
    refine ⟨fun partly => due.refused (GasTracker.exceeds_of_price capped dear partly), fun brimming => ?_⟩
    have covered := GasTracker.covered_of_brimming brimming
      (StorageBill.of host.rules.schedule (machine.layers.content ledger machine.storageAddress key).size
        value.size).cost
    obtain ⟨status, changed, wrote⟩ := due.paid covered
    refine ⟨status, _, changed, wrote, ?_⟩
    change (machine.gas.active.charge _).2.gasLeft = 0
    rw [GasTracker.charge_covered covered, GasTracker.spend_of_brimming brimming capped dear]
    exact UInt64.sub_self _
  · intro nested input world code loaded nonempty bounded dear
    have capped := host.toNat_compileCost bounded
    have prepares := host.prepare_eq loaded nonempty bounded
    refine ⟨fun partly => ?_, fun brimming => ?_⟩
    · have exceeded := GasTracker.exceeds_of_price capped dear partly
      obtain ⟨total, stopped⟩ : ∃ total, Action.charge (host.rules.schedule.compileCost code.size) world.machine =
          .error (.outOfGas total world.machine.gas.active.limit)
            (world.machine.setGas world.machine.gas.active.exhausted) := by
        rw [Action.charge, GasTracker.charge_exceeded exceeded]
        exact ⟨_, rfl⟩
      refine ⟨total, bind_of_error ?_⟩
      rw [Run.onMachine, prepares, bind_of_error stopped]
      rfl
    · have covered := GasTracker.covered_of_brimming brimming (host.rules.schedule.compileCost code.size)
      have charged : Action.charge (host.rules.schedule.compileCost code.size) world.machine =
          .ok () (world.machine.setGas world.machine.gas.active.exhausted) := by
        rw [← GasTracker.spend_of_brimming brimming capped dear, Action.charge, GasTracker.charge_covered covered]
      rw [prepares]
      exact bind_of_ok charged

def allGas : UInt64 := Gas.capped Gas.most

def dear : Host Environment.silent :=
  scripted { GasSchedule.zero with storePerByte := 9223372036854775808, compilePerByte := 9223372036854775808 }
    (.done ()) (.done ())

def dearWorld (used : UInt64) : World Environment.silent :=
  ({ World.begun 0 with ledger := Ledger.addContract {} .zero [1, 1, 1] {} }).setGas { limit := allGas, used }

theorem dear_refused :
    (∃ total after, Storage.write dear.rules (dearWorld 1).ledger false [7] [8, 9] (dearWorld 1).machine =
      .error (.outOfGas total allGas) after) ∧
    ∃ total after, dear.execute (dear.callWithin 0) {} (dearWorld 1) =
      .error (.outOfGas total allGas) after := by
  obtain ⟨writes, compiles⟩ := dear_changes_refused dear
  have partly : ¬(dearWorld 1).machine.gas.active.Brimming := by
    rintro ⟨unused, -⟩
    cases unused
  refine ⟨?_, ?_⟩
  · have due : Storage.Due dear.rules (dearWorld 1).ledger false [7] [8, 9] (dearWorld 1).machine :=
      ⟨by decide +kernel, by decide +kernel⟩
    obtain ⟨refused, -⟩ := writes _ _ _ _ _ due (by decide +kernel) (by decide +kernel) (by decide +kernel)
    obtain ⟨total, after, ended, -⟩ := refused partly
    exact ⟨total, after, ended⟩
  · obtain ⟨refused, -⟩ := compiles (dear.callWithin 0) {} (dearWorld 1) [1, 1, 1] rfl
      (List.cons_ne_nil _ _) (by decide +kernel) (by decide +kernel)
    obtain ⟨total, ended⟩ := refused partly
    exact ⟨total, _, ended⟩

/-- With nothing used, both are done for less than they cost. -/
theorem dear_undercharged :
    (dearWorld 0).machine.gasLeft.toNat <
      Storage.duePrice dear.rules (dearWorld 0).ledger [7] [8, 9] (dearWorld 0).machine ∧
    outcome (Storage.write dear.rules (dearWorld 0).ledger false [7] [8, 9]) (dearWorld 0).machine =
      (.ok .added, (dearWorld 0).machine.recorded { cost := allGas, added := 2 } [7] [8, 9]) ∧
    (dearWorld 0).machine.gasLeft.toNat < dear.rules.schedule.compilePrice 3 ∧
    (outcome (dear.execute (dear.callWithin 0) {}) (dearWorld 0)).1 = .ok () ∧
    (outcome (dear.execute (dear.callWithin 0) {}) (dearWorld 0)).2.machine.gas.active =
      { limit := allGas, used := allGas } :=
  ⟨by decide +kernel, by decide +kernel, by decide +kernel, by decide +kernel, by decide +kernel⟩

end Host

end ContractHost
