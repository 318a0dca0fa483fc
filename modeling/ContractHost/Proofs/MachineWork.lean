import ContractHost.Proofs.LayerProgress
import ContractHost.Token

/-! The work of an operation. Whatever running code asks for, short of a nested call, is put together from a few
changes to the machine: gas is charged, something is noted in the output, a cell is written and paid for. Work says
which cells may have been written, and puts back in the end what it has moved aside: the account in scope, the
protection of its keys, the layer that a token transfer works in. -/

namespace ContractHost

namespace GasTracker

/-- Gas has been used or noted as freed, within the limit. -/
structure Runs (before after : GasTracker) : Prop where
  limit : after.limit = before.limit
  used : before.used.toNat ≤ before.limit.toNat →
    before.used.toNat ≤ after.used.toNat ∧ after.used.toNat ≤ after.limit.toNat
  freed : before.freed.toNat ≤ after.freed.toNat

theorem Runs.refl (tracker : GasTracker) : tracker.Runs tracker where
  limit := rfl
  used fits := ⟨Nat.le_refl _, fits⟩
  freed := Nat.le_refl _

theorem Runs.trans {before middle after : GasTracker} (first : before.Runs middle) (second : middle.Runs after) :
    before.Runs after where
  limit := second.limit.trans first.limit
  used fits := by
    obtain ⟨grown, held⟩ := first.used fits
    obtain ⟨more, still⟩ := second.used held
    exact ⟨Nat.le_trans grown more, still⟩
  freed := Nat.le_trans first.freed second.freed

def spend (tracker : GasTracker) (amount : UInt64) : GasTracker := { tracker with used := tracker.used + amount }

def exhausted (tracker : GasTracker) : GasTracker := { tracker with used := tracker.limit }

theorem charge_covered {tracker : GasTracker} {amount : UInt64}
    (covered : tracker.used.toNat + amount.toNat ≤ tracker.limit.toNat) :
    tracker.charge amount = (.ok (), tracker.spend amount) := by
  simp only [charge, if_pos covered, spend]

theorem charge_exceeded {tracker : GasTracker} {amount : UInt64}
    (exceeded : tracker.limit.toNat < tracker.used.toNat + amount.toNat) :
    tracker.charge amount =
      (.error (.outOfGas (Gas.capped (tracker.used.toNat + amount.toNat)) tracker.limit), tracker.exhausted) := by
  simp only [charge, if_neg (Nat.not_le.mpr exceeded), exhausted]

@[simp] theorem freed_charge (tracker : GasTracker) (amount : UInt64) :
    (tracker.charge amount).2.freed = tracker.freed := by
  simp only [charge]
  split <;> rfl

@[simp] theorem limit_charge (tracker : GasTracker) (amount : UInt64) :
    (tracker.charge amount).2.limit = tracker.limit := by
  simp only [charge]
  split <;> rfl

theorem toNat_spend {tracker : GasTracker} {amount : UInt64}
    (covered : tracker.used.toNat + amount.toNat ≤ tracker.limit.toNat) :
    (tracker.spend amount).used.toNat = tracker.used.toNat + amount.toNat := by
  have bound := tracker.limit.toNat_lt
  rw [spend, UInt64.toNat_add]
  omega

theorem runs_charge (tracker : GasTracker) (amount : UInt64) : tracker.Runs (tracker.charge amount).2 := by
  refine ⟨limit_charge tracker amount, ?_, Nat.le_of_eq (congrArg UInt64.toNat (freed_charge tracker amount).symm)⟩
  intro fits
  rcases Nat.lt_or_ge tracker.limit.toNat (tracker.used.toNat + amount.toNat) with exceeded | covered
  · rw [charge_exceeded exceeded]
    exact ⟨fits, Nat.le_refl _⟩
  · rw [charge_covered covered, toNat_spend covered]
    exact ⟨Nat.le_add_right _ _, covered⟩

theorem runs_free (tracker : GasTracker) (amount : UInt64) : tracker.Runs (tracker.free amount) where
  limit := rfl
  used fits := ⟨Nat.le_refl _, fits⟩
  freed := by
    have bound := tracker.freed.toNat_lt
    rw [free, Gas.toNat_add, Gas.most, UInt64.size]
    omega

theorem toNat_gasLeft {tracker : GasTracker} (fits : tracker.used.toNat ≤ tracker.limit.toNat) :
    tracker.gasLeft.toNat = tracker.limit.toNat - tracker.used.toNat :=
  UInt64.toNat_sub_of_le _ _ (UInt64.le_iff_toNat_le.mpr fits)

/-- What a nested call has not used is never more than what was set aside for it. -/
theorem toNat_absorb {reserved child : GasTracker} (fits : child.used.toNat ≤ child.limit.toNat)
    (covered : child.limit.toNat ≤ reserved.used.toNat) :
    child.gasLeft.toNat ≤ reserved.used.toNat ∧
      (reserved.absorb child).used.toNat = reserved.used.toNat - child.gasLeft.toNat := by
  have returned := toNat_gasLeft fits
  refine ⟨by omega, ?_⟩
  rw [absorb, restore, free, Gas.toNat_sub]

theorem Runs.absorb {tracker reserved child : GasTracker} (runs : tracker.Runs reserved)
    (fits : child.used.toNat ≤ child.limit.toNat)
    (covered : tracker.used.toNat + child.limit.toNat ≤ reserved.used.toNat) : tracker.Runs (reserved.absorb child) where
  limit := runs.limit
  used held := by
    obtain ⟨-, within⟩ := runs.used held
    obtain ⟨-, used⟩ := toNat_absorb fits (Nat.le_trans (Nat.le_add_left _ _) covered)
    have returned := toNat_gasLeft fits
    have limit : (reserved.absorb child).limit = reserved.limit := rfl
    rw [used, limit]
    omega
  freed := Nat.le_trans runs.freed (runs_free _ child.freed).freed

end GasTracker

/-- Cells that may be written, each with what may be written to it. -/
abbrev Footprint := Address → Bytes → Bytes → Prop

namespace Footprint

def nothing : Footprint := fun _ _ _ => False

def cell (address : Address) (key value : Bytes) : Footprint := fun other held content =>
  other = address ∧ held = key ∧ content = value

def either (first second : Footprint) : Footprint := fun address key value =>
  first address key value ∨ second address key value

def accounts (footprint : Footprint) : Address → Prop := fun address => ∃ key value, footprint address key value

end Footprint

/-- Nothing of value is moved. -/
def Effect.Idle : Effect → Prop
  | .transfer _ _ value => value = 0
  | _ => True

namespace Machine

/-- A write that has been paid for and entered in the record of the account in scope. -/
def recorded (machine : Machine) (bill : StorageBill) (key value : Bytes) : Machine :=
  (machine.setGas ((machine.gas.active.charge bill.cost).2.free bill.freed)).mapLayers
    (·.modifyAccount machine.storageAddress (·.record bill key value))

/-- The account in scope has been looked at. -/
def touched (machine : Machine) : Machine := machine.mapLayers (·.touch machine.storageAddress)

theorem touched_touched (machine : Machine) : machine.touched.touched = machine.touched :=
  congrArg (fun layers => { machine with layers }) (Layers.modifyAccount_modifyAccount machine.layers _ id id)

theorem recorded_touched (machine : Machine) (bill : StorageBill) (key value : Bytes) :
    machine.touched.recorded bill key value = machine.recorded bill key value :=
  congrArg (fun layers => { machine.recorded bill key value with layers })
    (Layers.modifyAccount_modifyAccount machine.layers _ id (·.record bill key value))

theorem touched_recorded (machine : Machine) (bill : StorageBill) (key value : Bytes) :
    (machine.recorded bill key value).touched = machine.recorded bill key value :=
  congrArg (fun layers => { machine.recorded bill key value with layers })
    (Layers.modifyAccount_modifyAccount machine.layers _ (·.record bill key value) id)

/-- Changes one after another, no account being written to by two of them. In read-only mode no funds are moved. -/
inductive Works (rules : Rules) (ledger : Ledger) : Footprint → Machine → Machine → Prop where
  | stay (machine : Machine) : Works rules ledger .nothing machine machine
  | widen {footprint wider : Footprint} {before after : Machine} (works : Works rules ledger footprint before after)
      (widens : ∀ address key value, footprint address key value → wider address key value) :
      Works rules ledger wider before after
  | trans {footprint other : Footprint} {before middle after : Machine}
      (first : Works rules ledger footprint before middle) (second : Works rules ledger other middle after)
      (apart : ∀ address, other.accounts address → ¬footprint.accounts address) :
      Works rules ledger (footprint.either other) before after
  | charge (machine : Machine) (amount : UInt64) :
      Works rules ledger .nothing machine (machine.setGas (machine.gas.active.charge amount).2)
  | quiet (machine : Machine) (effect : Effect) (right : effect.Quiet ledger machine.layers.flatten)
      (idle : machine.readOnly = true → effect.Idle) :
      Works rules ledger .nothing machine (machine.mapLayers (·.perform effect))
  | write (machine : Machine) (key value : Bytes) :
      Works rules ledger (.cell machine.storageAddress key value) machine
        (machine.recorded (machine.layers.bill rules.schedule ledger machine.storageAddress key value) key value)
  | unprotected {footprint : Footprint} {machine after : Machine}
      (works : Works rules ledger footprint (machine.setProtection false) after) :
      Works rules ledger footprint machine (after.setProtection true)
  | within {footprint : Footprint} {machine after : Machine} (address : Address)
      (works : Works rules ledger footprint (machine.setStorageAddress address) after) :
      Works rules ledger footprint machine (after.setStorageAddress machine.storageAddress)
  | kept {footprint : Footprint} {machine after : Machine}
      (works : Works rules ledger footprint (machine.mapLayers Layers.continued) after) :
      Works rules ledger footprint machine (after.mapLayers Layers.keep)

/-- Everything that belongs to the callers has stayed, and so has what the running call is about. -/
structure Kept (before after : Machine) : Prop where
  address : after.storageAddress = before.storageAddress
  closed : before.isProtected = true → after.isProtected = true
  scopes : after.scopes.saved = before.scopes.saved
  layers : before.layers.Framed after.layers
  gas : before.gas.active.Runs after.gas.active
  trackers : after.gas.saved = before.gas.saved
  input : after.input = before.input
  frames : after.frames.saved = before.frames.saved
  calls : after.calls = before.calls

theorem Kept.refl (machine : Machine) : machine.Kept machine :=
  ⟨rfl, id, rfl, .refl _, .refl _, rfl, rfl, rfl, rfl⟩

theorem Kept.trans {before middle after : Machine} (first : before.Kept middle) (second : middle.Kept after) :
    before.Kept after where
  address := second.address.trans first.address
  closed := second.closed ∘ first.closed
  scopes := second.scopes.trans first.scopes
  layers := first.layers.trans second.layers
  gas := first.gas.trans second.gas
  trackers := second.trackers.trans first.trackers
  input := second.input.trans first.input
  frames := second.frames.trans first.frames
  calls := second.calls.trans first.calls

theorem Kept.setGas {machine : Machine} {tracker : GasTracker} (runs : machine.gas.active.Runs tracker) :
    machine.Kept (machine.setGas tracker) :=
  ⟨rfl, id, rfl, .refl _, runs, rfl, rfl, rfl, rfl⟩

private theorem Kept.setLayers {machine : Machine} {layers : Layers} (framed : machine.layers.Framed layers) :
    machine.Kept { machine with layers } :=
  ⟨rfl, id, rfl, framed, .refl _, rfl, rfl, rfl, rfl⟩

private theorem Kept.recorded (machine : Machine) (bill : StorageBill) (key value : Bytes) :
    machine.Kept (machine.recorded bill key value) :=
  have runs := (machine.gas.active.runs_charge bill.cost).trans (GasTracker.runs_free _ bill.freed)
  ⟨rfl, id, rfl, ⟨rfl, rfl⟩, runs, rfl, rfl, rfl, rfl⟩

namespace Works

variable {rules : Rules} {ledger : Ledger} {footprint other : Footprint} {before middle after : Machine}

theorem anywhere (works : Works rules ledger .nothing before after) : Works rules ledger footprint before after :=
  works.widen (fun _ _ _ absurd => absurd.elim)

theorem then_quietly (first : Works rules ledger footprint before middle)
    (second : Works rules ledger .nothing middle after) : Works rules ledger footprint before after := by
  refine (first.trans second ?_).widen ?_
  · intro address absurd
    obtain ⟨_, _, absurd⟩ := absurd
    exact absurd.elim
  · exact fun _ _ _ cell => cell.elim id False.elim

theorem after_quiet (first : Works rules ledger .nothing before middle)
    (second : Works rules ledger footprint middle after) : Works rules ledger footprint before after := by
  refine (first.trans second ?_).widen ?_
  · intro address _ absurd
    obtain ⟨_, _, absurd⟩ := absurd
    exact absurd.elim
  · exact fun _ _ _ cell => cell.elim False.elim id

/-- Faults of the ledger are not what work depends on. -/
theorem of_later (works : Works rules ledger.later footprint before after) :
    Works rules ledger footprint before after := by
  induction works with
  | stay machine => exact .stay machine
  | widen works widens ih => exact ih.widen widens
  | trans first second apart before between => exact before.trans between apart
  | charge machine amount => exact .charge machine amount
  | quiet machine effect right idle => exact .quiet machine effect right idle
  | write machine key value => exact .write machine key value
  | unprotected works ih => exact .unprotected ih
  | within address works ih => exact .within address ih
  | kept works ih => exact .kept ih

theorem touch (machine : Machine) (address : Address) :
    Works rules ledger .nothing machine (machine.mapLayers (·.touch address)) :=
  .quiet machine (.touch address) trivial (fun _ => trivial)

private theorem keep_continued (layers : Layers) : layers.continued.keep = layers := by
  simp only [Layers.continued, Stacked.push, Layers.keep, Bool.false_or]

theorem advances (works : Works rules ledger footprint before after) :
    Layers.Advances rules.schedule ledger footprint.accounts before.layers after.layers := by
  induction works with
  | stay | charge => exact .stay
  | @widen footprint wider before after works widens ih =>
    refine ih.widen ?_
    intro address member
    obtain ⟨key, value, cell⟩ := member
    exact ⟨key, value, widens address key value cell⟩
  | trans first second apart before between =>
    refine (before.trans between apart).widen ?_
    intro address member
    rcases member with ⟨key, value, cell⟩ | ⟨key, value, cell⟩
    · exact ⟨key, value, .inl cell⟩
    · exact ⟨key, value, .inr cell⟩
  | quiet machine effect right idle => exact Layers.Advances.stay.quiet effect right
  | write machine key value =>
    refine (Layers.Advances.single machine.storageAddress key value).widen ?_
    intro address mine
    exact ⟨key, value, mine, rfl, rfl⟩
  | unprotected works ih => exact ih
  | within address works ih => exact ih
  | @kept footprint machine after works ih =>
    have kept : Layers.Advances _ _ _ machine.layers.continued.keep after.layers.keep := ih.keep rfl
    rwa [keep_continued] at kept

theorem kept_all (works : Works rules ledger footprint before after) : before.Kept after := by
  induction works with
  | stay machine => exact .refl machine
  | widen works widens ih => exact ih
  | trans first second apart before between => exact before.trans between
  | charge machine amount => exact .setGas (GasTracker.runs_charge _ amount)
  | quiet machine effect right idle => exact .setLayers (Layers.perform_frame machine.layers effect)
  | write machine key value => exact .recorded machine _ key value
  | unprotected works ih => exact { ih with closed := fun _ => rfl }
  | within address works ih => exact { ih with address := rfl }
  | @kept footprint machine after works ih =>
    have inside : (machine.layers.step Context.same.entering).Framed after.layers := ih.layers
    have framed : machine.layers.Framed after.layers.keep := inside.leave true
    exact { ih with layers := framed }

theorem frames (works : Works rules ledger footprint before after) : after.frames = before.frames := by
  induction works with
  | stay | charge | quiet | write => rfl
  | widen works widens ih => exact ih
  | trans first second apart before between => exact between.trans before
  | unprotected works ih => exact ih
  | within address works ih => exact ih
  | kept works ih => exact ih

theorem readOnly (works : Works rules ledger footprint before after) : after.readOnly = before.readOnly := by
  rw [Machine.readOnly, works.frames]
  rfl

theorem written? (works : Works rules ledger footprint before after) {address : Address} {key : Bytes}
    (outside : ∀ value, ¬footprint address key value) :
    after.layers.written? address key = before.layers.written? address key := by
  induction works with
  | stay | charge => rfl
  | widen works widens ih => exact ih (fun value cell => outside value (widens _ _ value cell))
  | trans first second apart before between =>
    refine (between ?_).trans (before ?_)
    · exact fun value cell => outside value (.inr cell)
    · exact fun value cell => outside value (.inl cell)
  | quiet machine effect right idle => exact Layers.written?_quiet right machine.layers address key
  | write machine cell value =>
    refine (Layers.written?_record machine.layers _ address _ cell key value).trans (if_neg ?_)
    intro mine
    exact outside value ⟨mine.1, mine.2, rfl⟩
  | unprotected works ih => exact ih outside
  | within address works ih => exact ih outside
  | @kept footprint machine after works ih =>
    have continues : after.layers.active.isolated = false := works.kept_all.layers.2
    have same := ih outside
    rw [Layers.written?_eq, Layers.written?_eq] at same ⊢
    change after.layers.keep.flatten.written? address key = _
    rw [Layers.flatten_keep after.layers continues]
    exact same

theorem content (works : Works rules ledger footprint before after) {address : Address} {key : Bytes}
    (outside : ∀ value, ¬footprint address key value) (held : Ledger) :
    after.layers.content held address key = before.layers.content held address key := by
  simp only [Layers.content, works.written? outside]

end Works

/-- Work that was undone: the output shows what it did when nothing had been written yet. The gas is spent, and what
has been noted as freed stays noted. -/
structure Undone (rules : Rules) (ledger : Ledger) (before after : Machine) : Prop where
  kept : before.Kept after
  frames : after.frames = before.frames
  layers : ∃ middle, Works rules ledger .nothing before middle ∧ after.layers = middle.layers

theorem Works.undone {rules : Rules} {ledger : Ledger} {before after : Machine}
    (works : Works rules ledger .nothing before after) : Undone rules ledger before after :=
  ⟨works.kept_all, works.frames, after, works, rfl⟩

end Machine

end ContractHost
