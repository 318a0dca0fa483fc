import ContractHost.Proofs.FailedCall
import ContractHost.Proofs.Moments
import ContractHost.Proofs.StorageWrite

/-! Byte accounting. A write is counted against the content that it replaces, in whichever layer is active, and yet
what has been counted as added less what has been counted as deleted is at every moment the growth of the pending
cells over what the ledger holds. The counters are words: one that would pass the largest word falls instead, so
that nothing has been lost where no counter falls. -/

namespace ContractHost

/-- A counter of an account, zero to begin with and added up by merging. -/
structure Counter (counter : AccountChange → UInt64) : Prop where
  fresh (address : Address) : counter { address } = 0
  merged (first second : AccountChange) : counter (first.merge second) = counter first + counter second

private theorem Counter.added : Counter (·.bytesAdded) := ⟨fun _ => rfl, fun _ _ => rfl⟩

theorem Counter.deleted : Counter (·.bytesDeleted) := ⟨fun _ => rfl, fun _ _ => rfl⟩

namespace Output

variable {counter : AccountChange → UInt64}

def count (counter : AccountChange → UInt64) (output : Output) (address : Address) : UInt64 :=
  ((output.account? address).map counter).getD 0

private theorem count_account (counts : Counter counter) (output : Output) (address : Address) :
    counter (output.account address) = output.count counter address := by
  simp only [account, count]
  cases output.account? address with
  | none => exact counts.fresh address
  | some change => rfl

private theorem count_modifyAccount (output : Output) (address other : Address)
    (change : AccountChange → AccountChange) :
    (output.modifyAccount address change).count counter other =
      if other = address then counter (change (output.account address)) else output.count counter other := by
  simp only [count, account?_modifyAccount]
  split <;> rfl

private theorem count_merge (counts : Counter counter) (earlier later : Output) (address : Address) :
    (earlier.merge later).count counter address = earlier.count counter address + later.count counter address := by
  simp only [count, account?_merge]
  cases earlier.account? address with
  | none =>
    rw [Option.map_none, Option.getD_none, UInt64.zero_add]
    cases later.account? address <;> rfl
  | some before =>
    cases later.account? address with
    | none => exact (UInt64.add_zero _).symm
    | some after => exact counts.merged before after

end Output

namespace Layers

/-- What a counter of an account comes to over the visible layers. -/
def count (counter : AccountChange → UInt64) (layers : Layers) (address : Address) : Nat :=
  (layers.visible.map (fun output => (output.count counter address).toNat)).sum

def added (layers : Layers) (address : Address) : Nat := layers.count (·.bytesAdded) address

def deleted (layers : Layers) (address : Address) : Nat := layers.count (·.bytesDeleted) address

/-- No counter has fallen. -/
def Counted (before after : Layers) : Prop :=
  ∀ address, before.added address ≤ after.added address ∧ before.deleted address ≤ after.deleted address

end Layers

/-- By how much updates of an account make its storage grow. Lengths are words, as in the counters. -/
def Ledger.growth (ledger : Ledger) (address : Address) (updates : StorageUpdates) : Int :=
  updates.total (fun key update => (update.data.size.toNat : Int) - (ledger.stored address key).size.toNat)

namespace Layers

/-- The counters of an account tell the growth of its pending cells. -/
def Telescopes (ledger : Ledger) (layers : Layers) (address : Address) : Prop :=
  (layers.added address : Int) - layers.deleted address = ledger.growth address (layers.updates address)

/-- Nothing about the bytes of an account tells the layers apart. -/
structure SameBytes (address : Address) (before after : Layers) : Prop where
  added : after.added address = before.added address
  deleted : after.deleted address = before.deleted address
  updates : after.updates address = before.updates address

variable {counter : AccountChange → UInt64} {schedule : GasSchedule} {ledger : Ledger} {address : Address}

private theorem count_modifyAccount (counter : AccountChange → UInt64) (layers : Layers) (address other : Address)
    (change : AccountChange → AccountChange) :
    (layers.modifyAccount address change).count counter other + (layers.output.count counter other).toNat =
      layers.count counter other +
        (if other = address then counter (change (layers.output.account address))
          else layers.output.count counter other).toNat := by
  rw [← Output.count_modifyAccount]
  simp only [count, visible, modifyAccount, modifyOutput, Stacked.modify, List.map_cons, List.sum_cons, output]
  omega

private theorem count_unchanged (counts : Counter counter) (layers : Layers) (address other : Address)
    {change : AccountChange → AccountChange} (same : ∀ account, counter (change account) = counter account) :
    (layers.modifyAccount address change).count counter other = layers.count counter other := by
  have modified := count_modifyAccount counter layers address other change
  rw [same, Output.count_account counts] at modified
  split at modified
  next equal =>
    subst equal
    omega
  next => omega

namespace SameBytes

variable {before middle after : Layers}

theorem refl (layers : Layers) : SameBytes address layers layers := ⟨rfl, rfl, rfl⟩

theorem trans (first : SameBytes address before middle) (second : SameBytes address middle after) :
    SameBytes address before after :=
  ⟨second.added.trans first.added, second.deleted.trans first.deleted, second.updates.trans first.updates⟩

theorem written? (same : SameBytes address before after) (key : Bytes) :
    after.written? address key = before.written? address key := by
  rw [written?_updates, same.updates, written?_updates]

private theorem telescopes (same : SameBytes address before after) (telescopes : before.Telescopes ledger address) :
    after.Telescopes ledger address := by
  rw [Telescopes, same.added, same.deleted, same.updates]
  exact telescopes

private theorem modifyAccount (layers : Layers) (changed : Address) {change : AccountChange → AccountChange}
    (trailing : AccountChange.Trailing change)
    (added : ∀ account, (change account).bytesAdded = account.bytesAdded)
    (deleted : ∀ account, (change account).bytesDeleted = account.bytesDeleted)
    (updates : ∀ account, (change account).updates = account.updates) :
    SameBytes address layers (layers.modifyAccount changed change) where
  added := count_unchanged .added layers changed address added
  deleted := count_unchanged .deleted layers changed address deleted
  updates := by rw [updates_eq, flatten_modifyAccount trailing, Output.updates_unchanged _ _ _ updates, updates_eq]

private theorem credit (layers : Layers) (changed : Address) (amount : Int) :
    SameBytes address layers (layers.credit changed amount) :=
  modifyAccount layers changed (AccountChange.trailing_credit amount) (fun _ => rfl) (fun _ => rfl) (fun _ => rfl)

theorem perform (layers : Layers) {effect : Effect} {shown : Output} (quiet : effect.Quiet ledger shown) :
    SameBytes address layers (layers.perform effect) := by
  cases effect with
  | touch changed =>
    exact modifyAccount layers changed AccountChange.trailing_id (fun _ => rfl) (fun _ => rfl) (fun _ => rfl)
  | note changed balance =>
    exact modifyAccount layers changed (AccountChange.trailing_note balance) (fun _ => rfl) (fun _ => rfl)
      (fun _ => rfl)
  | transfer sender receiver value =>
    simp only [Layers.perform, transfer_eq]
    split
    next => exact .refl layers
    next => exact (credit layers sender _).trans (credit _ receiver _)
  | finish data => exact ⟨rfl, rfl, updates_quiet quiet layers address⟩
  | log entry => exact ⟨rfl, rfl, updates_quiet quiet layers address⟩
  | write changed key data => exact quiet.elim
  | count changed added deleted => exact quiet.elim

end SameBytes

/-- A counter that has not fallen has grown by exactly what was added to it. -/
theorem count_record (counts : Counter counter) (layers : Layers) {change : AccountChange → AccountChange}
    (address : Address) (amount : UInt64) (adds : ∀ account, counter (change account) = counter account + amount)
    (kept : layers.count counter address ≤ (layers.modifyAccount address change).count counter address) :
    (layers.modifyAccount address change).count counter address = layers.count counter address + amount.toNat := by
  have modified := count_modifyAccount counter layers address address change
  rw [if_pos rfl, adds, Output.count_account counts, UInt64.toNat_add] at modified
  have cell := (layers.output.count counter address).toNat_lt
  have added := amount.toNat_lt
  omega

/-- A write makes the pending cells grow by what it makes its own cell grow. -/
theorem growth_insert (layers : Layers) (ledger : Ledger) (address : Address) (key value : Bytes) :
    ledger.growth address ((layers.updates address).insert key ⟨key, value⟩) =
      ledger.growth address (layers.updates address) +
        ((value.size.toNat : Int) - (layers.content ledger address key).size.toNat) := by
  rw [Ledger.growth, SortedMap.total_insert, Ledger.growth, content, written?_eq, Output.written?_updates, updates_eq]
  dsimp only
  cases (layers.flatten.updates address).find? key with
  | none =>
    simp only [Option.map_none, Option.getD_none]
    omega
  | some pending =>
    simp only [Option.map_some, Option.getD_some]
    omega

theorem SameBytes.record (layers : Layers) (bill : StorageBill) (key value : Bytes) {recorded : Address}
    (distinct : address ≠ recorded) :
    SameBytes address layers (layers.modifyAccount recorded (·.record bill key value)) where
  added := by
    have modified := count_modifyAccount (·.bytesAdded) layers recorded address (·.record bill key value)
    rw [if_neg distinct] at modified
    exact Nat.add_right_cancel modified
  deleted := by
    have modified := count_modifyAccount (·.bytesDeleted) layers recorded address (·.record bill key value)
    rw [if_neg distinct] at modified
    exact Nat.add_right_cancel modified
  updates := by rw [updates_record, if_neg distinct]

private theorem Telescopes.record {layers : Layers} (telescopes : layers.Telescopes ledger address) (key value : Bytes)
    (added : layers.added address ≤ (layers.modifyAccount address
      (·.record (layers.bill schedule ledger address key value) key value)).added address)
    (deleted : layers.deleted address ≤ (layers.modifyAccount address
      (·.record (layers.bill schedule ledger address key value) key value)).deleted address) :
    (layers.modifyAccount address
      (·.record (layers.bill schedule ledger address key value) key value)).Telescopes ledger address := by
  have more := count_record .added layers address (layers.bill schedule ledger address key value).added
    (fun _ => rfl) added
  have less := count_record .deleted layers address (layers.bill schedule ledger address key value).deleted
    (fun _ => rfl) deleted
  have grown := growth_insert layers ledger address key value
  rw [bill, StorageBill.toNat_added] at more
  rw [bill, StorageBill.toNat_deleted] at less
  rw [Telescopes] at telescopes ⊢
  rw [updates_record, if_pos rfl, grown]
  simp only [Layers.added, Layers.deleted] at telescopes ⊢
  rw [bill]
  omega

variable {scope : Address → Prop} {before after : Layers}

/-- The bytes of an account that is not in scope stay as they are. -/
theorem Advances.outside (advances : Advances schedule ledger scope before after) (outside : ¬scope address) :
    SameBytes address before after := by
  induction advances with
  | stay => exact .refl _
  | quiet earlier effect right ih => exact (ih outside).trans (.perform _ right)
  | @record scope wider before middle recorded earlier _ inside widens key value ih =>
    have distinct : address ≠ recorded := by
      intro same
      rw [same] at outside
      exact outside inside
    exact (ih (fun member => outside (widens _ member))).trans (.record middle _ key value distinct)

/-- The one record of an account in scope is exact where no counter has fallen in the end. -/
theorem Advances.telescopes (advances : Advances schedule ledger scope before after)
    (added : before.added address ≤ after.added address) (deleted : before.deleted address ≤ after.deleted address)
    (telescopes : before.Telescopes ledger address) : after.Telescopes ledger address := by
  induction advances with
  | stay => exact telescopes
  | @quiet scope before middle earlier effect right ih =>
    have same : SameBytes address middle (middle.perform effect) := .perform middle right
    rw [same.added] at added
    rw [same.deleted] at deleted
    exact same.telescopes (ih added deleted telescopes)
  | @record scope wider before middle recorded earlier outside inside widens key value ih =>
    by_cases mine : address = recorded
    · subst mine
      have same := earlier.outside outside
      rw [← same.added] at added
      rw [← same.deleted] at deleted
      exact (same.telescopes telescopes).record key value added deleted
    · have same : SameBytes address middle _ :=
        .record middle (middle.bill schedule ledger recorded key value) key value mine
      rw [same.added] at added
      rw [same.deleted] at deleted
      exact same.telescopes (ih added deleted telescopes)

theorem SameBytes.enter (layers : Layers) (isolated : Bool) :
    SameBytes address layers (layers.step (.enter isolated)) := by
  have updates : (layers.step (.enter isolated)).updates address = layers.updates address := by
    rw [updates_eq, flatten_enter, updates_eq]
  cases isolated with
  | false => exact ⟨rfl, rfl, updates⟩
  | true => exact ⟨Nat.zero_add _, Nat.zero_add _, updates⟩

private theorem visible_keep {layers : Layers} (continues : layers.active.isolated = false) :
    layers.keep.visible = layers.visible := by
  obtain ⟨⟨output, isolated⟩, saved⟩ := layers
  cases continues
  cases saved <;> rfl

theorem SameBytes.keep {layers : Layers} (continues : layers.active.isolated = false) :
    SameBytes address layers layers.keep where
  added := by rw [Layers.added, count, visible_keep continues]; rfl
  deleted := by rw [Layers.deleted, count, visible_keep continues]; rfl
  updates := by rw [Layers.updates, visible_keep continues]; rfl

/-- Merging keeps what a counter comes to where the counter of the layer beneath has not fallen. -/
theorem count_merge (counts : Counter counter) {layers : Layers}
    (kept : layers.active.isolated = true →
      layers.revert.count counter address ≤ layers.merge.count counter address) :
    layers.merge.count counter address = layers.count counter address := by
  obtain ⟨⟨output, isolated⟩, saved⟩ := layers
  cases saved with
  | nil => rfl
  | cons latest older =>
    cases isolated with
    | false => rfl
    | true =>
      have kept := kept rfl
      simp only [count, visible, merge, revert, Stacked.restore, Stacked.restoreWith, beneath, if_true, List.map_cons,
        List.sum_cons, Output.count_merge counts, UInt64.toNat_add] at kept ⊢
      have below := (latest.output.count counter address).toNat_lt
      have above := (output.count counter address).toNat_lt
      omega

private theorem count_revert {layers : Layers} (isolated : layers.active.isolated = true) :
    layers.revert.count counter address ≤ layers.count counter address := by
  obtain ⟨⟨output, isolated⟩, saved⟩ := layers
  cases isolated
  cases saved with
  | nil => exact Nat.le_refl _
  | cons latest older => exact Nat.le_add_left _ _

theorem SameBytes.merge {layers : Layers}
    (added : layers.active.isolated = true → layers.revert.added address ≤ layers.merge.added address)
    (deleted : layers.active.isolated = true → layers.revert.deleted address ≤ layers.merge.deleted address) :
    SameBytes address layers layers.merge where
  added := count_merge .added added
  deleted := count_merge .deleted deleted
  updates := by rw [updates_eq, flatten_merge, updates_eq]

end Layers

/-- Nothing is written before the code of a callee starts. -/
theorem Moment.Into.sameBytes {environment : Environment} {host : Host environment} {before start : Moment environment}
    (step : Moment.Into host before start) (address : Address) :
    Layers.SameBytes address before.layers start.layers := by
  cases step with
  | @call _ context _ _ _ _ _ descends =>
    refine Layers.SameBytes.trans ?_ ((host.descend_advances descends).2.outside id)
    cases context <;> exact .enter _ _

private theorem Ledger.growth_congr {first second : Ledger} (same : second.accounts = first.accounts)
    (address : Address) (updates : StorageUpdates) : second.growth address updates = first.growth address updates := by
  simp only [growth, stored, account?, same]

private theorem Layers.telescoping_invariant (schedule : GasSchedule) :
    RunInvariant schedule Layers.Counted (fun ledger layers => ∀ address, layers.Telescopes ledger address) where
  accounts same telescopes address := by
    rw [Telescopes, Ledger.growth_congr same]
    exact telescopes address
  quiet advances telescopes address :=
    (advances.outside id).telescopes (telescopes address)
  advance advances counted telescopes address :=
    advances.telescopes (counted address).1 (counted address).2 (telescopes address)
  enter context telescopes address := by
    cases context <;> exact (SameBytes.enter _ _).telescopes (telescopes address)
  leave {ledger before inside context} framed counted telescopes address := by
    cases context with
    | same => exact (SameBytes.keep framed.2).telescopes (telescopes address)
    | destination =>
      rw [← framed.revert] at counted
      exact (SameBytes.merge (fun _ => (counted address).1) (fun _ => (counted address).2)).telescopes (telescopes address)

/-- The layers that writes lead to, of any account and whether they succeed or fail, among frames of both kinds that
are opened and closed in any way. Token balances are written like anything else, with the protected keys open. No
counter falls on the way. -/
inductive Session (rules : Rules) (ledger : Ledger) : List Bool → Layers → Prop where
  | start : Session rules ledger [] .start
  | write {frames : List Bool} {machine : Machine} (before : Session rules ledger frames machine.layers)
      (readOnly : Bool) (key value : Bytes)
      (counted : machine.layers.Counted
        (outcome (Storage.write rules ledger readOnly key value) machine).2.layers) :
      Session rules ledger frames (outcome (Storage.write rules ledger readOnly key value) machine).2.layers
  | enter {frames : List Bool} {layers : Layers} (before : Session rules ledger frames layers) (isolated : Bool) :
      Session rules ledger (isolated :: frames) (layers.step (.enter isolated))
  | revert {frames : List Bool} {frame : Bool} {layers : Layers} (before : Session rules ledger (frame :: frames) layers) :
      Session rules ledger frames layers.revert
  | merge {frames : List Bool} {frame : Bool} {layers : Layers} (before : Session rules ledger (frame :: frames) layers)
      (counted : layers.Counted layers.merge) : Session rules ledger frames layers.merge
  | keep {frames : List Bool} {layers : Layers} (before : Session rules ledger (false :: frames) layers) :
      Session rules ledger frames layers.keep

namespace Session

/-- The counters tell the growth at the active layer and would do so again at each one that is gone back to. -/
def Telescopes (ledger : Ledger) (active : Layer) : List Layer → Prop
  | [] => ∀ address, Layers.Telescopes ledger ⟨active, []⟩ address
  | latest :: older => (∀ address, Layers.Telescopes ledger ⟨active, latest :: older⟩ address) ∧
      Telescopes ledger latest older

private theorem Telescopes.top {ledger : Ledger} {active : Layer} {saved : List Layer}
    (telescopes : Telescopes ledger active saved) (address : Address) :
    Layers.Telescopes ledger ⟨active, saved⟩ address := by
  cases saved with
  | nil => exact telescopes address
  | cons latest older => exact telescopes.1 address

/-- What is done to the active layer leaves the ones beneath as they were. -/
theorem Telescopes.change {ledger : Ledger} {active changed : Layer} {saved : List Layer}
    (telescopes : Telescopes ledger active saved)
    (top : ∀ address, Layers.Telescopes ledger ⟨changed, saved⟩ address) : Telescopes ledger changed saved := by
  cases saved with
  | nil => exact top
  | cons latest older => exact ⟨top, telescopes.2⟩

variable {rules : Rules} {ledger : Ledger} {frames : List Bool} {layers : Layers}

private theorem write_advances (rules : Rules) (ledger : Ledger) (machine : Machine) (readOnly : Bool)
    (key value : Bytes) :
    Layers.Advances rules.schedule ledger (Layers.only machine.storageAddress) machine.layers
      (outcome (Storage.write rules ledger readOnly key value) machine).2.layers :=
  (Storage.write_leaves readOnly key value machine).state

private theorem opened (session : Session rules ledger frames layers) : Layers.Opened frames layers := by
  induction session with
  | start => rfl
  | @write frames machine before readOnly key value counted ih =>
    obtain ⟨saved, isolated⟩ := (write_advances rules ledger machine readOnly key value).frame
    rw [Layers.Opened, saved, isolated]
    exact ih
  | enter before isolated ih => exact ih.step rfl
  | @revert frames frame layers before ih =>
    have reverted : Layers.Opened frames (layers.step .revert) := ih.step rfl
    exact reverted
  | @merge frames frame layers before counted ih =>
    have merged : Layers.Opened frames (layers.step .merge) := ih.step rfl
    exact merged
  | @keep frames layers before ih =>
    have kept : Layers.Opened frames (layers.step .keep) := ih.step rfl
    exact kept

private theorem telescopes (session : Session rules ledger frames layers) :
    Telescopes ledger layers.active layers.saved := by
  induction session with
  | start => exact fun _ => rfl
  | @write frames machine before readOnly key value counted ih =>
    have advanced := write_advances rules ledger machine readOnly key value
    generalize (outcome (Storage.write rules ledger readOnly key value) machine).2.layers = after at counted advanced
    have top (address : Address) : after.Telescopes ledger address :=
      advanced.telescopes (counted address).1 (counted address).2 (ih.top address)
    obtain ⟨saved, -⟩ := advanced.frame
    rw [saved]
    refine ih.change ?_
    rw [← saved]
    exact top
  | enter before isolated ih =>
    have top (address : Address) := (Layers.SameBytes.enter _ isolated).telescopes (ih.top address)
    cases isolated <;> exact ⟨top, ih⟩
  | @revert frames frame layers before ih =>
    obtain ⟨active, saved⟩ := layers
    obtain ⟨-, latest, older, rfl, -⟩ := before.opened.beneath
    exact ih.2
  | @merge frames frame layers before counted ih =>
    obtain ⟨active, saved⟩ := layers
    obtain ⟨-, latest, older, rfl, -⟩ := before.opened.beneath
    refine ih.2.change ?_
    intro address
    refine (Layers.SameBytes.merge (fun isolated => ?_) (fun isolated => ?_)).telescopes (ih.top address)
    · exact Nat.le_trans (Layers.count_revert isolated) (counted address).1
    · exact Nat.le_trans (Layers.count_revert isolated) (counted address).2
  | @keep frames layers before ih =>
    obtain ⟨active, saved⟩ := layers
    obtain ⟨continues, latest, older, rfl, -⟩ := before.opened.beneath
    refine ih.2.change ?_
    intro address
    exact (Layers.SameBytes.keep continues).telescopes (ih.top address)

end Session

/-- At the bottom what is told of an account is what its change says. -/
theorem Layers.Telescopes.change {ledger : Ledger} {layers : Layers} (bottom : Layers.start.Framed layers)
    {address : Address} {change : AccountChange} (changed : layers.output.account? address = some change)
    (telescopes : layers.Telescopes ledger address) :
    (change.bytesAdded.toNat : Int) - change.bytesDeleted.toNat = ledger.growth address change.updates := by
  obtain ⟨⟨output, isolated⟩, saved⟩ := layers
  obtain ⟨bottom, -⟩ := bottom
  change saved = [] at bottom
  subst bottom
  change output.account? address = some change at changed
  have counts (counter : AccountChange → UInt64) :
      Layers.count counter ⟨⟨output, isolated⟩, []⟩ address = (counter change).toNat := by
    change (output.count counter address).toNat + 0 = _
    rw [Output.count, changed]
    rfl
  have updates : Layers.updates ⟨⟨output, isolated⟩, []⟩ address = change.updates := by
    change SortedMap.empty.union (fun _ later => later) (updatesIn output address) = _
    rw [SortedMap.empty_union, updatesIn, changed]
    rfl
  rw [Telescopes, added, deleted, counts, counts, updates] at telescopes
  exact telescopes

/-- However the writes of a session fall among its frames, and at every moment of a transaction on a ledger that
stays as it is, the bytes counted as added less those counted as deleted are the growth of the pending cells; the
output of the transaction says so of every account. -/
theorem Host.byte_counts_tell_growth {environment : Environment} (host : Host environment) :
    (∀ ledger frames layers, Session host.rules ledger frames layers → ∀ address,
      (layers.added address : Int) - layers.deleted address = ledger.growth address (layers.updates address)) ∧
    ∀ input world,
      (∀ moment, host.Visits input world moment → moment.ledger.accounts = world.ledger.accounts) →
      (∀ before after, host.Visits input world before → Moment.Over host before after →
        before.layers.Counted after.layers) →
      (∀ moment, host.Visits input world moment → ∀ address,
        (moment.layers.added address : Int) - moment.layers.deleted address =
          world.ledger.growth address (moment.layers.updates address)) ∧
      ∀ address change, (host.run input world).1.account? address = some change →
        (change.bytesAdded.toNat : Int) - change.bytesDeleted.toNat = world.ledger.growth address change.updates := by
  refine ⟨fun ledger frames layers session => session.telescopes.top, fun input world steady counted => ?_⟩
  have telescopes {moment : Moment environment} (visited : host.Visits input world moment) :
      ∀ address, moment.layers.Telescopes world.ledger address :=
    (Layers.telescoping_invariant host.rules.schedule).visits steady counted (fun _ => rfl) visited
  refine ⟨fun moment visited => telescopes visited, fun address change changed => ?_⟩
  rcases host.run_cases input world with ⟨failure, failed⟩ | ⟨moment, visited, bottom, -, remaining, refund, result⟩
  · rw [failed] at changed
    cases changed
  · rw [result] at changed
    exact (telescopes visited address).change bottom changed

/-- A transaction that writes one cell has its first moment with nothing counted, and one more. -/
theorem Host.writing_counted (before after : Moment Environment.silent)
    (visited : writing.Visits { gas := 10 } deployed before) (across : Moment.Over writing before after) :
    before.layers.Counted after.layers := by
  obtain ⟨body, inside, opens, reached⟩ := visited
  have computed : writing.opening { gas := 10 } { deployed with machine := deployed.machine.begin { gas := 10 } } =
      .ok (.request (.store [7] [8]) (fun _ => .done ())) started := rfl
  rw [computed] at opens
  cases opens
  rcases Relation.ReflTransGen.cases_head reached with rfl | ⟨next, step, further⟩
  · exact fun address => ⟨Nat.zero_le _, Nat.zero_le _⟩
  · rcases step with step | step
    · cases step
      rcases Relation.ReflTransGen.cases_head further with rfl | ⟨last, step, -⟩
      · cases across
      · rcases step with step | step <;> cases step
    · cases step

theorem Host.writing_counts_a_byte :
    (∃ layers, Session writing.rules deployed.ledger [] layers ∧ layers.added .zero = 1 ∧
      (layers.added .zero : Int) - layers.deleted .zero = deployed.ledger.growth .zero (layers.updates .zero)) ∧
    ∃ change, (writing.run { gas := 10 } deployed).1.account? .zero = some change ∧ change.bytesAdded = 1 ∧
      (change.bytesAdded.toNat : Int) - change.bytesDeleted.toNat = deployed.ledger.growth .zero change.updates := by
  obtain ⟨sessions, runs⟩ := byte_counts_tell_growth writing
  refine ⟨?_, ?_⟩
  · let framed : Machine := { started.machine with layers := Layers.start.step (.enter false) }
    have opened : Session writing.rules deployed.ledger [false] framed.layers := Session.start.enter false
    have session := (opened.write false [7] [8] (fun address => ⟨Nat.zero_le _, Nat.zero_le _⟩)).keep
    exact ⟨_, session, by decide +kernel, sessions _ _ _ session .zero⟩
  · have written : ((writing.run { gas := 10 } deployed).1.account? .zero).map (·.bytesAdded) = some 1 := by
      decide +kernel
    obtain ⟨change, changed, added⟩ := Option.map_eq_some_iff.mp written
    refine ⟨change, changed, added, ?_⟩
    exact (runs { gas := 10 } deployed (fun _ visited => congrArg Ledger.accounts (writing.visits_ledger visited))
      writing_counted).2 .zero change changed

end ContractHost
