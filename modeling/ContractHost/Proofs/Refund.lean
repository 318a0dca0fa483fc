import ContractHost.Proofs.AccountSums
import ContractHost.Proofs.ByteAccounting
import ContractHost.Proofs.RunTally

/-! Refunds. Gas is freed on a tracker by the write that deletes bytes in an output layer, and both stacks are merged,
dropped or gone back to together when a nested call comes back. What is freed is therefore the price of the bytes that
count as deleted, save for one case: a token transfer that fails half way goes back in its output, but not on its
tracker, and what its debit has freed is stranded there. -/

namespace ContractHost

variable {environment : Environment}

namespace Layers

/-- The bytes counted as deleted over the visible layers and all accounts. -/
noncomputable def deletedTotal (layers : Layers) : Nat := ∑ᶠ address, layers.deleted address

private theorem deletedTotal_congr {before after : Layers} (same : ∀ address, SameBytes address before after) :
    after.deletedTotal = before.deletedTotal :=
  finsum_congr (fun address => (same address).deleted)

private theorem finite_deleted (layers : Layers) : (Function.support layers.deleted).Finite := by
  have finite : ∀ outputs : List Output,
      (Function.support (fun address =>
        (outputs.map (fun output => (output.count (·.bytesDeleted) address).toNat)).sum)).Finite := by
    intro outputs
    induction outputs with
    | nil => simp
    | cons output outputs ih =>
      refine (output.accounts.finite_keys.union ih).subset ?_
      intro address contributes
      rw [Function.mem_support, List.map_cons, List.sum_cons] at contributes
      by_cases known : (output.accounts.find? address).isSome
      · exact .inl known
      · have none : output.account? address = none := Option.not_isSome_iff_eq_none.mp known
        rw [Output.count, none] at contributes
        refine .inr (fun nothing => contributes ?_)
        change 0 + _ = 0
        rw [Nat.zero_add]
        exact nothing
  exact finite layers.visible

/-- A record deletes from its own account what its bill says, and from no other. -/
theorem deletedTotal_record (layers : Layers) (address : Address) (bill : StorageBill) (key value : Bytes)
    (kept : layers.deleted address ≤ (layers.modifyAccount address (·.record bill key value)).deleted address) :
    (layers.modifyAccount address (·.record bill key value)).deletedTotal =
      layers.deletedTotal + bill.deleted.toNat := by
  refine finsum_add_at layers.finite_deleted address bill.deleted.toNat ?_
  intro other
  by_cases mine : other = address
  · subst mine
    rw [if_pos rfl]
    exact count_record .deleted layers other bill.deleted (fun _ => rfl) kept
  · rw [if_neg mine]
    exact (SameBytes.record layers bill key value mine).deleted

private theorem deletedTotal_bottom {layers : Layers} (bottom : Layers.start.Framed layers) :
    layers.deletedTotal = (layers.output.accounts.values.map (·.bytesDeleted.toNat)).sum := by
  obtain ⟨⟨output, isolated⟩, saved⟩ := layers
  obtain ⟨bottom, -⟩ := bottom
  change saved = [] at bottom
  subst bottom
  rw [← SortedMap.finsum_measured]
  refine finsum_congr (fun address => ?_)
  change (output.count (·.bytesDeleted) address).toNat + 0 = output.accounts.measured _ address
  rw [Output.count, Output.account?, SortedMap.measured]
  cases output.accounts.find? address <;> rfl

end Layers

namespace Machine

/-- What has been freed is the price of what has been deleted, and what has been stranded. -/
structure Earns (rate : UInt64) (stranded : Nat) (before after : Machine) : Prop where
  grown : before.layers.deletedTotal ≤ after.layers.deletedTotal
  freed : after.gasFreed.toNat = min (before.gasFreed.toNat +
    rate.toNat * (after.layers.deletedTotal - before.layers.deletedTotal) + stranded) Gas.most

namespace Earns

variable {rate : UInt64} {first second : Nat} {before middle after : Machine}

private theorem most_le (machine : Machine) : machine.gasFreed.toNat ≤ Gas.most := by
  have bound := machine.gasFreed.toNat_lt
  rw [Gas.most, UInt64.size]
  omega

private theorem of_same (deleted : after.layers.deletedTotal = before.layers.deletedTotal)
    (freed : before.gasFreed.toNat ≤ after.gasFreed.toNat) :
    Earns rate (after.gasFreed.toNat - before.gasFreed.toNat) before after where
  grown := Nat.le_of_eq deleted.symm
  freed := by
    have bound := most_le after
    rw [deleted, Nat.sub_self, Nat.mul_zero]
    omega

private theorem unchanged (deleted : after.layers.deletedTotal = before.layers.deletedTotal)
    (freed : after.gasFreed = before.gasFreed) : Earns rate 0 before after := by
  have earns : Earns rate (after.gasFreed.toNat - before.gasFreed.toNat) before after :=
    .of_same deleted (Nat.le_of_eq (congrArg UInt64.toNat freed.symm))
  rwa [freed, Nat.sub_self] at earns

theorem trans (earlier : Earns rate first before middle) (later : Earns rate second middle after) :
    Earns rate (first + second) before after where
  grown := Nat.le_trans earlier.grown later.grown
  freed := by
    have total : after.layers.deletedTotal - before.layers.deletedTotal =
        (middle.layers.deletedTotal - before.layers.deletedTotal) +
          (after.layers.deletedTotal - middle.layers.deletedTotal) := by
      have early := earlier.grown
      have late := later.grown
      omega
    rw [later.freed, earlier.freed, total, Nat.mul_add]
    omega

end Earns

/-- The bytes of no account tell apart what one of two disjoint pieces of work has left alone. -/
theorem Works.counted_between {rules : Rules} {ledger : Ledger} {footprint other : Footprint}
    {before middle after : Machine} (first : Works rules ledger footprint before middle)
    (second : Works rules ledger other middle after)
    (apart : ∀ address, other.accounts address → ¬footprint.accounts address)
    (counted : before.layers.Counted after.layers) :
    before.layers.Counted middle.layers ∧ middle.layers.Counted after.layers := by
  have either (address : Address) : Layers.SameBytes address before.layers middle.layers ∨
      Layers.SameBytes address middle.layers after.layers := by
    by_cases later : other.accounts address
    · exact .inl (first.advances.outside (apart address later))
    · exact .inr (second.advances.outside later)
  refine ⟨fun address => ?_, fun address => ?_⟩
  · rcases either address with same | same
    · exact ⟨Nat.le_of_eq same.added.symm, Nat.le_of_eq same.deleted.symm⟩
    · rw [← same.added, ← same.deleted]
      exact counted address
  · rcases either address with same | same
    · rw [same.added, same.deleted]
      exact counted address
    · exact ⟨Nat.le_of_eq same.added.symm, Nat.le_of_eq same.deleted.symm⟩

/-- Work frees the price of what it deletes, and strands nothing. -/
theorem Works.earns {rules : Rules} {ledger : Ledger} {footprint : Footprint} {before after : Machine}
    (works : Works rules ledger footprint before after) (counted : before.layers.Counted after.layers) :
    Earns rules.schedule.releasePerByte 0 before after := by
  induction works with
  | stay machine => exact .unchanged rfl rfl
  | widen works widens ih => exact ih counted
  | trans first second apart before between =>
    obtain ⟨early, late⟩ := first.counted_between second apart counted
    exact (before early).trans (between late)
  | charge machine amount => exact .unchanged rfl (GasTracker.freed_charge _ amount)
  | quiet machine effect right idle =>
    exact .unchanged (Layers.deletedTotal_congr (fun _ => .perform machine.layers right)) rfl
  | write machine key value =>
    let bill := machine.layers.bill rules.schedule ledger machine.storageAddress key value
    have total := Layers.deletedTotal_record machine.layers machine.storageAddress bill key value
      (counted machine.storageAddress).2
    refine ⟨Nat.le_trans (Nat.le_add_right _ _) (Nat.le_of_eq total.symm), ?_⟩
    have price : bill.freed.toNat = min (rules.schedule.releasePerByte.toNat * bill.deleted.toNat) Gas.most :=
      StorageBill.toNat_freed _ _ _
    have freed : (machine.recorded bill key value).gasFreed = Gas.add machine.gasFreed bill.freed :=
      congrArg (Gas.add · bill.freed) (GasTracker.freed_charge _ bill.cost)
    have deleted : (machine.recorded bill key value).layers.deletedTotal = _ := total
    rw [freed, Gas.toNat_add, price, deleted, Nat.add_sub_cancel_left]
    omega
  | unprotected works ih => exact ⟨(ih counted).grown, (ih counted).freed⟩
  | within address works ih => exact ⟨(ih counted).grown, (ih counted).freed⟩
  | @kept footprint machine after works ih =>
    -- Neither opening nor keeping the layer of a token transfer moves any bytes.
    have continues : after.layers.active.isolated = false := works.kept_all.layers.2
    have opened (address : Address) : Layers.SameBytes address machine.layers machine.layers.continued :=
      .enter machine.layers false
    have closed (address : Address) : Layers.SameBytes address after.layers after.layers.keep := .keep continues
    have inside : machine.layers.continued.Counted after.layers := by
      intro address
      rw [(opened address).added, (opened address).deleted, ← (closed address).added, ← (closed address).deleted]
      exact counted address
    have entered : Earns rules.schedule.releasePerByte 0 machine (machine.mapLayers Layers.continued) :=
      .unchanged (Layers.deletedTotal_congr opened) rfl
    have left : Earns rules.schedule.releasePerByte 0 after (after.mapLayers Layers.keep) :=
      .unchanged (Layers.deletedTotal_congr closed) rfl
    exact (entered.trans (ih inside)).trans left

private theorem Undone.sameBytes {rules : Rules} {ledger : Ledger} {before after : Machine}
    (undone : Undone rules ledger before after) (address : Address) :
    Layers.SameBytes address before.layers after.layers := by
  obtain ⟨middle, works, layers⟩ := undone.layers
  rw [layers]
  exact works.advances.outside (fun absurd => absurd.elim fun _ cell => cell.elim fun _ => id)

end Machine

namespace Host

open Machine (Earns)

/-- What a token transfer that fails leaves noted as freed, although its output goes back to where it was. -/
def strandedBy : Weight environment
  | .tokenTransfer .., .error _, before, after => after.machine.gasFreed.toNat - before.machine.gasFreed.toNat
  | _, _, _, _ => 0

/-- What the token transfers of a transaction that have failed strand altogether. -/
def stranded (host : Host environment) (input : CallInput) (world : World environment) : Nat :=
  host.tally strandedBy input world

private theorem strandedBy_ok (operation : Operation) (reply : operation.Reply) (before after : World environment) :
    strandedBy operation (.ok reply) before after = 0 := by
  cases operation <;> rfl

private theorem strandedBy_error {operation : Operation} (other : ¬operation.MovesTokens) (failure : Failure)
    (before after : World environment) : strandedBy operation (.error failure) before after = 0 := by
  cases operation with
  | tokenTransfer => exact absurd trivial other
  | _ => rfl

variable {host : Host environment}

private theorem undone_earns {rules : Rules} {ledger : Ledger} {operation : Operation} {failure : Failure}
    {before after : World environment} (moves : operation.MovesTokens)
    (undone : before.machine.Undone rules ledger after.machine) :
    Earns rules.schedule.releasePerByte (strandedBy operation (.error failure) before after) before.machine
      after.machine := by
  cases operation with
  | tokenTransfer => exact .of_same (Layers.deletedTotal_congr undone.sameBytes) undone.kept.gas.freed
  | _ => exact moves.elim

private theorem elementary_earns {depthLeft : Nat} {operation : Operation} {world after : World environment}
    {reply : Except Failure operation.Reply} (elementary : ∀ context input, operation ≠ .call context input)
    (served : outcome (host.serve (host.callWithin depthLeft) operation) world = (reply, after))
    (counted : world.machine.layers.Counted after.machine.layers) :
    Earns host.rules.schedule.releasePerByte (strandedBy operation reply world after) world.machine after.machine := by
  by_cases moded : ∃ on, operation = .setReadOnly on
  · obtain ⟨on, rfl⟩ := moded
    rw [outcome, host.serve_setReadOnly] at served
    cases served
    exact .unchanged rfl rfl
  have worked := host.serve_works (host.callWithin depthLeft) operation elementary (fun on same => moded ⟨on, same⟩) world
  cases reply with
  | ok value =>
    rw [outcome_eq_ok] at served
    rw [strandedBy_ok]
    exact (worked.of_ok served).2.earns counted
  | error failure =>
    rw [outcome_eq_error] at served
    by_cases moves : operation.MovesTokens
    · exact undone_earns moves (host.serve_undone elementary served).2
    · obtain ⟨-, works | ⟨moving, -⟩⟩ := worked.of_error served
      · rw [strandedBy_error moves]
        exact works.earns counted
      · exact absurd moving moves

/-- What a callee earns is its caller's where it has succeeded, and otherwise goes with its output. -/
theorem returned_earns {depthLeft amount : Nat} {context : Context} {input : CallInput}
    {next : Except Failure Unit → Program environment Unit} {world after : World environment}
    {start : Moment environment}
    (entering : Moment.Into host ⟨depthLeft, .request (.call context input) next, world⟩ start)
    (returned : Returned context (start.ended host) world after)
    (counted : world.machine.layers.Counted after.machine.layers)
    (inside : Earns host.rules.schedule.releasePerByte amount start.world.machine (start.ended host).2.machine) :
    Earns host.rules.schedule.releasePerByte (if (start.ended host).1.isOk then amount else 0) world.machine
      after.machine := by
  have framed := entering.kept.framed
  rw [World.Framed, entered_layers] at framed
  have layers := returned.layers
  have freed := returned.freed
  cases succeeded : (start.ended host).1.isOk with
  | false =>
    rw [succeeded] at layers freed
    have reverted : after.machine.layers = world.machine.layers := layers.trans framed.revert
    exact .unchanged (congrArg Layers.deletedTotal reverted) freed
  | true =>
    rw [succeeded] at layers freed
    -- The callee's tracker starts with nothing freed and its layers with nothing deleted beyond the caller's.
    have fresh : start.world.machine.gasFreed = 0 := by
      cases entering with
      | call descends =>
        rw [(host.descend_staged descends).2.freed, Machine.gasFreed, entered_gas]
    have closed (address : Address) :
        Layers.SameBytes address (start.ended host).2.machine.layers after.machine.layers := by
      rw [layers]
      cases context with
      | same => exact .keep framed.2
      | destination =>
        rw [← framed.revert, layers] at counted
        exact .merge (fun _ => (counted address).1) (fun _ => (counted address).2)
    have before : start.world.machine.layers.deletedTotal = world.machine.layers.deletedTotal :=
      Layers.deletedTotal_congr entering.sameBytes
    have last := Layers.deletedTotal_congr closed
    refine ⟨?_, ?_⟩
    · rw [← before, last]
      exact inside.grown
    · have earned := inside.freed
      rw [freed]
      change (Gas.add _ _).toNat = min (_ + _ + amount) _
      rw [Gas.toNat_add, earned, fresh, last, before]
      change min (_ + min (0 + _ + amount) _) _ = _
      omega

private theorem earning (host : Host environment) :
    RunRelation host strandedBy (fun before after => before.layers.Counted after.layers)
      (fun amount before after => Earns host.rules.schedule.releasePerByte amount before.machine after.machine) where
  refl _ := .unchanged rfl rfl
  trans := Earns.trans
  consult _ := .unchanged rfl rfl
  elementary := elementary_earns
  spent spent := .unchanged (congrArg Layers.deletedTotal spent.machine.layers) spent.machine.freed
  returned := returned_earns

private theorem stranded_eq_zero {input : CallInput} {world : World environment}
    (spared : ∀ depthLeft token destination amount next before failure after,
      host.Visits input world ⟨depthLeft, .request (.tokenTransfer token destination amount) next, before⟩ →
      host.serve (host.callWithin depthLeft) (.tokenTransfer token destination amount) before = .error failure after →
      after.machine.gasFreed = before.machine.gasFreed) : host.stranded input world = 0 := by
  refine host.tally_eq_zero strandedBy ?_
  rintro ⟨depthLeft, program, before⟩ visited
  cases program with
  | request operation next =>
    cases operation with
    | tokenTransfer token destination amount =>
      simp only [Moment.Weightless, outcome]
      cases ran : host.serve (host.callWithin depthLeft) (.tokenTransfer token destination amount) before with
      | ok reply after => rfl
      | error failure after =>
        simp only [strandedBy, spared _ _ _ _ _ _ _ _ visited ran, Nat.sub_self]
    | _ => rfl
  | _ => trivial

/-- A transaction that succeeds is refunded the price of the bytes that its output counts as deleted, and besides only
what failing token transfers have stranded; without any of these it is refunded that price exactly. -/
theorem refund_pays_for_deletions (host : Host environment) (input : CallInput) (world : World environment)
    (counted : ∀ before after, host.Visits input world before → Moment.Over host before after →
      before.layers.Counted after.layers)
    (succeeds : (host.run input world).1.code = .ok) :
    let output := (host.run input world).1
    let price := host.rules.schedule.releasePerByte.toNat * (output.accounts.values.map (·.bytesDeleted.toNat)).sum
    output.gasRefund.toNat = min (price + host.stranded input world) Gas.most ∧
      ((∀ depthLeft token destination amount next before failure after,
          host.Visits input world ⟨depthLeft, .request (.tokenTransfer token destination amount) next, before⟩ →
          host.serve (host.callWithin depthLeft) (.tokenTransfer token destination amount) before =
            .error failure after →
          after.machine.gasFreed = before.machine.gasFreed) →
        output.gasRefund.toNat = min price Gas.most) := by
  intro output price
  have refunded : output.gasRefund.toNat = min (price + host.stranded input world) Gas.most := by
    rcases host.earning.run counted with ⟨failure, failed, -⟩ | ⟨body, inside, last, opens, earned, bottom, result⟩
    · rw [failed] at succeeds
      exact absurd succeeds failure.returnCode_ne_ok
    · have none : inside.machine.layers.deletedTotal = 0 := by
        have untouched (address : Address) : Layers.SameBytes address .start inside.machine.layers :=
          (host.opening_advances opens).2.outside id
        exact (Layers.deletedTotal_congr untouched).trans finsum_zero
      have fresh : inside.machine.gasFreed = 0 := (host.opening_staged opens).2.2.freed
      have freed := earned.freed
      rw [none, fresh, Nat.sub_zero, Layers.deletedTotal_bottom bottom] at freed
      simp only [output, price, result]
      refine freed.trans ?_
      rw [UInt64.toNat_zero, Nat.zero_add]
      rfl
  refine ⟨refunded, fun spared => ?_⟩
  rw [refunded, stranded_eq_zero spared, Nat.add_zero]

/-- Bytes cost ten units each and earn seven when they are given up. -/
def refunding (program : Program Environment.silent Unit) : Host Environment.silent :=
  scripted { GasSchedule.zero with storePerByte := 10, releasePerByte := 7 } program (.done ())

def clearing : Program Environment.silent Unit := .request (.store [7] []) fun _ => .done ()

def occupied : World Environment.silent :=
  { World.scripted with ledger := World.scripted.ledger.setStorage .zero [7] [8] }

def clearingFirst : Moment Environment.silent :=
  ⟨63, clearing, { occupied with machine := (occupied.machine.begin { gas := 15 }).joined { gas := 15 } }⟩

private theorem clearing_moments {moment : Moment Environment.silent}
    (visited : (refunding clearing).Visits { gas := 15 } occupied moment) :
    moment = clearingFirst ∨ ∃ world, moment = ⟨63, .done (), world⟩ := by
  obtain ⟨body, inside, opens, reached⟩ := visited
  have opened : (refunding clearing).opening { gas := 15 }
      { occupied with machine := occupied.machine.begin { gas := 15 } } = .ok clearing clearingFirst.world := rfl
  cases opened.symm.trans opens
  have elementary (context : Context) (input : CallInput) : Operation.store [7] [] ≠ .call context input := nofun
  rcases reached.of_request elementary rfl with first | further
  · exact .inl first
  · exact .inr ⟨_, further.of_done⟩

/-- A cell of one byte is cleared, for which seven units are refunded. -/
theorem clearing_refunds_a_byte :
    let output := ((refunding clearing).run { gas := 15 } occupied).1
    output.code = .ok ∧ (output.accounts.values.map (·.bytesDeleted.toNat)).sum = 1 ∧
      output.gasRefund.toNat = min (7 * 1) Gas.most := by
  intro output
  have succeeds : output.code = .ok := by decide +kernel
  have deleted : (output.accounts.values.map (·.bytesDeleted.toNat)).sum = 1 := by decide +kernel
  have counted (before after : Moment Environment.silent)
      (visited : (refunding clearing).Visits { gas := 15 } occupied before)
      (step : Moment.Over (refunding clearing) before after) : before.layers.Counted after.layers := by
    rcases clearing_moments visited with rfl | ⟨world, rfl⟩
    · exact fun address => ⟨Nat.zero_le _, Nat.zero_le _⟩
    · cases step
  obtain ⟨-, exactly⟩ := refund_pays_for_deletions (refunding clearing) { gas := 15 } occupied counted succeeds
  refine ⟨succeeds, deleted, ?_⟩
  rw [← deleted]
  refine exactly ?_
  intro depthLeft token destination amount next before failure after visited
  rcases clearing_moments visited with first | ⟨world, last⟩
  · cases first
  · cases last

/-- A token is minted, and the transfer that gives it away runs out of gas when it is credited. -/
def overreaching : Program Environment.silent Unit :=
  .request (.tokenMint [9] 1) fun _ => .request (.tokenTransfer [9] .second 1) fun _ => .done ()

def overreachingNext : Moment Environment.silent :=
  ⟨63, .request (.tokenTransfer [9] .second 1) fun _ => .done (),
    (outcome ((refunding overreaching).serve ((refunding overreaching).callWithin 63) (.tokenMint [9] 1)) (.begun 15)).2⟩

private theorem overreachingNext_counted {after : Moment Environment.silent}
    (step : Moment.Over (refunding overreaching) overreachingNext after) :
    overreachingNext.layers.Counted after.layers := by
  have fails : (outcome ((refunding overreaching).serve ((refunding overreaching).callWithin 63)
      (.tokenTransfer [9] .second 1)) overreachingNext.world).1.isOk = false := by decide +kernel
  cases step with
  | @request _ _ _ _ _ reply served =>
    have failed : reply.isOk = false := (congrArg (·.1.isOk) served).symm.trans fails
    cases reply with
    | ok value => cases failed
    | error failure =>
      rw [outcome_eq_error] at served
      intro address
      have moves (context : Context) (input : CallInput) :
          Operation.tokenTransfer [9] .second 1 ≠ .call context input := nofun
      have same := ((refunding overreaching).serve_undone moves served).2.sameBytes address
      exact ⟨Nat.le_of_eq same.added.symm, Nat.le_of_eq same.deleted.symm⟩

private theorem overreaching_counted (before after : Moment Environment.silent)
    (visited : (refunding overreaching).Visits { gas := 15 } .scripted before)
    (step : Moment.Over (refunding overreaching) before after) : before.layers.Counted after.layers := by
  obtain ⟨body, inside, opens, reached⟩ := visited
  have opened : (refunding overreaching).opening { gas := 15 }
      { World.scripted with machine := World.scripted.machine.begin { gas := 15 } } = .ok overreaching (.begun 15) := rfl
  cases opened.symm.trans opens
  have mints (context : Context) (input : CallInput) : Operation.tokenMint [9] 1 ≠ .call context input := nofun
  have moves (context : Context) (input : CallInput) :
      Operation.tokenTransfer [9] .second 1 ≠ .call context input := nofun
  rcases reached.of_request mints rfl with rfl | further
  · exact fun address => ⟨Nat.zero_le _, Nat.zero_le _⟩
  rcases further.of_request moves rfl with rfl | further
  · exact overreachingNext_counted step
  · cases further.of_done
    cases step

/-- The transfer of a token is undone, and yet there are seven units refunded for the byte that it deleted. -/
theorem failed_transfer_keeps_a_refund :
    ¬∀ input world,
      (∀ before after, (refunding overreaching).Visits input world before →
        Moment.Over (refunding overreaching) before after → before.layers.Counted after.layers) →
      let output := ((refunding overreaching).run input world).1
      output.code = .ok →
        output.gasRefund.toNat = min (7 * (output.accounts.values.map (·.bytesDeleted.toNat)).sum) Gas.most := by
  intro earned
  have refunded := earned { gas := 15 } .scripted overreaching_counted (by decide +kernel)
  revert refunded
  decide +kernel

end Host

end ContractHost
