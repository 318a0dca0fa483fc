import ContractHost.Proofs.RunTally

/-! What every layer holds. Layers are copied, merged, kept and reverted, but only the requests of running code write to
them. A property of outputs that lasts through all of this holds of every layer at every moment, of the saved layers
too, as long as no request that has been answered wrote what would end it. -/

namespace ContractHost

variable {environment : Environment} {rules : Rules} {ledger : Ledger}

/-- A property of outputs that nothing ends but a write outside of `writes`. -/
structure Output.Lasting (writes : Footprint) (holds : Output → Prop) : Prop where
  empty : holds {}
  same {before after : Output} : after.accounts = before.accounts → holds before → holds after
  modify {output : Output} (address : Address) {change : AccountChange → AccountChange} :
    (∀ account, (change account).address = account.address ∧ (change account).updates = account.updates) →
      holds output → holds (output.modifyAccount address change)
  record {output : Output} {address : Address} {key value : Bytes} (bill : StorageBill) :
    writes address key value → holds output → holds (output.modifyAccount address (·.record bill key value))
  merge {earlier later : Output} : holds earlier → holds later → holds (earlier.merge later)

namespace Layers

def Every (holds : Output → Prop) (layers : Layers) : Prop :=
  ∀ layer ∈ layers.active :: layers.saved, holds layer.output

variable {holds : Output → Prop} {layers : Layers}

theorem every_iff : layers.Every holds ↔ holds layers.output ∧ ∀ layer ∈ layers.saved, holds layer.output :=
  List.forall_mem_cons

namespace Every

private theorem modifyOutput {change : Output → Output} (every : layers.Every holds)
    (changes : holds layers.output → holds (change layers.output)) : (layers.modifyOutput change).Every holds :=
  every_iff.mpr ⟨changes (every_iff.mp every).1, (every_iff.mp every).2⟩

private theorem continued (every : layers.Every holds) : layers.continued.Every holds :=
  every_iff.mpr ⟨(every_iff.mp every).1, every⟩

private theorem entering (empty : holds {}) (every : layers.Every holds) (context : Context) :
    (layers.step context.entering).Every holds := by
  cases context with
  | same => exact every.continued
  | destination => exact every_iff.mpr ⟨empty, every⟩

private theorem revert (every : layers.Every holds) : layers.revert.Every holds := by
  obtain ⟨active, saved⟩ := layers
  cases saved with
  | nil => exact every
  | cons latest older => exact (every_iff.mp every).2

private theorem keep (every : layers.Every holds) : layers.keep.Every holds := by
  obtain ⟨active, saved⟩ := layers
  cases saved with
  | nil => exact every
  | cons latest older =>
    obtain ⟨top, beneath⟩ := every_iff.mp every
    exact every_iff.mpr ⟨top, (List.forall_mem_cons.mp beneath).2⟩

private theorem merge (merges : ∀ {earlier later : Output}, holds earlier → holds later → holds (earlier.merge later))
    (every : layers.Every holds) : layers.merge.Every holds := by
  obtain ⟨active, saved⟩ := layers
  cases saved with
  | nil => exact every
  | cons latest older =>
    obtain ⟨top, beneath⟩ := every_iff.mp every
    obtain ⟨bottom, rest⟩ := List.forall_mem_cons.mp beneath
    refine every_iff.mpr ⟨?_, rest⟩
    change holds (if active.isolated then latest.output.merge active.output else active.output)
    split
    next => exact merges bottom top
    next => exact top

private theorem leaving (merges : ∀ {earlier later : Output}, holds earlier → holds later → holds (earlier.merge later))
    (every : layers.Every holds) (context : Context) (succeeded : Bool) :
    (layers.step (context.leaving succeeded)).Every holds := by
  cases succeeded with
  | false => exact every.revert
  | true =>
    cases context with
    | same => exact every.keep
    | destination => exact every.merge merges

end Every

end Layers

namespace Moment

/-- What the request that is made at a moment writes, nothing where it fails. -/
def writes (host : Host environment) (moment : Moment environment) : Footprint :=
  match moment.program with
  | .request operation _ =>
    if (outcome (host.serve (host.callWithin moment.depthLeft) operation) moment.world).1.isOk then
      operation.footprint host.rules moment.ledger moment.world.machine
    else .nothing
  | _ => .nothing

def WritesInto (host : Host environment) (writes : Footprint) (moment : Moment environment) : Prop :=
  ∀ address key value, moment.writes host address key value → writes address key value

/-- What was to be done at a moment has been done before another one, maybe in a nested call that has come back. -/
inductive Past (host : Host environment) (earlier later : Moment environment) : Prop where
  | across {next : Moment environment} (step : Over host earlier next) (further : Reaches host next later)
  | within {caller first next : Moment environment} (entering : Into host caller first)
      (inside : Reaches host first earlier) (step : Over host caller next) (further : Reaches host next later)

variable {host : Host environment}

private theorem Past.later {earlier middle later : Moment environment} (past : Past host earlier middle)
    (reached : Reaches host middle later) : Past host earlier later := by
  cases past with
  | across step further => exact .across step (further.trans reached)
  | within entering inside step further => exact .within entering inside step (further.trans reached)

private theorem writes_ok {depthLeft : Nat} {operation : Operation}
    {next : Except Failure operation.Reply → Program environment Unit} {world after : World environment}
    {value : operation.Reply}
    (served : outcome (host.serve (host.callWithin depthLeft) operation) world = (.ok value, after)) :
    (⟨depthLeft, .request operation next, world⟩ : Moment environment).writes host =
      operation.footprint host.rules world.ledger world.machine := by
  simp only [writes, served]
  rfl

end Moment

namespace Output.Lasting

open Moment

variable {writes : Footprint} {holds : Output → Prop}

section Layers

variable {layers before after : Layers} {schedule : GasSchedule}

private theorem modifyAccount (lasting : Lasting writes holds) (address : Address)
    {change : AccountChange → AccountChange}
    (kept : ∀ account, (change account).address = account.address ∧ (change account).updates = account.updates)
    (every : layers.Every holds) : (layers.modifyAccount address change).Every holds :=
  every.modifyOutput (lasting.modify address kept)

private theorem perform (lasting : Lasting writes holds) {effect : Effect} {shown : Output}
    (quiet : effect.Quiet ledger shown) (every : layers.Every holds) : (layers.perform effect).Every holds := by
  cases effect with
  | touch address => exact lasting.modifyAccount address (fun _ => ⟨rfl, rfl⟩) every
  | note address balance => exact lasting.modifyAccount address (fun _ => ⟨rfl, rfl⟩) every
  | transfer sender receiver value =>
    simp only [Layers.perform, Layers.transfer_eq]
    split
    next => exact every
    next =>
      have debited : (layers.credit sender (-(value : Int))).Every holds :=
        lasting.modifyAccount sender (fun _ => ⟨rfl, rfl⟩) every
      exact lasting.modifyAccount receiver (fun _ => ⟨rfl, rfl⟩) debited
  | finish data => exact every.modifyOutput (lasting.same rfl)
  | log entry => exact every.modifyOutput (lasting.same rfl)
  | write address key data => exact quiet.elim
  | count address added deleted => exact quiet.elim

private theorem advances (lasting : Lasting writes holds) {scope : Address → Prop}
    (advances : Layers.Advances schedule ledger scope before after)
    (allowed : ∀ address key value, scope address → writes address key value) (every : before.Every holds) :
    after.Every holds := by
  induction advances with
  | stay => exact every
  | quiet earlier effect right ih => exact lasting.perform right (ih allowed every)
  | record earlier outside inside widens key value ih =>
    have before := ih (fun _ _ _ member => allowed _ _ _ (widens _ member)) every
    exact before.modifyOutput (lasting.record _ (allowed _ _ _ inside))

end Layers

private theorem works (lasting : Lasting writes holds) {footprint : Footprint} {before after : Machine}
    (works : before.Works rules ledger footprint after)
    (allowed : ∀ address key value, footprint address key value → writes address key value)
    (every : before.layers.Every holds) : after.layers.Every holds := by
  induction works with
  | stay | charge => exact every
  | widen works widens ih => exact ih (fun _ _ _ cell => allowed _ _ _ (widens _ _ _ cell)) every
  | trans first second apart before between =>
    have middle := before (fun _ _ _ cell => allowed _ _ _ (.inl cell)) every
    exact between (fun _ _ _ cell => allowed _ _ _ (.inr cell)) middle
  | quiet machine effect right idle => exact lasting.perform right every
  | write machine key value => exact every.modifyOutput (lasting.record _ (allowed _ _ _ ⟨rfl, rfl, rfl⟩))
  | unprotected works ih => exact ih allowed every
  | within address works ih => exact ih allowed every
  | kept works ih => exact (ih allowed every.continued).keep

variable {host : Host environment}

private theorem elementary (lasting : Lasting writes holds) {depthLeft : Nat} {operation : Operation}
    {next : Except Failure operation.Reply → Program environment Unit} {world after : World environment}
    {reply : Except Failure operation.Reply} (elementary : ∀ context input, operation ≠ .call context input)
    (served : outcome (host.serve (host.callWithin depthLeft) operation) world = (reply, after))
    (allowed : WritesInto host writes ⟨depthLeft, .request operation next, world⟩)
    (every : world.machine.layers.Every holds) : after.machine.layers.Every holds := by
  cases reply with
  | error failure =>
    obtain ⟨-, undone⟩ := host.serve_undone elementary (outcome_eq_error.mp served)
    obtain ⟨middle, works, layers⟩ := undone.layers
    rw [layers]
    exact lasting.works works (fun _ _ _ absurd => absurd.elim) every
  | ok value =>
    rw [WritesInto, writes_ok served] at allowed
    rw [outcome_eq_ok] at served
    by_cases moded : ∃ on, operation = .setReadOnly on
    · obtain ⟨on, rfl⟩ := moded
      rw [host.serve_setReadOnly] at served
      cases served
      exact every
    · have moded (on : Bool) : operation ≠ .setReadOnly on := fun same => moded ⟨on, same⟩
      obtain ⟨-, works⟩ := (host.serve_works _ operation elementary moded world).of_ok served
      exact lasting.works works allowed every

private theorem into (lasting : Lasting writes holds) {before start : Moment environment}
    (step : Into host before start) (every : before.layers.Every holds) : start.layers.Every holds := by
  cases step with
  | @call _ context _ _ _ _ _ descends =>
    exact lasting.advances (host.descend_advances descends).2 (fun _ _ _ => False.elim)
      (every.entering lasting.empty context)

private theorem relation (lasting : Lasting writes holds) :
    RunRelation host (fun _ _ _ _ => 0) (fun before _ => before.WritesInto host writes)
      (fun _ before after => before.machine.layers.Every holds → after.machine.layers.Every holds) where
  refl _ := id
  trans first second := second ∘ first
  consult _ := id
  elementary := lasting.elementary
  spent spent every := by
    rw [spent.machine.layers]
    exact every
  returned entering returned _ inside every := by
    rw [returned.layers]
    exact (inside (lasting.into entering every)).leaving lasting.merge _ _

private theorem across (lasting : Lasting writes holds) {before after : Moment environment}
    (step : Over host before after) (allowed : before.WritesInto host writes)
    (inside : ∀ first moment, Into host before first → Reaches host first moment → moment.WritesInto host writes)
    (every : before.layers.Every holds) : after.layers.Every holds := by
  obtain ⟨depthLeft, program, world⟩ := before
  cases program with
  | done | fail => cases step
  | consult question next =>
    cases step
    exact every
  | request operation next =>
    refine lasting.relation.step step allowed ?_ every
    exact fun first entering before _ reached _ => inside first before entering reached

private theorem reaches (lasting : Lasting writes holds) {start later : Moment environment}
    (reached : Reaches host start later)
    (allowed : ∀ earlier, Reaches host start earlier → Past host earlier later → earlier.WritesInto host writes)
    (every : start.layers.Every holds) : later.layers.Every holds := by
  induction reached with
  | refl => exact every
  | @tail middle later reached step ih =>
    have before := ih (fun earlier reaching past => allowed earlier reaching (past.later (.single step)))
    rcases step with step | entering
    · refine lasting.across step (allowed middle reached (.across step .refl)) ?_ before
      intro first moment entering inside
      exact allowed moment ((reached.tail (.inr entering)).trans inside) (.within entering inside step .refl)
    · exact lasting.into entering before

private theorem start (lasting : Lasting writes holds) : Layers.start.Every holds :=
  Layers.every_iff.mpr ⟨lasting.empty, fun _ absurd => nomatch absurd⟩

theorem visits (lasting : Lasting writes holds) {input : CallInput} {world : World environment}
    {moment : Moment environment} (visited : host.Visits input world moment)
    (allowed : ∀ earlier, host.Visits input world earlier → Past host earlier moment →
      earlier.WritesInto host writes) : moment.layers.Every holds := by
  obtain ⟨body, inside, opens, reached⟩ := visited
  have begun := lasting.advances (host.opening_advances opens).2 (fun _ _ _ => False.elim) lasting.start
  exact lasting.reaches reached (fun earlier reaching => allowed earlier ⟨body, inside, opens, reaching⟩) begun

/-- What lasts through a transaction holds of the layer that is left in the end, whether it succeeds or fails. -/
theorem run (lasting : Lasting writes holds) {input : CallInput} {world : World environment}
    (allowed : ∀ earlier, host.Visits input world earlier → earlier.WritesInto host writes) :
    (host.run input world).2.machine.layers.Every holds := by
  have settled (layers : Layers) (every : layers.Every holds) : layers.keepAll.Every holds :=
    Layers.every_iff.mpr ⟨(Layers.every_iff.mp every).1, fun _ absurd => nomatch absurd⟩
  rw [(host.run_settles input world).1]
  refine settled _ ?_
  rcases host.ending_cases input world with refused | ⟨-, ⟨-, staged⟩ | ⟨moment, visited, last⟩⟩
  · rw [refused]
    exact lasting.start
  · exact lasting.advances staged.layers (fun _ _ _ => False.elim) lasting.start
  · rw [← last]
    exact lasting.visits visited (fun earlier before _ => allowed earlier before)

end Output.Lasting

end ContractHost
