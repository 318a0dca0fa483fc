import ContractHost.Proofs.ByteAccounting
import ContractHost.Proofs.RunTally
import ContractHost.Proofs.Solvency

/-! Read-only mode. As long as no code switches it off, what runs in it changes no storage cell, at any depth of
nesting. It moves no funds either, save for the value that a nested call carries: that is moved when the callee is
staged, without a look at the mode. -/

namespace ContractHost

variable {environment : Environment}

namespace Layers

variable {layers : Layers}

private theorem balanceDelta_credit (layers : Layers) (address other : Address) (amount : Int) :
    (layers.credit address amount).balanceDelta other =
      layers.balanceDelta other + if other = address then amount else 0 := by
  rw [balanceDelta_eq, credit, flatten_modifyAccount (AccountChange.trailing_credit amount), balanceDelta_eq]
  exact Output.balanceDelta_credit _ address other amount

private theorem balanceDelta_modifyAccount (layers : Layers) (address other : Address)
    {change : AccountChange → AccountChange} (trailing : AccountChange.Trailing change)
    (same : ∀ account, (change account).balanceDelta = account.balanceDelta) :
    (layers.modifyAccount address change).balanceDelta other = layers.balanceDelta other := by
  rw [balanceDelta_eq, flatten_modifyAccount trailing, balanceDelta_eq, Output.balanceDelta_modifyAccount, same,
    Output.balanceDelta_account]
  split
  next mine => rw [mine]
  next => rfl

def transferred (sender receiver : Address) (value : Nat) (address : Address) : Int :=
  (if address = receiver then (value : Int) else 0) - if address = sender then (value : Int) else 0

private theorem balanceDelta_transfer {sender receiver : Address} {value : Nat} {after : Layers}
    (moved : layers.transfer sender receiver value = .ok after) (address : Address) :
    after.balanceDelta address = layers.balanceDelta address + transferred sender receiver value address := by
  simp only [transfer] at moved
  split at moved
  next => cases moved
  next =>
    cases moved
    rw [balanceDelta_credit, balanceDelta_credit, transferred]
    split <;> split <;> omega

private theorem balanceDelta_idle {effect : Effect} (idle : effect.Idle) (address : Address) :
    (layers.perform effect).balanceDelta address = layers.balanceDelta address := by
  cases effect with
  | touch changed => exact balanceDelta_modifyAccount layers changed address AccountChange.trailing_id (fun _ => rfl)
  | note changed balance =>
    exact balanceDelta_modifyAccount layers changed address (AccountChange.trailing_note balance) (fun _ => rfl)
  | transfer sender receiver value =>
    cases idle
    simp only [perform]
    cases moved : layers.transfer sender receiver 0 with
    | error failure => rfl
    | ok after =>
      change after.balanceDelta address = _
      rw [balanceDelta_transfer moved, transferred, Int.natCast_zero, ite_self, ite_self, Int.sub_zero, Int.add_zero]
  | finish data => rfl
  | log entry => rfl
  | write changed key data =>
    exact balanceDelta_modifyAccount layers changed address (AccountChange.trailing_write key data) (fun _ => rfl)
  | count changed added deleted =>
    exact balanceDelta_modifyAccount layers changed address (AccountChange.trailing_count added deleted) (fun _ => rfl)

end Layers

private theorem Machine.Works.balanceDelta {rules : Rules} {ledger : Ledger} {footprint : Footprint}
    {before after : Machine}
    (works : Works rules ledger footprint before after) (readOnly : before.readOnly = true) (address : Address) :
    after.layers.balanceDelta address = before.layers.balanceDelta address := by
  induction works with
  | stay | charge => rfl
  | widen works widens ih => exact ih readOnly
  | trans first second apart before between =>
    exact (between (first.readOnly.trans readOnly)).trans (before readOnly)
  | quiet machine effect right idle => exact Layers.balanceDelta_idle (idle readOnly) address
  | write machine key value =>
    exact Layers.balanceDelta_modifyAccount machine.layers _ address (AccountChange.trailing_record _ key value)
      (fun _ => rfl)
  | unprotected works ih => exact ih readOnly
  | within other works ih => exact ih readOnly
  | @kept footprint machine after works ih =>
    have continues : after.layers.active.isolated = false := works.kept_all.layers.2
    have same := ih readOnly
    rw [Layers.balanceDelta_eq, Layers.balanceDelta_eq] at same ⊢
    change after.layers.keep.flatten.balanceDelta address = _
    rw [Layers.flatten_keep after.layers continues]
    exact same

namespace Host

variable (host : Host environment)

private theorem transferCallValue_moves (ledger : Ledger) (input : CallInput) (machine : Machine) :
    Ensures (Operations.transferCallValue ledger input) machine
      (fun _ after => ∀ address, after.layers.balanceDelta address =
        machine.layers.balanceDelta address + Layers.transferred input.caller input.recipient input.value address)
      (fun _ _ => True) := by
  refine Ensures.ite (fun none => Ensures.pure _ (fun address => ?_)) (fun _ => ?_)
  · rw [none, Layers.transferred, Int.natCast_zero, ite_self, ite_self, Int.sub_zero, Int.add_zero]
  refine Ensures.bind ((Operations.loadBalance_ensures input.caller machine).weaken (fun _ _ => id)
    (fun _ _ _ => trivial)) ?_
  intro _ loaded loading
  obtain ⟨noting, -⟩ := loading
  have noted (address : Address) : loaded.layers.balanceDelta address = machine.layers.balanceDelta address := by
    rcases noting with rfl | rfl
    · rfl
    · have idle : (Effect.note input.caller (ledger.balance input.caller)).Idle := trivial
      exact Layers.balanceDelta_idle idle address
  simp only [Ensures, Action.transfer]
  cases moved : loaded.layers.transfer input.caller input.recipient input.value with
  | error failure => trivial
  | ok layers => exact fun address => (Layers.balanceDelta_transfer moved address).trans (by rw [noted])

/-- Into a callee goes the value of the call and no other funds, in read-only mode as in any other. -/
theorem descend_moves {context : Context} {input : CallInput} {world inside : World environment}
    {body : Program environment Unit} (descends : host.descend context input world = .ok body inside)
    (address : Address) :
    inside.machine.layers.balanceDelta address = world.machine.layers.balanceDelta address +
      Layers.transferred world.machine.contract input.recipient input.value address := by
  obtain ⟨-, -, staged⟩ := host.descend_iff.mp descends
  have entered : (host.entered context input world).machine.layers.balanceDelta address =
      world.machine.layers.balanceDelta address := by
    rw [entered_layers, Layers.balanceDelta_eq, Layers.flatten_entering, Layers.balanceDelta_eq]
  have followed : Ensures (host.stage (addressed context input world)) (host.entered context input world)
      (fun _ inside => inside.machine.layers.balanceDelta address =
        (host.entered context input world).machine.layers.balanceDelta address +
          Layers.transferred world.machine.contract input.recipient input.value address) (fun _ _ => True) := by
    refine Ensures.bind ((Run.onMachine_ensures (transferCallValue_moves _ _ _)).weaken (fun _ _ => id)
      (fun _ _ _ => trivial)) ?_
    intro _ paid moving
    refine (host.prepared_spent _ paid).returning.weaken ?_ (fun _ _ => id)
    intro _ prepared spent
    rw [spent.machine.layers]
    exact moving.2 address
  rw [followed.of_ok staged, entered]

private theorem entered_readOnly {context : Context} {input : CallInput} {world : World environment} :
    (host.entered context input world).machine.readOnly = world.machine.readOnly := by
  cases context <;> rfl

end Host

namespace Moment

variable {host : Host environment}

/-- The next request is not one to leave read-only mode. -/
def KeepsMode (moment : Moment environment) : Prop :=
  match moment.program with
  | .request (.setReadOnly on) _ => on = true
  | _ => True

def CarriesNothing (moment : Moment environment) : Prop :=
  match moment.program with
  | .request (.call _ input) _ => input.value = 0
  | _ => True

/-- A stretch of a run, from one moment on over requests, into nested calls, and back from them. Every moment that it
passes is permitted, also within the calls that have come back. It goes back from a call only where that has succeeded,
as one that fails takes back what was done in it before the stretch began, and only to a caller in read-only mode, as
the mode of the caller is the caller's own. -/
inductive Stretch (host : Host environment) (permitted : Moment environment → Prop) (start : Moment environment) :
    Moment environment → Prop where
  | here : Stretch host permitted start start
  | past {middle later : Moment environment} (earlier : Stretch host permitted start middle)
      (step : Over host middle later) (allowed : permitted middle)
      (inside : ∀ first moment, Into host middle first → Reaches host first moment → permitted moment) :
      Stretch host permitted start later
  | into {middle later : Moment environment} (earlier : Stretch host permitted start middle)
      (step : Into host middle later) (allowed : permitted middle) : Stretch host permitted start later
  | back {depthLeft : Nat} {world : World environment} {caller first later : Moment environment}
      (earlier : Stretch host permitted start ⟨depthLeft, .done (), world⟩) (entering : Into host caller first)
      (ends : Relation.ReflTransGen (Over host) first ⟨depthLeft, .done (), world⟩) (step : Over host caller later)
      (readOnly : caller.world.machine.readOnly = true) : Stretch host permitted start later

private theorem Into.readOnly {before start : Moment environment} (step : Into host before start) :
    start.world.machine.readOnly = before.world.machine.readOnly := by
  cases step with
  | call descends =>
    have rest := (host.descend_staged descends).2.rest
    rw [Machine.readOnly, rest]
    exact host.entered_readOnly

end Moment

/-- A view of what shows that nothing changes in read-only mode, provided that what is asked for is permitted. -/
structure Confined {β : Type} (host : Host environment) (permitted : Moment environment → Prop) (view : Output → β) :
    Prop where
  mode {moment : Moment environment} : permitted moment → moment.KeepsMode
  works {ledger : Ledger} {footprint : Footprint} {before after : Machine} :
    before.Works host.rules ledger footprint after → before.readOnly = true →
      (∀ address key value, ¬footprint address key value) → view after.layers.flatten = view before.layers.flatten
  into {before start : Moment environment} :
    Moment.Into host before start → permitted before → view start.layers.flatten = view before.layers.flatten

namespace Confined

open Moment

variable {β : Type} {host : Host environment} {permitted : Moment environment → Prop} {view : Output → β}

/-- What was read-only still is, and shows what it did. -/
def Same (view : Output → β) (before after : World environment) : Prop :=
  before.machine.readOnly = true →
    after.machine.readOnly = true ∧ view after.machine.layers.flatten = view before.machine.layers.flatten

theorem Same.trans {before middle after : World environment} (first : Same view before middle)
    (second : Same view middle after) : Same view before after := by
  intro readOnly
  obtain ⟨still, same⟩ := first readOnly
  obtain ⟨last, again⟩ := second still
  exact ⟨last, again.trans same⟩

private theorem elementary (confined : Confined host permitted view) {depthLeft : Nat} {operation : Operation}
    {next : Except Failure operation.Reply → Program environment Unit} {world after : World environment}
    {reply : Except Failure operation.Reply} (elementary : ∀ context input, operation ≠ .call context input)
    (served : outcome (host.serve (host.callWithin depthLeft) operation) world = (reply, after))
    (allowed : permitted ⟨depthLeft, .request operation next, world⟩) : Same view world after := by
  intro readOnly
  by_cases moded : ∃ on, operation = .setReadOnly on
  · obtain ⟨on, rfl⟩ := moded
    have stays : on = true := confined.mode allowed
    rw [outcome, host.serve_setReadOnly] at served
    cases served
    exact ⟨stays, rfl⟩
  have shut (address : Address) (key value : Bytes) :
      ¬operation.footprint host.rules world.ledger world.machine address key value := by
    intro writes
    rw [Operation.footprint_mode writes] at readOnly
    cases readOnly
  have left : Leaves (host.serve (host.callWithin depthLeft) operation) world (Same view world) := by
    refine (host.serve_works _ operation elementary (fun on same => moded ⟨on, same⟩) world).weaken ?_ ?_
    · rintro _ after ⟨-, works⟩ readOnly
      exact ⟨works.readOnly.trans readOnly, confined.works works readOnly shut⟩
    · rintro _ after ⟨-, works | ⟨-, undone⟩⟩ readOnly
      · exact ⟨works.readOnly.trans readOnly, confined.works works readOnly (fun _ _ _ => id)⟩
      · obtain ⟨middle, works, layers⟩ := undone.layers
        rw [Machine.readOnly, undone.frames, layers]
        exact ⟨readOnly, confined.works works readOnly (fun _ _ _ => id)⟩
  have same := left.state
  rw [served] at same
  exact same readOnly

private theorem returned (confined : Confined host permitted view) {depthLeft : Nat} {context : Context}
    {input : CallInput} {next : Except Failure Unit → Program environment Unit} {world after : World environment}
    {start : Moment environment}
    (entering : Into host ⟨depthLeft, .request (.call context input) next, world⟩ start)
    (returned : Host.Returned context (start.ended host) world after)
    (allowed : permitted ⟨depthLeft, .request (.call context input) next, world⟩)
    (inside : Same view start.world (start.ended host).2) : Same view world after := by
  intro readOnly
  have frames : after.machine.frames = world.machine.frames := by rw [returned.machine]
  refine ⟨by rw [Machine.readOnly, frames]; exact readOnly, ?_⟩
  rw [entering.shows returned]
  cases (start.ended host).1.isOk with
  | false => rfl
  | true => exact (inside (entering.readOnly.trans readOnly)).2.trans (confined.into entering allowed)

/-- Back in a caller that is in read-only mode, what shows is what showed when the callee was done. -/
theorem resumed {depthLeft depth : Nat} {context : Context} {input : CallInput}
    {next : Except Failure Unit → Program environment Unit} {before world : World environment}
    {first later : Moment environment}
    (entering : Into host ⟨depth, .request (.call context input) next, before⟩ first)
    (ends : Relation.ReflTransGen (Over host) first ⟨depthLeft, .done (), world⟩)
    (step : Over host ⟨depth, .request (.call context input) next, before⟩ later)
    (readOnly : before.machine.readOnly = true) : Same view world later.world := by
  have ended : first.ended host = (.ok (), world) := ended_across ends
  rcases step.call with ⟨-, shut⟩ | ⟨start, again, returned⟩
  · exact absurd entering (shut first)
  have shows := again.shows returned
  have frames : later.world.machine.frames = before.machine.frames := by rw [returned.machine]
  rw [again.unique entering, ended] at shows
  exact fun _ => ⟨by rw [Machine.readOnly, frames]; exact readOnly, congrArg view shows⟩

private theorem relation (confined : Confined host permitted view) :
    RunRelation host (fun _ _ _ _ => 0) (fun before _ => permitted before) (fun _ => Same view) where
  refl _ readOnly := ⟨readOnly, rfl⟩
  trans := Same.trans
  consult _ readOnly := ⟨readOnly, rfl⟩
  elementary := confined.elementary
  spent spent readOnly := by
    rw [spent.machine.rest]
    exact ⟨readOnly, rfl⟩
  returned entering returned allowed inside := confined.returned entering returned allowed inside

private theorem stretch (confined : Confined host permitted view) {start later : Moment environment}
    (stretch : Stretch host permitted start later) : Same view start.world later.world := by
  induction stretch with
  | here => exact fun readOnly => ⟨readOnly, rfl⟩
  | @past middle later earlier step allowed inside ih =>
    refine ih.trans ?_
    obtain ⟨depthLeft, program, world⟩ := middle
    cases program with
    | done | fail => cases step
    | consult question next =>
      cases step
      exact fun readOnly => ⟨readOnly, rfl⟩
    | request operation next =>
      refine confined.relation.step step allowed ?_
      exact fun first entering before _ reached _ => inside first before entering reached
  | into earlier step allowed ih =>
    refine ih.trans (fun readOnly => ?_)
    exact ⟨step.readOnly.trans readOnly, confined.into step allowed⟩
  | @back depthLeft world caller first later earlier entering ends step readOnly ih =>
    refine ih.trans ?_
    obtain ⟨depth, program, before⟩ := caller
    cases entering with
    | call descends => exact resumed (.call descends) ends step readOnly

end Confined

namespace Host

variable (host : Host environment)

private theorem storage_confined :
    Confined host Moment.KeepsMode Output.written? where
  mode kept := kept
  works works _ shut := by
    funext address key
    rw [← Layers.written?_eq, ← Layers.written?_eq]
    exact works.written? (shut address key)
  into step _ := by
    funext address key
    rw [← Layers.written?_eq, ← Layers.written?_eq]
    exact (step.sameBytes address).written? key

private theorem funds_confined :
    Confined host (fun moment => moment.KeepsMode ∧ moment.CarriesNothing) Output.balanceDelta where
  mode kept := kept.1
  works works readOnly _ := by
    funext address
    rw [← Layers.balanceDelta_eq, ← Layers.balanceDelta_eq]
    exact works.balanceDelta readOnly address
  into step allowed := by
    funext address
    cases step with
    | call descends =>
      have nothing := allowed.2
      simp only [Moment.CarriesNothing] at nothing
      rw [← Layers.balanceDelta_eq, ← Layers.balanceDelta_eq]
      refine (host.descend_moves descends address).trans ?_
      rw [nothing, Layers.transferred, Int.natCast_zero, ite_self, ite_self, Int.sub_zero, Int.add_zero]
      rfl

/-- A stretch of a run that starts in read-only mode, and in which no code leaves it, changes no storage cell, and no
balance delta where no nested call carries a value. A value that is carried is moved all the same. -/
theorem read_only_confines (start later : Moment environment) (readOnly : start.world.machine.readOnly = true) :
    (Moment.Stretch host Moment.KeepsMode start later → ∀ ledger address key,
      later.layers.content ledger address key = start.layers.content ledger address key) ∧
    (Moment.Stretch host (fun moment => moment.KeepsMode ∧ moment.CarriesNothing) start later → ∀ address,
      later.layers.balanceDelta address = start.layers.balanceDelta address) ∧
    ∀ depthLeft context call next,
      Moment.Into host ⟨depthLeft, .request (.call context call) next, start.world⟩ later → ∀ address,
        later.layers.balanceDelta address = start.layers.balanceDelta address +
          Layers.transferred start.world.machine.contract call.recipient call.value address := by
  refine ⟨fun stretch ledger address key => ?_, fun stretch address => ?_, ?_⟩
  · obtain ⟨-, same⟩ := host.storage_confined.stretch stretch readOnly
    have written := congrFun (congrFun same address) key
    rw [← Layers.written?_eq, ← Layers.written?_eq] at written
    simp only [Layers.content, Moment.layers, written]
  · obtain ⟨-, same⟩ := host.funds_confined.stretch stretch readOnly
    have delta := congrFun same address
    rwa [← Layers.balanceDelta_eq, ← Layers.balanceDelta_eq] at delta
  · intro depthLeft context call next step address
    cases step with
    | call descends => exact host.descend_moves descends address

/-- The first contract enters read-only mode, tries to write a cell, and pays the second contract in a call. -/
def tempted : Program Environment.silent Unit :=
  .request (.setReadOnly true) fun _ =>
    .request (.store [7] [8]) fun _ =>
      .request (.call .destination { recipient := .second, value := 3 }) fun _ => .done ()

def tempting : Host Environment.silent := scripted .zero tempted (.done ())

def purse : World Environment.silent := { World.scripted with ledger := World.scripted.ledger.setBalance .zero 5 }

def locked : Moment Environment.silent :=
  ⟨63, .request (.store [7] [8]) fun _ =>
      .request (.call .destination { recipient := .second, value := 3 }) fun _ => .done (),
    { purse with machine := ((purse.machine.begin {}).joined {}).setReadOnly true }⟩

private theorem locked_visited : tempting.Visits {} purse locked := by
  have opened : tempting.opening {} { purse with machine := purse.machine.begin {} } =
      .ok tempted { purse with machine := (purse.machine.begin {}).joined {} } := rfl
  exact ⟨_, _, opened, .single (.inl (.request rfl))⟩

def refused : Moment Environment.silent :=
  ⟨63, .request (.call .destination { recipient := .second, value := 3 }) fun _ => .done (),
    (outcome (tempting.serve (tempting.callWithin 63) (.store [7] [8])) locked.world).2⟩

private theorem locked_refuses : Moment.Over tempting locked refused := .request rfl

def paid : Moment Environment.silent :=
  ⟨63, .done (), (outcome (tempting.serve (tempting.callWithin 63)
    (.call .destination { recipient := .second, value := 3 })) refused.world).2⟩

theorem locked_keeps_cells :
    locked.world.machine.readOnly = true ∧
      refused.layers.content purse.ledger .zero [7] = locked.layers.content purse.ledger .zero [7] ∧
      refused.layers.balanceDelta .second = locked.layers.balanceDelta .second ∧
      ∃ inside, Moment.Into tempting refused inside ∧ ∀ address key,
        paid.layers.content purse.ledger address key = inside.layers.content purse.ledger address key := by
  have readOnly : locked.world.machine.readOnly = true := rfl
  obtain ⟨cells, funds, -⟩ := read_only_confines tempting locked refused readOnly
  refine ⟨readOnly, cells ?_ _ _ _, funds ?_ _, ?_⟩
  · exact .past .here locked_refuses trivial (fun _ _ step => nomatch step)
  · exact .past .here locked_refuses ⟨trivial, trivial⟩ (fun _ _ step => nomatch step)
  · -- This stretch starts in the second contract and ends in the first one, which has called it.
    have entering : Moment.Into tempting refused ⟨62, .done (), _⟩ := .call rfl
    obtain ⟨back, -, -⟩ := read_only_confines tempting _ paid (entering.readOnly.trans rfl)
    exact ⟨_, entering, back (.back .here entering .refl (.request rfl) rfl) _⟩

/-- In read-only mode three of five units are moved by a nested call. -/
theorem read_only_call_moves_funds :
    ¬∀ start later, tempting.Visits {} purse start → start.world.machine.readOnly = true →
      Moment.Stretch tempting Moment.KeepsMode start later → ∀ address,
        later.layers.balanceDelta address = start.layers.balanceDelta address := by
  intro confined
  have visited : tempting.Visits {} purse refused := by
    obtain ⟨body, inside, opens, reached⟩ := locked_visited
    exact ⟨body, inside, opens, reached.tail (.inl locked_refuses)⟩
  have stretch : Moment.Stretch tempting Moment.KeepsMode refused paid := by
    refine .past .here (.request rfl) trivial ?_
    intro first moment step reached
    obtain ⟨begun, computed⟩ : ∃ begun, tempting.descend .destination { recipient := .second, value := 3 } refused.world =
        .ok (.done ()) begun := ⟨_, rfl⟩
    cases step with
    | call descends =>
      cases computed.symm.trans descends
      rw [reached.of_done]
      trivial
  have moved := confined refused paid visited (by decide +kernel) stretch .second
  revert moved
  decide +kernel

end Host

end ContractHost
