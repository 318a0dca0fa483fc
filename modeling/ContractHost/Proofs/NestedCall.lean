import ContractHost.Proofs.OperationProgress

/-! What a nested call leaves to its caller. Its frame is opened before anything is done for it and is closed by its
outcome, and nothing that runs in between reaches beneath the frame. Only the output layers and the gas in use can
therefore differ when it comes back. -/

namespace ContractHost

variable {environment : Environment}

namespace Context

private theorem layers_enterNested (context : Context) (input : CallInput) (machine : Machine) :
    (Host.enterNested context input machine).layers = machine.layers.step context.entering := by
  cases context <;> rfl

theorem layers_leaveNested (context : Context) (succeeded : Bool) (machine : Machine) :
    (Host.leaveNested context succeeded machine).layers = machine.layers.step (context.leaving succeeded) := by
  cases succeeded <;> cases context <;> rfl

end Context

theorem Operation.elementary_or_call (operation : Operation) :
    (∀ context input, operation ≠ .call context input) ∨ ∃ context input, operation = .call context input := by
  cases operation with
  | call context input => exact .inr ⟨context, input, rfl⟩
  | _ => exact .inl (fun _ _ same => nomatch same)

/-- A relation between worlds that is kept by every request and by every consultation is kept by a whole run. -/
theorem Program.run_leaves {α : Type} (related : World environment → World environment → Prop)
    (refl : ∀ world, related world world)
    (trans : ∀ before middle after, related before middle → related middle after → related before after)
    {serve : (operation : Operation) → Run environment operation.Reply}
    (served : ∀ operation world, Leaves (serve operation) world (related world))
    (consulted : ∀ question world,
      let (_, ledger, memory) := environment.respond question world.machine world.ledger world.memory
      related world { world with ledger, memory })
    (program : Program environment α) (world : World environment) :
    Leaves (program.run serve) world (related world) := by
  induction program generalizing world with
  | done value => exact refl world
  | fail failure => exact refl world
  | request operation next ih =>
    have first := served operation world
    simp only [Leaves, Ensures, run] at first ih ⊢
    cases reply : serve operation world with
    | ok value after =>
      rw [reply] at first
      exact Leaves.weaken (ih _ after) (fun last => trans world after last first)
    | error failure after =>
      rw [reply] at first
      exact Leaves.weaken (ih _ after) (fun last => trans world after last first)
  | consult question next ih =>
    exact Leaves.weaken (ih _ _) (fun last => trans world _ last (consulted question world))

def Machine.joined (machine : Machine) (input : CallInput) : Machine :=
  { machine with calls := ⟨input.recipient, input.caller, input.kind, machine.callDepth⟩ :: machine.calls }

namespace World

def setGas (world : World environment) (tracker : GasTracker) : World environment :=
  { world with machine := world.machine.setGas tracker }

def Framed (before after : World environment) : Prop := before.machine.layers.Framed after.machine.layers

def Kept (before after : World environment) : Prop := before.machine.Kept after.machine

def Unmoved (before after : World environment) : Prop :=
  after.ledger = before.ledger ∧ after.machine.layers = before.machine.layers

structure Spent (before after : World environment) : Prop where
  ledger : after.ledger = before.ledger
  machine : before.machine.Spent after.machine

/-- The ledger has stayed, and the machine is ready for code to run. -/
def Staged (rules : Rules) (before after : World environment) : Prop :=
  after.ledger = before.ledger ∧ before.machine.Staged rules before.ledger after.machine

variable {rules : Rules} {before middle after : World environment}

theorem Staged.trans (first : before.Staged rules middle) (second : middle.Staged rules after) :
    before.Staged rules after := by
  obtain ⟨kept, staged⟩ := second
  rw [first.1] at kept staged
  exact ⟨kept, first.2.trans staged⟩

theorem Kept.trans (first : before.Kept middle) (second : middle.Kept after) : before.Kept after :=
  Machine.Kept.trans first second

theorem Staged.kept (staged : before.Staged rules after) : before.Kept after := staged.2.kept

theorem Kept.framed (kept : before.Kept after) : before.Framed after := kept.layers

theorem Spent.trans (first : before.Spent middle) (second : middle.Spent after) : before.Spent after where
  ledger := second.ledger.trans first.ledger
  machine := first.machine.trans second.machine

theorem Spent.unmoved (spent : before.Spent after) : before.Unmoved after := ⟨spent.ledger, spent.machine.layers⟩

private theorem Spent.kept (spent : before.Spent after) : before.Kept after := spent.machine.kept

private theorem Spent.charge (world : World environment) (amount : UInt64) :
    world.Spent (world.setGas (world.machine.gas.active.charge amount).2) :=
  ⟨rfl, .charge _ _⟩

end World

namespace Host

/-- The input of a nested call as the callee sees it. -/
def addressed (context : Context) (input : CallInput) (world : World environment) : CallInput :=
  { input with caller := world.machine.contract, kind := context.kind }

def reserve (host : Host environment) (context : Context) (gas : UInt64) : Run environment Unit := do
  Run.onMachine (fun _ => Action.charge (host.rules.schedule.callCost context))
  Run.onMachine (fun _ => Action.charge gas)

def conclude (host : Host environment) (answer : Except Failure Unit) : Run environment Unit := do
  Run.onMachine (fun _ => Action.charge host.rules.schedule.callFinalCost)
  Run.onMachine (fun _ => Action.ofExcept answer)

/-- The run of a callee beneath which `depthLeft` more calls fit into the chain. -/
def executeWithin (host : Host environment) : Nat → CallInput → Run environment Unit
  | 0 => fun _ => throw (.callDepthExceeded host.rules.maxCallDepth)
  | depthLeft + 1 => host.execute (host.callWithin depthLeft)

/-- What comes before the recipient's code runs: the value of the call is moved and the code is prepared. -/
def stage (host : Host environment) (input : CallInput) : Run environment (Program environment Unit) := do
  Run.onMachine (fun ledger => Operations.transferCallValue ledger input)
  Run.onMachine (fun ledger => host.prepare ledger input)

/-- A nested call up to where the callee's code starts. -/
def descend (host : Host environment) (context : Context) (input : CallInput) :
    Run environment (Program environment Unit) := do
  let input := addressed context input (← get)
  host.reserve context input.gas
  let _ ← Run.onMachine (fun _ => Action.enter host.rules input.recipient input.caller input.kind)
  Run.onMachine (fun _ => modify (enterNested context input))
  host.stage input

theorem callWithin_eq (host : Host environment) (depthLeft : Nat) :
    host.callWithin depthLeft = host.call (host.executeWithin depthLeft) := by
  cases depthLeft <;> rfl

theorem call_apply (host : Host environment) (execute : CallInput → Run environment Unit) (context : Context)
    (input : CallInput) (world : World environment) :
    host.call execute context input world =
      (host.reserve context input.gas >>= fun _ =>
        host.runAdmitted execute context (addressed context input world) >>= host.conclude) world := by
  simp only [reserve, bind_assoc]
  rfl

private theorem charge_leaves (amount : UInt64) (world : World environment) :
    Leaves (Run.onMachine (fun _ => Action.charge amount)) world
      (· = world.setGas (world.machine.gas.active.charge amount).2) := by
  simp only [Leaves, Ensures, Run.onMachine, Action.charge]
  rcases world.machine.gas.active.charge amount with ⟨_ | _, tracker⟩ <;> rfl

private theorem charge_covered {amount : UInt64} {world : World environment}
    (covered : world.machine.gas.active.used.toNat + amount.toNat ≤ world.machine.gas.active.limit.toNat) :
    Run.onMachine (fun _ => Action.charge amount) world = .ok () (world.setGas (world.machine.gas.active.spend amount)) := by
  simp only [Run.onMachine, Action.charge, GasTracker.charge_covered covered]
  rfl

private theorem charge_exceeded {amount : UInt64} {world : World environment}
    (exceeded : world.machine.gas.active.limit.toNat < world.machine.gas.active.used.toNat + amount.toNat) :
    ∃ total, Run.onMachine (fun _ => Action.charge amount) world =
      .error (.outOfGas total world.machine.gas.active.limit) (world.setGas world.machine.gas.active.exhausted) := by
  refine ⟨Gas.capped (world.machine.gas.active.used.toNat + amount.toNat), ?_⟩
  simp only [Run.onMachine, Action.charge, GasTracker.charge_exceeded exceeded]
  rfl

theorem reserve_spent (host : Host environment) (context : Context) (gas : UInt64) (world : World environment) :
    Leaves (host.reserve context gas) world world.Spent := by
  have paid : world.Spent _ := .charge world (host.rules.schedule.callCost context)
  refine Leaves.bind_reaching (charge_leaves _ world) paid (fun _ => ?_)
  exact (charge_leaves gas _).reaching (paid.trans (.charge _ gas))

theorem reserve_leaves (host : Host environment) (context : Context) (gas : UInt64) (world : World environment) :
    Leaves (host.reserve context gas) world world.Unmoved :=
  (host.reserve_spent context gas world).weaken (fun _ => World.Spent.unmoved)

def reserved (host : Host environment) (context : Context) (gas : UInt64) (tracker : GasTracker) : GasTracker :=
  (tracker.spend (host.rules.schedule.callCost context)).spend gas

theorem reserve_covered (host : Host environment) {context : Context} {gas : UInt64} {world : World environment}
    (covered : world.machine.gas.active.used.toNat + (host.rules.schedule.callCost context).toNat + gas.toNat ≤
      world.machine.gas.active.limit.toNat) :
    host.reserve context gas world = .ok () (world.setGas (host.reserved context gas world.machine.gas.active)) := by
  have first : world.machine.gas.active.used.toNat + (host.rules.schedule.callCost context).toNat ≤
      world.machine.gas.active.limit.toNat := by omega
  rw [← GasTracker.toNat_spend first] at covered
  simp only [reserve, Bind.bind, EStateM.bind, charge_covered first]
  exact charge_covered covered

theorem reserve_exceeded (host : Host environment) {context : Context} {gas : UInt64} {world : World environment}
    (exceeded : world.machine.gas.active.limit.toNat <
      world.machine.gas.active.used.toNat + (host.rules.schedule.callCost context).toNat + gas.toNat) :
    ∃ total, host.reserve context gas world =
      .error (.outOfGas total world.machine.gas.active.limit) (world.setGas world.machine.gas.active.exhausted) := by
  rcases Nat.lt_or_ge world.machine.gas.active.limit.toNat
      (world.machine.gas.active.used.toNat + (host.rules.schedule.callCost context).toNat) with short | first
  · obtain ⟨total, stopped⟩ := charge_exceeded short
    refine ⟨total, ?_⟩
    simp only [reserve, Bind.bind, EStateM.bind, stopped]
  · rw [← GasTracker.toNat_spend first] at exceeded
    obtain ⟨total, stopped⟩ : ∃ total, Run.onMachine (fun _ => Action.charge gas)
        (world.setGas (world.machine.gas.active.spend (host.rules.schedule.callCost context))) = _ :=
      charge_exceeded exceeded
    refine ⟨total, ?_⟩
    simp only [reserve, Bind.bind, EStateM.bind, charge_covered first, stopped]
    rfl

private theorem answer_leaves (answer : Except Failure Unit) (world : World environment) :
    Leaves (Run.onMachine (fun _ => Action.ofExcept answer)) world (· = world) := by
  cases answer <;> rfl

private theorem conclude_spent (host : Host environment) (answer : Except Failure Unit) (world : World environment) :
    Leaves (host.conclude answer) world world.Spent := by
  have paid : world.Spent _ := .charge world host.rules.schedule.callFinalCost
  exact Leaves.bind_reaching (charge_leaves _ world) paid (fun _ => (answer_leaves answer _).reaching paid)

theorem conclude_leaves (host : Host environment) (answer : Except Failure Unit) (world : World environment) :
    Leaves (host.conclude answer) world world.Unmoved :=
  (host.conclude_spent answer world).weaken (fun _ => World.Spent.unmoved)

theorem conclude_covered (host : Host environment) (answer : Except Failure Unit) {world : World environment}
    (covered : world.machine.gas.active.used.toNat + host.rules.schedule.callFinalCost.toNat ≤
      world.machine.gas.active.limit.toNat) :
    outcome (host.conclude answer) world =
      (answer, world.setGas (world.machine.gas.active.spend host.rules.schedule.callFinalCost)) := by
  rw [conclude, outcome_bind_of_ok (charge_covered covered)]
  cases answer <;> rfl

theorem conclude_exceeded (host : Host environment) (answer : Except Failure Unit) {world : World environment}
    (exceeded : world.machine.gas.active.limit.toNat <
      world.machine.gas.active.used.toNat + host.rules.schedule.callFinalCost.toNat) :
    ∃ total, outcome (host.conclude answer) world =
      (.error (.outOfGas total world.machine.gas.active.limit), world.setGas world.machine.gas.active.exhausted) := by
  obtain ⟨total, stopped⟩ := charge_exceeded exceeded
  exact ⟨total, outcome_bind_of_error stopped⟩

private theorem transferCallValue_staged (rules : Rules) (input : CallInput) (world : World environment) :
    Leaves (Run.onMachine (fun ledger => Operations.transferCallValue ledger input)) world (world.Staged rules) :=
  Run.onMachine_leaves (Operations.transferCallValue_staged input world.machine)

theorem prepared_spent (host : Host environment) (input : CallInput) (world : World environment) :
    Leaves (Run.onMachine (fun ledger => host.prepare ledger input)) world world.Spent :=
  (Run.onMachine_leaves (host.prepare_spent input world.machine)).weaken (fun _ spent => ⟨spent.1, spent.2⟩)

theorem stage_staged (host : Host environment) (input : CallInput) (world : World environment) :
    Leaves (host.stage input) world (world.Staged host.rules) := by
  refine Leaves.bind (transferCallValue_staged host.rules input world) (fun _ => id) ?_
  intro _ moved moving
  refine (prepared_spent host input moved).weaken ?_
  exact fun _ spent => moving.trans ⟨spent.ledger, .of_spent spent.machine⟩

theorem enter_refused (host : Host environment) (input : CallInput) {world : World environment}
    (deep : host.rules.maxCallDepth ≤ world.machine.callDepth) :
    Run.onMachine (fun _ => Action.enter host.rules input.recipient input.caller input.kind) world =
      .error (.callDepthExceeded world.machine.callDepth) world := by
  simp only [Run.onMachine, Action.enter, if_pos deep]

theorem enter_admitted (host : Host environment) (input : CallInput) {world : World environment}
    (room : world.machine.callDepth < host.rules.maxCallDepth) :
    Run.onMachine (fun _ => Action.enter host.rules input.recipient input.caller input.kind) world =
      .ok world.machine.callDepth { world with machine := world.machine.joined input } := by
  simp only [Run.onMachine, Action.enter, if_neg (Nat.not_le.mpr room), Machine.joined]

theorem attempt_refused (host : Host environment) (input : CallInput) {world : World environment}
    (deep : host.rules.maxCallDepth ≤ world.machine.callDepth) :
    Run.onMachine (fun _ => Action.attempt (Action.enter host.rules input.recipient input.caller input.kind)) world =
      .ok (.error (.callDepthExceeded world.machine.callDepth)) world := by
  simp only [Run.onMachine, Action.attempt, Action.enter, if_pos deep]

theorem attempt_admitted (host : Host environment) (input : CallInput) {world : World environment}
    (room : world.machine.callDepth < host.rules.maxCallDepth) :
    Run.onMachine (fun _ => Action.attempt (Action.enter host.rules input.recipient input.caller input.kind)) world =
      .ok (.ok world.machine.callDepth) { world with machine := world.machine.joined input } := by
  simp only [Run.onMachine, Action.attempt, Action.enter, if_neg (Nat.not_le.mpr room), Machine.joined]

/-- The world in which a nested call begins: it has been paid for, and its frame is open. -/
def entered (host : Host environment) (context : Context) (input : CallInput) (world : World environment) :
    World environment :=
  let addressed := addressed context input world
  let paid := world.machine.setGas (host.reserved context input.gas world.machine.gas.active)
  { world with machine := enterNested context addressed (paid.joined addressed) }

def callee (execute : CallInput → Run environment Unit) (input : CallInput) : Run environment Unit := do
  Run.onMachine (fun ledger => Operations.transferCallValue ledger input)
  execute input

/-- What a callee leaves behind once its frame has been closed by its outcome: its output, and the gas that is given
back where it has succeeded. -/
def closed (host : Host environment) (context : Context) (input : CallInput) (world : World environment)
    (ended : Except Failure Unit × World environment) : World environment :=
  let reserved := host.reserved context input.gas world.machine.gas.active
  { ended.2 with
    machine :=
      { world.machine with
        layers := ended.2.machine.layers.step (context.leaving ended.1.isOk)
        gas := { world.machine.gas with
          active := if ended.1.isOk then reserved.absorb ended.2.machine.gas.active else reserved } } }

theorem leaveNested_eq (context : Context) (succeeded : Bool) (machine : Machine) :
    leaveNested context succeeded machine =
      { scopes := machine.scopes.restore
        layers := machine.layers.step (context.leaving succeeded)
        gas := if succeeded then machine.gas.restoreWith GasTracker.absorb else machine.gas.restore
        frames := machine.frames.restore
        calls := machine.calls.tail } := by
  cases succeeded <;> cases context <;> rfl

theorem leaveNested_kept {context : Context} {input : CallInput} {machine ended : Machine}
    (kept : (enterNested context input (machine.joined input)).Kept ended) (succeeded : Bool) :
    leaveNested context succeeded ended =
      { machine with
        layers := ended.layers.step (context.leaving succeeded)
        gas := { machine.gas with
          active := if succeeded then machine.gas.active.absorb ended.gas.active else machine.gas.active } } := by
  have scopes : ended.scopes.saved = machine.scopes.active :: machine.scopes.saved := by
    rw [kept.scopes]
    cases context <;> rfl
  have trackers : ended.gas.saved = machine.gas.active :: machine.gas.saved := by
    rw [kept.trackers]
    cases context <;> rfl
  have frames : ended.frames.saved = machine.frames.active :: machine.frames.saved := by
    rw [kept.frames]
    cases context <;> rfl
  have calls : ended.calls.tail = machine.calls := by
    rw [kept.calls]
    cases context <;> rfl
  -- All that is restored has stayed beneath the frame; the layers alone are merged by the context.
  rw [leaveNested_eq, calls]
  simp only [Stacked.restore, Stacked.restoreWith, scopes, trackers, frames]
  cases succeeded <;> rfl

theorem runNested_apply (context : Context) (input : CallInput) (callee : Run environment Unit)
    (world : World environment) :
    runNested context input callee world =
      let ended := outcome callee { world with machine := enterNested context input world.machine }
      .ok ended.1 { ended.2 with machine := leaveNested context ended.1.isOk ended.2.machine } := by
  simp only [runNested, outcome]
  cases callee { world with machine := enterNested context input world.machine } <;> rfl

theorem runAdmitted_refused (host : Host environment) (execute : CallInput → Run environment Unit) (context : Context)
    (input : CallInput) {world : World environment} (deep : host.rules.maxCallDepth ≤ world.machine.callDepth) :
    host.runAdmitted execute context input world = .ok (.error (.callDepthExceeded world.machine.callDepth)) world := by
  rw [runAdmitted, bind_of_ok (host.attempt_refused input deep)]
  rfl

theorem runAdmitted_entered (host : Host environment) (execute : CallInput → Run environment Unit) (context : Context)
    (input : CallInput) {world : World environment} (room : world.machine.callDepth < host.rules.maxCallDepth) :
    host.runAdmitted execute context input world =
      runNested context input (callee execute input) { world with machine := world.machine.joined input } := by
  rw [runAdmitted, bind_of_ok (host.attempt_admitted input room)]
  rfl

private theorem isOk_of_ne {answer : Except Failure Unit} (failed : answer ≠ .ok ()) : answer.isOk = false := by
  cases answer with
  | ok _ => exact absurd rfl failed
  | error failure => rfl

theorem eq_ok_of_isOk {answer : Except Failure Unit} (succeeded : answer.isOk = true) : answer = .ok () := by
  cases answer with
  | ok _ => rfl
  | error failure => cases succeeded

theorem callee_framed (host : Host environment) {execute : CallInput → Run environment Unit}
    (framed : ∀ input world, Leaves (execute input) world world.Framed) (input : CallInput) (world : World environment) :
    Leaves (callee execute input) world world.Framed := by
  refine Leaves.bind (transferCallValue_staged host.rules input world) (fun _ kept => kept.2.kept.layers) ?_
  intro _ paid moved
  exact (framed input paid).weaken (fun _ => moved.2.kept.layers.trans)

theorem runAdmitted_ensures (host : Host environment) {execute : CallInput → Run environment Unit}
    (framed : ∀ input world, Leaves (execute input) world world.Framed) (context : Context) (input : CallInput)
    (world : World environment) :
    Ensures (host.runAdmitted execute context input) world
      (fun answer after => world.Framed after ∧ (answer ≠ .ok () → after.machine.layers = world.machine.layers))
      (fun _ _ => False) := by
  rcases Nat.lt_or_ge world.machine.callDepth host.rules.maxCallDepth with room | deep
  · let joined : World environment := { world with machine := world.machine.joined input }
    have ended : World.Framed { joined with machine := enterNested context input joined.machine }
        (outcome (callee execute input) { joined with machine := enterNested context input joined.machine }).2 :=
      (host.callee_framed framed input _).state
    rw [World.Framed, Context.layers_enterNested] at ended
    simp only [Ensures, host.runAdmitted_entered execute context input room, runNested_apply]
    refine ⟨?_, ?_⟩
    · rw [World.Framed, Context.layers_leaveNested]
      exact ended.leave _
    · intro failed
      rw [Context.layers_leaveNested, isOk_of_ne failed]
      exact ended.revert
  · simp only [Ensures, host.runAdmitted_refused execute context input deep, implies_true, and_true]
    exact .refl _

section Call

variable (host : Host environment) {execute : CallInput → Run environment Unit} {context : Context} {input : CallInput}
  {world : World environment}

/-- The caller has the gas for the call and for what it hands on. -/
def Covers (context : Context) (input : CallInput) (world : World environment) : Prop :=
  world.machine.gas.active.used.toNat + (host.rules.schedule.callCost context).toNat + input.gas.toNat ≤
    world.machine.gas.active.limit.toNat

theorem outcome_call :
    outcome (host.call execute context input) world =
      outcome (host.reserve context input.gas >>= fun _ =>
        host.runAdmitted execute context (addressed context input world) >>= host.conclude) world := by
  simp only [outcome, call_apply]

theorem call_exceeded (short : ¬host.Covers context input world) :
    ∃ total, outcome (host.call execute context input) world =
      (.error (.outOfGas total world.machine.gas.active.limit), world.setGas world.machine.gas.active.exhausted) := by
  obtain ⟨total, stopped⟩ := host.reserve_exceeded (Nat.lt_of_not_le short)
  exact ⟨total, (host.outcome_call).trans (outcome_bind_of_error stopped)⟩

theorem call_refused (covered : host.Covers context input world)
    (deep : host.rules.maxCallDepth ≤ world.machine.callDepth) :
    outcome (host.call execute context input) world =
      outcome (host.conclude (.error (.callDepthExceeded world.machine.callDepth)))
        (world.setGas (host.reserved context input.gas world.machine.gas.active)) := by
  let paid := world.setGas (host.reserved context input.gas world.machine.gas.active)
  have still : host.rules.maxCallDepth ≤ paid.machine.callDepth := deep
  rw [outcome_call, outcome_bind_of_ok (host.reserve_covered covered),
    outcome_bind_of_ok (host.runAdmitted_refused execute context _ still)]
  rfl

/-- A callee ends with what belongs to its caller as it was, and the call goes on from there. -/
theorem call_entered (kept : ∀ input world, Leaves (execute input) world world.Kept)
    (covered : host.Covers context input world) (room : world.machine.callDepth < host.rules.maxCallDepth) :
    let ended := outcome (callee execute (addressed context input world)) (host.entered context input world)
    (host.entered context input world).Kept ended.2 ∧
      outcome (host.call execute context input) world =
        outcome (host.conclude ended.1) (host.closed context input world ended) := by
  intro ended
  have framed : (host.entered context input world).Kept ended.2 := by
    refine Leaves.state (Leaves.bind (transferCallValue_staged host.rules _ _) (fun _ => World.Staged.kept) ?_)
    intro _ paid moved
    exact (kept _ paid).weaken (fun _ => moved.kept.trans)
  let paid := world.setGas (host.reserved context input.gas world.machine.gas.active)
  have still : paid.machine.callDepth < host.rules.maxCallDepth := room
  have admitted : host.runAdmitted execute context (addressed context input world) paid =
      .ok ended.1 (host.closed context input world ended) := by
    rw [host.runAdmitted_entered execute context _ still, runNested_apply]
    change EStateM.Result.ok ended.1 { ended.2 with machine := leaveNested context ended.1.isOk ended.2.machine } = _
    rw [leaveNested_kept framed]
    rfl
  refine ⟨framed, ?_⟩
  rw [outcome_call, outcome_bind_of_ok (host.reserve_covered covered), outcome_bind_of_ok admitted]

/-- The callee's frame has been closed by how it ended, and nothing but gas has been used since. -/
structure Returned (context : Context) (ended : Except Failure Unit × World environment)
    (world after : World environment) : Prop where
  ledger : after.ledger = ended.2.ledger
  machine : after.machine =
    { world.machine with
      layers := ended.2.machine.layers.step (context.leaving ended.1.isOk)
      gas := { world.machine.gas with active := after.machine.gas.active } }
  gas : world.machine.gas.active.Runs after.machine.gas.active
  freed : after.machine.gasFreed =
    if ended.1.isOk then Gas.add world.machine.gasFreed ended.2.machine.gasFreed else world.machine.gasFreed

theorem toNat_reserved (covered : host.Covers context input world) :
    (host.reserved context input.gas world.machine.gas.active).used.toNat =
      world.machine.gas.active.used.toNat + (host.rules.schedule.callCost context).toNat + input.gas.toNat := by
  rw [Covers] at covered
  have first : world.machine.gas.active.used.toNat + (host.rules.schedule.callCost context).toNat ≤
      world.machine.gas.active.limit.toNat := by omega
  rw [← GasTracker.toNat_spend first] at covered ⊢
  exact GasTracker.toNat_spend covered

theorem entered_gas : (host.entered context input world).machine.gas =
    ⟨{ limit := input.gas }, host.reserved context input.gas world.machine.gas.active :: world.machine.gas.saved⟩ := by
  cases context <;> rfl

theorem entered_layers :
    (host.entered context input world).machine.layers = world.machine.layers.step context.entering :=
  context.layers_enterNested _ _

variable {ended : Except Failure Unit × World environment} {middle after : World environment}

theorem callee_gas (kept : (host.entered context input world).Kept ended.2) :
    ended.2.machine.gas.active.limit = input.gas ∧
      ended.2.machine.gas.active.used.toNat ≤ ended.2.machine.gas.active.limit.toNat := by
  have runs := kept.gas
  rw [entered_gas] at runs
  exact ⟨runs.limit, (runs.used (Nat.zero_le _)).2⟩

private theorem reserved_runs (covered : host.Covers context input world) :
    world.machine.gas.active.Runs (host.reserved context input.gas world.machine.gas.active) where
  limit := rfl
  used _ := by
    rw [host.toNat_reserved covered]
    exact ⟨Nat.le_trans (Nat.le_add_right _ _) (Nat.le_add_right _ _), covered⟩
  freed := Nat.le_refl _

private theorem closed_returned (covered : host.Covers context input world)
    (kept : (host.entered context input world).Kept ended.2) :
    Returned context ended world (host.closed context input world ended) := by
  have paid := host.toNat_reserved covered
  have runs := host.reserved_runs covered
  obtain ⟨limit, fits⟩ := host.callee_gas kept
  refine ⟨rfl, rfl, ?_, ?_⟩
  · simp only [closed]
    cases ended.1.isOk with
    | false => exact runs
    | true =>
      refine runs.absorb fits ?_
      rw [paid, limit]
      omega
  · simp only [closed, Machine.gasFreed]
    cases ended.1.isOk <;> rfl

namespace Returned

variable (returned : Returned context ended world middle)
include returned

private theorem spent (spent : middle.Spent after) : Returned context ended world after where
  ledger := spent.ledger.trans returned.ledger
  machine := by
    rw [spent.machine.rest, returned.machine]
    rfl
  gas := returned.gas.trans spent.machine.gas
  freed := spent.machine.freed.trans returned.freed

theorem layers : middle.machine.layers = ended.2.machine.layers.step (context.leaving ended.1.isOk) := by
  rw [returned.machine]

private theorem kept (kept : (host.entered context input world).Kept ended.2) : world.Kept middle := by
  have framed := kept.layers
  rw [entered_layers] at framed
  have layers : world.machine.layers.Framed middle.machine.layers := by
    rw [returned.layers]
    exact framed.leave _
  have runs := returned.gas
  rw [World.Kept, returned.machine]
  exact ⟨rfl, id, rfl, returned.layers ▸ layers, runs, rfl, rfl, rfl, rfl⟩

private theorem spent_of_failed (kept : (host.entered context input world).Kept ended.2) (failed : ended.1.isOk = false)
    (ledger : ended.2.ledger = world.ledger) : world.Spent middle where
  ledger := returned.ledger.trans ledger
  machine := by
    have framed := kept.layers
    rw [entered_layers] at framed
    have layers : ended.2.machine.layers.step (context.leaving ended.1.isOk) = world.machine.layers := by
      rw [failed]
      exact framed.revert
    refine ⟨?_, returned.gas, ?_⟩
    · rw [returned.machine, layers]
      rfl
    · rw [returned.freed, failed]
      rfl

end Returned

/-- A nested call that is not let in costs gas and nothing else. Any other runs its callee in a frame of its own. -/
theorem call_cases (kept : ∀ input world, Leaves (execute input) world world.Kept) (context : Context)
    (input : CallInput) (world : World environment) :
    Leaves (host.call execute context input) world (fun after =>
      (world.Spent after ∧ ¬(host.Covers context input world ∧ world.machine.callDepth < host.rules.maxCallDepth)) ∨
        ∃ ended, ended = outcome (callee execute (addressed context input world)) (host.entered context input world) ∧
          (host.Covers context input world ∧ world.machine.callDepth < host.rules.maxCallDepth) ∧
          (host.entered context input world).Kept ended.2 ∧ Returned context ended world after) := by
  rw [leaves_iff]
  by_cases covered : host.Covers context input world
  · rcases Nat.lt_or_ge world.machine.callDepth host.rules.maxCallDepth with room | deep
    · obtain ⟨framed, called⟩ := host.call_entered kept covered room
      rw [called]
      refine .inr ⟨_, rfl, ⟨covered, room⟩, framed, ?_⟩
      exact (host.closed_returned covered framed).spent (host.conclude_spent _ _).state
    · rw [host.call_refused covered deep]
      have paid : world.Spent (world.setGas (host.reserved context input.gas world.machine.gas.active)) :=
        ⟨rfl, ⟨rfl, host.reserved_runs covered, rfl⟩⟩
      exact .inl ⟨paid.trans (host.conclude_spent _ _).state, fun let_in => Nat.not_lt.mpr deep let_in.2⟩
  · have exceeded : ∃ total, outcome (host.call execute context input) world = _ := host.call_exceeded covered
    obtain ⟨total, stopped⟩ := exceeded
    rw [stopped]
    refine .inl ⟨⟨rfl, ⟨rfl, ?_, rfl⟩⟩, fun let_in => covered let_in.1⟩
    exact ⟨rfl, fun fits => ⟨fits, Nat.le_refl _⟩, Nat.le_refl _⟩

private theorem call_kept (kept : ∀ input world, Leaves (execute input) world world.Kept) (context : Context)
    (input : CallInput) (world : World environment) : Leaves (host.call execute context input) world world.Kept := by
  refine (host.call_cases kept context input world).weaken ?_
  intro after cases
  rcases cases with ⟨spent, -⟩ | ⟨ended, -, -, framed, returned⟩
  · exact spent.kept
  · exact returned.kept host framed

end Call

theorem serve_kept (host : Host environment) (nested : Context → CallInput → Run environment Unit)
    (operation : Operation) (elementary : ∀ context input, operation ≠ .call context input)
    (world : World environment) : Leaves (host.serve nested operation) world world.Kept := by
  by_cases moded : ∃ on, operation = .setReadOnly on
  · obtain ⟨on, rfl⟩ := moded
    exact ⟨rfl, id, rfl, .refl _, .refl _, rfl, rfl, rfl, rfl⟩
  refine (host.serve_works nested operation elementary (fun on same => moded ⟨on, same⟩) world).weaken ?_ ?_
  · exact fun _ after works => works.2.kept_all
  · rintro _ after ⟨-, works | ⟨-, undone⟩⟩
    · exact works.kept_all
    · exact undone.kept

theorem run_kept (host : Host environment) {nested : Context → CallInput → Run environment Unit}
    (kept : ∀ context input world, Leaves (nested context input) world world.Kept)
    (body : Program environment Unit) (world : World environment) :
    Leaves (body.run (host.serve nested)) world world.Kept := by
  have refl (world : World environment) : world.Kept world := .refl _
  refine Program.run_leaves World.Kept refl (fun _ _ _ => .trans) ?_ (fun _ _ => refl _) body world
  intro operation world
  rcases operation.elementary_or_call with elementary | ⟨context, input, rfl⟩
  · exact host.serve_kept nested operation elementary world
  · exact kept context input world

theorem executeWithin_kept (host : Host environment) (depthLeft : Nat) (input : CallInput)
    (world : World environment) : Leaves (host.executeWithin depthLeft input) world world.Kept := by
  induction depthLeft generalizing input world with
  | zero => exact Machine.Kept.refl _
  | succ depthLeft ih =>
    have nested (context : Context) (input : CallInput) (world : World environment) :
        Leaves (host.callWithin depthLeft context input) world world.Kept := by
      rw [callWithin_eq]
      exact host.call_kept ih context input world
    refine Leaves.bind (host.prepared_spent input world) (fun _ => World.Spent.kept) ?_
    intro body prepared spent
    exact (host.run_kept nested body prepared).weaken (fun _ => spent.kept.trans)

theorem callWithin_kept (host : Host environment) (depthLeft : Nat) (context : Context) (input : CallInput)
    (world : World environment) : Leaves (host.callWithin depthLeft context input) world world.Kept := by
  rw [callWithin_eq]
  exact host.call_kept (host.executeWithin_kept depthLeft) context input world

theorem executeWithin_framed (host : Host environment) (depthLeft : Nat) (input : CallInput)
    (world : World environment) : Leaves (host.executeWithin depthLeft input) world world.Framed :=
  (host.executeWithin_kept depthLeft input world).weaken (fun _ => World.Kept.framed)

theorem callee_staged (host : Host environment) (depthLeft : Nat) (input : CallInput) :
    callee (host.executeWithin (depthLeft + 1)) input =
      host.stage input >>= fun body => body.run (host.serve (host.callWithin depthLeft)) := by
  simp only [stage, bind_assoc]
  rfl

/-- Running a callee beneath which there is no room, or whose code cannot be prepared, is over before its code runs. -/
theorem callee_cases (host : Host environment) (depthLeft : Nat) (input : CallInput) (world : World environment) :
    let ended := outcome (callee (host.executeWithin depthLeft) input) world
    (ended.1.isOk = false ∧ ended.2.ledger = world.ledger ∧
        ∀ depth body inside, depthLeft = depth + 1 → host.stage input world ≠ .ok body inside) ∨
      ∃ depth body inside, depthLeft = depth + 1 ∧ host.stage input world = .ok body inside ∧
        ended = outcome (body.run (host.serve (host.callWithin depth))) inside := by
  cases depthLeft with
  | zero =>
    have moved := transferCallValue_staged host.rules input world
    refine .inl ?_
    cases paid : Run.onMachine (fun ledger => Operations.transferCallValue ledger input) world with
    | ok _ after =>
      rw [callee, outcome_bind_of_ok paid]
      exact ⟨rfl, (moved.of_ok paid).1, fun _ _ _ absurd => nomatch absurd⟩
    | error failure after =>
      rw [callee, outcome_bind_of_error paid]
      exact ⟨rfl, (moved.of_error paid).1, fun _ _ _ absurd => nomatch absurd⟩
  | succ depth =>
    rw [callee_staged]
    cases staged : host.stage input world with
    | ok body inside =>
      rw [outcome_bind_of_ok staged]
      exact .inr ⟨depth, body, inside, rfl, rfl, rfl⟩
    | error failure after =>
      rw [outcome_bind_of_error staged]
      exact .inl ⟨rfl, ((host.stage_staged input world).of_error staged).1, fun _ _ _ _ returns => nomatch returns⟩

theorem descend_iff (host : Host environment) {context : Context} {input : CallInput} {world inside : World environment}
    {body : Program environment Unit} :
    host.descend context input world = .ok body inside ↔
      host.Covers context input world ∧ world.machine.callDepth < host.rules.maxCallDepth ∧
        host.stage (addressed context input world) (host.entered context input world) = .ok body inside := by
  let addressed := addressed context input world
  have descending : host.descend context input world =
      (host.reserve context input.gas >>= fun _ =>
        Run.onMachine (fun _ => Action.enter host.rules addressed.recipient addressed.caller addressed.kind) >>= fun _ =>
          Run.onMachine (fun _ => modify (enterNested context addressed)) >>= fun _ => host.stage addressed) world := rfl
  by_cases covered : host.Covers context input world
  · let paid := world.setGas (host.reserved context input.gas world.machine.gas.active)
    rw [descending, bind_of_ok (host.reserve_covered covered)]
    rcases Nat.lt_or_ge world.machine.callDepth host.rules.maxCallDepth with room | deep
    · have admitted : paid.machine.callDepth < host.rules.maxCallDepth := room
      rw [bind_of_ok (host.enter_admitted addressed admitted)]
      exact ⟨fun staged => ⟨covered, room, staged⟩, fun holds => holds.2.2⟩
    · have refused : host.rules.maxCallDepth ≤ paid.machine.callDepth := deep
      rw [bind_of_error (host.enter_refused addressed refused)]
      exact ⟨nofun, fun holds => absurd holds.2.1 (Nat.not_lt.mpr deep)⟩
  · obtain ⟨total, stopped⟩ := host.reserve_exceeded (Nat.lt_of_not_le covered)
    rw [descending, bind_of_error stopped]
    exact ⟨nofun, fun holds => absurd holds.1 covered⟩

theorem callWithin_cases (host : Host environment) (depthLeft : Nat) (context : Context) (input : CallInput)
    (world : World environment) :
    Leaves (host.callWithin depthLeft context input) world (fun after =>
      (world.Spent after ∧
        ∀ depth body inside, depthLeft = depth + 1 → host.descend context input world ≠ .ok body inside) ∨
      ∃ depth body inside, depthLeft = depth + 1 ∧ host.descend context input world = .ok body inside ∧
        Returned context (outcome (body.run (host.serve (host.callWithin depth))) inside) world after) := by
  rw [callWithin_eq]
  refine (host.call_cases (host.executeWithin_kept depthLeft) context input world).weaken ?_
  intro after cases
  rcases cases with ⟨spent, shut⟩ | ⟨ended, rfl, let_in, framed, returned⟩
  · refine .inl ⟨spent, fun depth body inside _ descends => shut ?_⟩
    obtain ⟨covered, room, -⟩ := host.descend_iff.mp descends
    exact ⟨covered, room⟩
  rcases host.callee_cases depthLeft (addressed context input world) (host.entered context input world) with
    ⟨failed, ledger, stopped⟩ | ⟨depth, body, inside, rfl, staged, ended⟩
  · refine .inl ⟨returned.spent_of_failed host framed failed ledger, fun depth body inside some descends => ?_⟩
    exact stopped depth body inside some (host.descend_iff.mp descends).2.2
  · rw [ended] at returned
    exact .inr ⟨depth, body, inside, rfl, host.descend_iff.mpr ⟨let_in.1, let_in.2, staged⟩, returned⟩

theorem descend_staged (host : Host environment) {context : Context} {input : CallInput}
    {world inside : World environment} {body : Program environment Unit}
    (descends : host.descend context input world = .ok body inside) :
    (host.entered context input world).Staged host.rules inside := by
  obtain ⟨-, -, staged⟩ := host.descend_iff.mp descends
  exact (host.stage_staged _ _).of_ok staged

theorem descend_advances (host : Host environment) {context : Context} {input : CallInput}
    {world inside : World environment} {body : Program environment Unit}
    (descends : host.descend context input world = .ok body inside) :
    inside.ledger = world.ledger ∧
      Layers.Advances host.rules.schedule world.ledger Layers.nowhere
        (world.machine.layers.step context.entering) inside.machine.layers := by
  obtain ⟨ledger, staged⟩ := host.descend_staged descends
  have advanced := staged.layers
  rw [Machine.Advances, entered_layers] at advanced
  exact ⟨ledger, advanced⟩

end Host

end ContractHost
