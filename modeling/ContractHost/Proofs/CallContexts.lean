import ContractHost.Proofs.Resemblance
import ContractHost.Proofs.Resumption

/-! The two contexts of a call to oneself. A contract that runs on its own storage can call itself in its own context or
in the callee's, which is then the same: one way the callee goes on in a copy of the output, the other way in an empty
layer over it. All code runs in step from worlds that resemble one another, so that both ways give the same answer and
the same end of the transaction. -/

namespace ContractHost

variable {environment : Environment} {α β : Type}

/-- Nothing around the host differs, and in the machine nothing that code can ask for. -/
structure World.Resembles (first second : World environment) : Prop where
  machine : first.machine.Resembles second.machine
  ledger : first.ledger = second.ledger
  memory : first.memory = second.memory

theorem World.Resembles.refl (world : World environment) : world.Resembles world := ⟨.refl _, rfl, rfl⟩

/-- What surrounds the host does not tell machines apart either that code cannot tell apart. -/
def Environment.Impartial (environment : Environment) : Prop :=
  ∀ (question : environment.Question) (first second : Machine) (ledger : Ledger) (memory : environment.Memory),
    first.Resembles second →
      environment.respond question first ledger memory = environment.respond question second ledger memory

private theorem Environment.silent_impartial : Environment.silent.Impartial := nofun

namespace Context

/-- The account whose storage a call in the context works on. -/
def home (context : Context) (own recipient : Address) : Address :=
  match context with
  | .same => own
  | .destination => recipient

private theorem home_self (context : Context) (address : Address) : context.home address address = address := by
  cases context <;> rfl

end Context

namespace Machine.Resembles

variable {first second : Machine}

private theorem joined (same : first.Resembles second) {input also : CallInput}
    (alike : input.unlabelled = also.unlabelled) :
    (first.joined input).Resembles (second.joined also) := by
  refine { same with calls := ?_ }
  have record (machine : Machine) (input : CallInput) :
      (machine.joined input).calls.map CallRecord.unlabelled =
        ⟨input.unlabelled.recipient, input.unlabelled.caller, .direct, machine.callDepth⟩ ::
          machine.calls.map CallRecord.unlabelled := rfl
  rw [record, record, alike, same.callDepth, same.calls]

/-- The frames of a call in either context resemble one another, if a context of its own is that of the caller. -/
theorem enterNested (same : first.Resembles second) {one other : Context} {input also : CallInput}
    (alike : input.unlabelled = also.unlabelled) (home : one = other ∨ input.recipient = first.storageAddress) :
    (Host.enterNested one input first).Resembles (Host.enterNested other also second) := by
  have recipient : input.recipient = also.recipient := (congrArg CallInput.recipient alike :)
  have opened (context : Context) (input : CallInput) (machine : Machine) :
      Host.enterNested context input machine =
        { scopes := machine.scopes.push (fun scope =>
            { address := context.home scope.address input.recipient, isProtected := true })
          layers := machine.layers.step context.entering
          gas := machine.gas.push (fun _ => { limit := input.gas })
          frames := (machine.frames.push id).modify (fun frame => { frame with input })
          calls := machine.calls } := by
    cases context <;> rfl
  have accumulated (context : Context) (layers : Layers) :
      (layers.step context.entering).accumulated = layers.accumulated.push id := by
    cases context with
    | same => exact Layers.accumulated_continued layers
    | destination => exact Layers.accumulated_isolated layers
  rw [opened, opened]
  refine ⟨?_, ?_, ?_, ?_, same.calls⟩
  · rw [same.scopes]
    have scope : first.storageAddress = second.scopes.active.address := same.storageAddress
    rcases home with rfl | home
    · rw [recipient]
    · rw [home, scope] at recipient
      simp only [Stacked.push, home, scope, ← recipient, Context.home_self]
  · rw [accumulated, accumulated, same.layers]
  · have limit : input.gas = also.gas := (congrArg CallInput.gas alike :)
    rw [same.gas, limit]
  · have entered (frames : Stacked Frame) (input : CallInput) :
        ((frames.push id).modify (fun frame => { frame with input })).map Frame.unlabelled =
          ((frames.map Frame.unlabelled).push id).modify (fun frame => { frame with input := input.unlabelled }) := rfl
    rw [entered, entered, same.frames, alike]

/-- Closing the frames of calls that end alike leaves machines that resemble one another. A callee in the caller's
context has stayed in the layer that was opened for it. -/
theorem leaveNested (same : first.Resembles second) {one other : Context} (succeeded : Bool)
    (stayed : one = .same → first.layers.active.isolated = false)
    (also : other = .same → second.layers.active.isolated = false) :
    (Host.leaveNested one succeeded first).Resembles (Host.leaveNested other succeeded second) := by
  have accumulated (context : Context) (layers : Layers) (stayed : context = .same → layers.active.isolated = false) :
      (layers.step (context.leaving succeeded)).accumulated =
        if succeeded then layers.accumulated.forget else layers.accumulated.restore := by
    cases succeeded with
    | false => exact Layers.accumulated_revert layers
    | true =>
      cases context with
      | same => exact Layers.accumulated_keep layers (stayed rfl)
      | destination => exact Layers.accumulated_merge layers
  rw [Host.leaveNested_eq, Host.leaveNested_eq]
  refine ⟨?_, ?_, ?_, ?_, ?_⟩
  · rw [same.scopes]
  · rw [accumulated one _ stayed, accumulated other _ also, same.layers]
  · rw [same.gas]
  · rw [Stacked.map_restore, Stacked.map_restore, same.frames]
  · rw [List.map_tail, List.map_tail, same.calls]

end Machine.Resembles

namespace Run

variable {first second : World environment}

private theorem onMachine_inStep {action : Ledger → Action α} (faithful : ∀ ledger, (action ledger).Faithful)
    (same : first.Resembles second) : InStep World.Resembles (onMachine action) (onMachine action) first second := by
  have apply (world : World environment) : outcome (onMachine action) world =
      ((outcome (action world.ledger) world.machine).1,
        { world with machine := (outcome (action world.ledger) world.machine).2 }) := by
    simp only [outcome, onMachine]
    cases action world.ledger world.machine <;> rfl
  obtain ⟨reply, leaves⟩ := faithful second.ledger _ _ same.machine
  refine ⟨?_, ?_⟩ <;> rw [apply, apply, same.ledger]
  · exact reply
  · exact ⟨leaves, rfl, same.memory⟩

private theorem inspect_inStep {view : Machine → α} (sees : view first.machine = view second.machine)
    (same : first.Resembles second) : InStep World.Resembles (inspect view) (inspect view) first second :=
  ⟨congrArg Except.ok sees, same⟩

end Run

/-- The call answers alike in worlds that resemble one another and leaves worlds that do. -/
def Host.CallsInStep (nested : Context → CallInput → Run environment Unit) : Prop :=
  ∀ context input (first second : World environment), first.Resembles second →
    InStep World.Resembles (nested context input) (nested context input) first second

namespace Host

variable {host : Host environment} {first second : World environment}

private theorem serve_inStep {nested : Context → CallInput → Run environment Unit} (calls : CallsInStep nested)
    (operation : Operation) (same : first.Resembles second) :
    InStep World.Resembles (host.serve nested operation) (host.serve nested operation) first second := by
  cases operation with
  | store key value =>
    simp only [serve]
    exact Run.onMachine_inStep (fun _ => Operations.store_faithful key value) same
  | load key =>
    simp only [serve]
    exact Run.onMachine_inStep (fun _ => Operations.load_faithful key) same
  | loadFrom address key =>
    simp only [serve]
    exact Run.onMachine_inStep (fun _ => Operations.loadFrom_faithful address key) same
  | argument index =>
    simp only [serve]
    exact Run.onMachine_inStep (fun _ => Operations.argument_faithful index) same
  | arguments =>
    simp only [serve]
    exact Run.inspect_inStep same.machine.arguments same
  | caller =>
    simp only [serve]
    exact Run.inspect_inStep same.machine.caller same
  | contract =>
    simp only [serve]
    exact Run.inspect_inStep same.machine.contract same
  | callValue =>
    simp only [serve]
    exact Run.inspect_inStep same.machine.callValue same
  | finish data =>
    simp only [serve]
    exact Run.onMachine_inStep (fun _ => Operations.finish_faithful data) same
  | transfer destination value =>
    simp only [serve]
    exact Run.onMachine_inStep (fun _ => Operations.transfer_faithful destination value) same
  | log topics data =>
    simp only [serve]
    exact Run.onMachine_inStep (fun _ => Operations.log_faithful topics data) same
  | useGas amount =>
    simp only [serve]
    exact Run.onMachine_inStep (fun _ => .charge amount) same
  | gasLeft =>
    simp only [serve]
    exact Run.inspect_inStep same.machine.gasLeft same
  | isReadOnly =>
    simp only [serve]
    exact Run.inspect_inStep same.machine.readOnly same
  | setReadOnly on =>
    simp only [serve]
    exact Run.onMachine_inStep (fun _ => .modify (fun _ _ same => same.setReadOnly on)) same
  | call context input => exact calls context input first second same
  | tokenBalance address token =>
    simp only [serve]
    exact Run.onMachine_inStep (fun _ => Token.balance_faithful address token) same
  | tokenMint token amount =>
    simp only [serve]
    exact Run.onMachine_inStep (fun _ => Token.mint_faithful token amount) same
  | tokenTransfer token destination amount =>
    simp only [serve]
    exact Run.onMachine_inStep (fun _ => Token.transfer_faithful token destination amount) same

private theorem run_inStep {nested : Context → CallInput → Run environment Unit} (impartial : environment.Impartial)
    (calls : CallsInStep nested) (program : Program environment α) (same : first.Resembles second) :
    InStep World.Resembles (program.run (host.serve nested)) (program.run (host.serve nested)) first second := by
  induction program generalizing first second with
  | done value => exact ⟨rfl, same⟩
  | fail failure => exact ⟨rfl, same⟩
  | request operation next ih =>
    have step (world : World environment) : outcome (Program.run (host.serve nested) (.request operation next)) world =
        outcome ((next (outcome (host.serve nested operation) world).1).run (host.serve nested))
          (outcome (host.serve nested operation) world).2 := by
      simp only [outcome, Program.run]
      cases host.serve nested operation world <;> rfl
    have served : InStep World.Resembles (host.serve nested operation) (host.serve nested operation) first second :=
      serve_inStep calls operation same
    obtain ⟨reply, leaves⟩ := served
    obtain ⟨answers, ends⟩ := ih _ leaves
    refine ⟨?_, ?_⟩ <;> rw [step, step, ← reply]
    · exact answers
    · exact ends
  | consult question next ih =>
    have responds := impartial question first.machine second.machine first.ledger first.memory same.machine
    rcases answered : environment.respond question first.machine first.ledger first.memory with ⟨answer, ledger, memory⟩
    have leaves : World.Resembles { first with ledger, memory } { second with ledger, memory } :=
      ⟨same.machine, rfl, rfl⟩
    obtain ⟨answers, ends⟩ := ih answer leaves
    refine ⟨?_, ?_⟩ <;> simp only [outcome, Program.run, ← same.ledger, ← same.memory, ← responds, answered]
    · exact answers
    · exact ends

private theorem prepare_faithful (host : Host environment) (ledger : Ledger) (input : CallInput) :
    (host.prepare ledger input).Faithful := by
  refine (Action.Faithful.ofExcept _).bind (fun code => .ite (.throw _) (.ite (.throw _) (.charged _ ?_)))
  refine (Action.Faithful.ofExcept _).bind (fun contract => (Action.Faithful.ofExcept _).bind (fun _ => ?_))
  cases contract.body? input.function with
  | some body => exact .pure _
  | none => exact .throw _

/-- What runs for a callee: in step from worlds that resemble one another, blind to how it was called, and only above
the layers that it finds. -/
structure Uniform (execute : CallInput → Run environment Unit) : Prop where
  inStep : ∀ input (first second : World environment), first.Resembles second →
    InStep World.Resembles (execute input) (execute input) first second
  blind : ∀ input, execute input = execute input.unlabelled
  framed : ∀ input world, Leaves (execute input) world world.Framed

section Calls

private theorem charge_inStep (amount : UInt64) (same : first.Resembles second) :
    InStep World.Resembles (Run.onMachine (fun _ => Action.charge amount))
      (Run.onMachine (fun _ => Action.charge amount)) first second :=
  Run.onMachine_inStep (fun _ => .charge amount) same

variable {execute : CallInput → Run environment Unit} {one other : Context} {input also : CallInput}

private theorem callee_inStep (code : Uniform execute) (alike : input.unlabelled = also.unlabelled)
    (same : first.Resembles second) :
    InStep World.Resembles (callee execute input) (callee execute also) first second := by
  have blind (input : CallInput) : callee execute input = callee execute input.unlabelled := by
    rw [callee, callee, ← code.blind]
    rfl
  rw [blind input, blind also, alike]
  refine (Run.onMachine_inStep (fun _ => Operations.transferCallValue_faithful _) same).bind ?_
  exact fun _ paid also _ leaves => code.inStep _ paid also leaves

private theorem runNested_inStep (host : Host environment) (code : Uniform execute)
    (alike : input.unlabelled = also.unlabelled)
    (home : one = other ∨ input.recipient = first.machine.storageAddress) (same : first.Resembles second) :
    InStep World.Resembles (runNested one input (callee execute input)) (runNested other also (callee execute also))
      first second := by
  have stayed (context : Context) (input : CallInput) (world : World environment) (continues : context = .same) :
      (outcome (callee execute input) { world with
        machine := enterNested context input world.machine }).2.machine.layers.active.isolated = false := by
    have framed := (host.callee_framed code.framed input { world with
      machine := enterNested context input world.machine }).state
    subst continues
    exact framed.2
  have entered : World.Resembles { first with machine := enterNested one input first.machine }
      { second with machine := enterNested other also second.machine } :=
    ⟨same.machine.enterNested alike home, same.ledger, same.memory⟩
  obtain ⟨reply, leaves⟩ := callee_inStep code alike entered
  refine ⟨?_, ?_⟩ <;> simp only [outcome, runNested_apply] <;> simp only [outcome] at reply leaves stayed
  · exact congrArg Except.ok reply
  · rw [reply]
    exact ⟨leaves.machine.leaveNested _ (stayed one input first) (stayed other also second), leaves.ledger,
      leaves.memory⟩

private theorem runAdmitted_inStep (host : Host environment) (code : Uniform execute)
    (alike : input.unlabelled = also.unlabelled)
    (home : one = other ∨ input.recipient = first.machine.storageAddress) (same : first.Resembles second) :
    InStep World.Resembles (host.runAdmitted execute one input) (host.runAdmitted execute other also) first second := by
  have depth := same.machine.callDepth
  rcases Nat.lt_or_ge first.machine.callDepth host.rules.maxCallDepth with room | deep
  · let joined : World environment := { first with machine := first.machine.joined input }
    have resemble : joined.Resembles { second with machine := second.machine.joined also } :=
      ⟨same.machine.joined alike, same.ledger, same.memory⟩
    have still : one = other ∨ input.recipient = joined.machine.storageAddress := home
    obtain ⟨reply, leaves⟩ := host.runNested_inStep code alike still resemble
    refine ⟨?_, ?_⟩ <;> rw [outcome, outcome, host.runAdmitted_entered execute one input room,
      host.runAdmitted_entered execute other also (depth ▸ room)]
    · exact reply
    · exact leaves
  · refine ⟨?_, ?_⟩ <;> simp only [outcome, host.runAdmitted_refused execute one input deep,
      host.runAdmitted_refused execute other also (depth ▸ deep)]
    · rw [depth]
    · exact same

private theorem conclude_inStep (host : Host environment) (answer : Except Failure Unit)
    (same : first.Resembles second) :
    InStep World.Resembles (host.conclude answer) (host.conclude answer) first second :=
  (charge_inStep _ same).bind (fun _ _ _ _ paid => Run.onMachine_inStep (fun _ => .ofExcept answer) paid)

/-- Two calls with one input agree where their contexts cost the same, if the contexts are the same or the callee works on
the storage that the caller works on. -/
theorem call_inStep (host : Host environment) (code : Uniform execute)
    (costs : host.rules.schedule.callCost one = host.rules.schedule.callCost other)
    (home : one = other ∨ input.recipient = first.machine.storageAddress) (same : first.Resembles second) :
    InStep World.Resembles (host.call execute one input) (host.call execute other input) first second := by
  have alike : (addressed one input first).unlabelled = (addressed other input second).unlabelled := by
    have caller := same.machine.contract
    simp only [addressed, CallInput.unlabelled, caller]
  have reserves : InStep World.Resembles (host.reserve one input.gas) (host.reserve other input.gas) first second := by
    rw [reserve, reserve, costs]
    exact (charge_inStep _ same).bind (fun _ _ _ _ paid => charge_inStep _ paid)
  have stepped : InStep World.Resembles
      (host.reserve one input.gas >>= fun _ =>
        host.runAdmitted execute one (addressed one input first) >>= host.conclude)
      (host.reserve other input.gas >>= fun _ =>
        host.runAdmitted execute other (addressed other input second) >>= host.conclude) first second := by
    refine reserves.bind (fun _ paid _ ran leaves => ?_)
    have spent := (host.reserve_spent one input.gas first).of_ok ran
    have scope : paid.machine.storageAddress = first.machine.storageAddress := by
      rw [spent.machine.rest]
      rfl
    refine (host.runAdmitted_inStep code alike (scope ▸ home) leaves).bind (fun answer _ _ _ ended => ?_)
    exact host.conclude_inStep answer ended
  refine ⟨?_, ?_⟩ <;> rw [outcome_call, outcome_call]
  · exact stepped.reply
  · exact stepped.leaves

end Calls

private theorem executeWithin_uniform (host : Host environment) (impartial : environment.Impartial) (depthLeft : Nat) :
    Uniform (host.executeWithin depthLeft) := by
  induction depthLeft with
  | zero => exact ⟨fun _ _ _ same => .throw _ same, fun _ => rfl, host.executeWithin_framed 0⟩
  | succ depthLeft ih =>
    have calls : CallsInStep (host.callWithin depthLeft) := by
      intro context input first second same
      rw [callWithin_eq]
      exact host.call_inStep ih rfl (.inl rfl) same
    refine ⟨fun input first second same => ?_, fun _ => rfl, host.executeWithin_framed (depthLeft + 1)⟩
    refine (Run.onMachine_inStep (fun ledger => host.prepare_faithful ledger input) same).bind ?_
    exact fun body _ _ _ prepared => run_inStep impartial calls body prepared

private theorem callWithin_inStep (host : Host environment) (impartial : environment.Impartial) (depthLeft : Nat) :
    CallsInStep (host.callWithin depthLeft) := by
  intro context input first second same
  rw [callWithin_eq]
  exact host.call_inStep (host.executeWithin_uniform impartial depthLeft) rfl (.inl rfl) same

end Host

namespace Context

def isolates : Context → Bool
  | .same => false
  | .destination => true

private theorem entering_eq (context : Context) : context.entering = .enter context.isolates := by
  cases context <;> rfl

private theorem frames_leaving (context : Context) (succeeded : Bool) (outer : List Bool) :
    (context.leaving succeeded).frames? (context.isolates :: outer) = some outer := by
  cases succeeded <;> cases context <;> rfl

end Context

private theorem Layers.Opened.framed {frames : List Bool} {before after : Layers} (opened : Opened frames before)
    (framed : before.Framed after) : Opened frames after := by
  rw [Opened, framed.1, framed.2]
  exact opened

namespace Host

variable {host : Host environment} {input : CallInput} {world : World environment} {waiting : List (Waiting environment)}
  {moment : Moment environment}

/-- At every moment the layers tell in which contexts the calls were made that are on the way. -/
theorem Suspends.opened (suspends : host.Suspends input world waiting moment) :
    Layers.Opened (waiting.map (·.context.isolates)) moment.layers := by
  induction suspends with
  | opening opens =>
    have bottom : Layers.Opened [] .start := rfl
    exact bottom.framed (host.opening_advances opens).2.frame
  | across _ step ih => exact ih.framed step.kept.framed
  | @into waiting _ context _ _ _ _ _ step ih =>
    cases step with
    | call descends =>
      refine Layers.Opened.framed ?_ (host.descend_advances descends).2.frame
      rw [context.entering_eq]
      exact ih.step rfl

/-- Code has ended alike in worlds that resemble one another and have the same frames open. -/
structure EndsAlike (frames : List Bool) (first second : Except Failure Unit × World environment) : Prop where
  reply : first.1 = second.1
  leaves : first.2.Resembles second.2
  opened : Layers.Opened frames first.2.machine.layers
  also : Layers.Opened frames second.2.machine.layers

namespace EndsAlike

variable {first second : Except Failure Unit × World environment} {frames : List Bool}

/-- Code that goes on from such ends does so in step. -/
theorem goes (alike : EndsAlike frames first second) (host : Host environment) (impartial : environment.Impartial)
    (depthLeft : Nat) (next : Except Failure Unit → Program environment Unit) :
    EndsAlike frames (Moment.ended ⟨depthLeft, next first.1, first.2⟩ host)
      (Moment.ended ⟨depthLeft, next second.1, second.2⟩ host) := by
  obtain ⟨reply, leaves⟩ :=
    run_inStep impartial (host.callWithin_inStep impartial depthLeft) (next first.1) alike.leaves
  refine ⟨?_, ?_, alike.opened.framed (Moment.ended_kept host _).framed,
    alike.also.framed (Moment.ended_kept host _).framed⟩
  · rw [← alike.reply]
    exact reply
  · rw [← alike.reply]
    exact leaves

private theorem deliver {context : Context} (alike : EndsAlike (context.isolates :: frames) first second)
    (host : Host environment) : EndsAlike frames (host.deliver context first) (host.deliver context second) := by
  obtain ⟨reply, leaves, opened, also⟩ := alike
  have closed {ended : Except Failure Unit × World environment}
      (opened : Layers.Opened (context.isolates :: frames) ended.2.machine.layers) :
      Layers.Opened frames (host.deliver context ended).2.machine.layers := by
    have concluded := (host.conclude_leaves ended.1
      { ended.2 with machine := leaveNested context ended.1.isOk ended.2.machine }).state
    rw [Host.deliver, concluded.2, Context.layers_leaveNested]
    exact opened.step (context.frames_leaving _ frames)
  have stays {world : World environment} (opened : Layers.Opened (context.isolates :: frames) world.machine.layers)
      (continues : context = .same) : world.machine.layers.active.isolated = false := by
    subst continues
    exact opened.beneath.1
  have left : World.Resembles { first.2 with machine := leaveNested context first.1.isOk first.2.machine }
      { second.2 with machine := leaveNested context first.1.isOk second.2.machine } :=
    ⟨leaves.machine.leaveNested _ (stays opened) (stays also), leaves.ledger, leaves.memory⟩
  have concluded := host.conclude_inStep first.1 left
  refine ⟨?_, ?_, closed opened, closed also⟩
  · rw [Host.deliver, Host.deliver, ← reply]
    exact concluded.reply
  · rw [Host.deliver, Host.deliver, ← reply]
    exact concluded.leaves

private theorem resume (alike : EndsAlike (waiting.map (·.context.isolates)) first second) (host : Host environment)
    (impartial : environment.Impartial) (depthLeft : Nat) :
    EndsAlike [] (host.resume depthLeft waiting first) (host.resume depthLeft waiting second) := by
  induction waiting generalizing depthLeft first second with
  | nil => exact alike
  | cons waiting outer ih => exact ih ((alike.deliver host).goes host impartial _ waiting.next) _

/-- With no frame open, what can be asked of the one layer that is left is what there is in it. -/
theorem conclusion (alike : EndsAlike [] first second) : (conclusion first).1 = (conclusion second).1 := by
  obtain ⟨reply, leaves, opened, also⟩ := alike
  obtain ⟨answer, first⟩ := first
  obtain ⟨reached, second⟩ := second
  cases reply
  cases answer with
  | error failure => rfl
  | ok _ =>
    have one : Layers.Simulates [] first.machine.layers _ := ⟨rfl, opened⟩
    have other : Layers.Simulates [] second.machine.layers first.machine.layers.accumulated :=
      ⟨leaves.machine.layers.symm, also⟩
    obtain ⟨accounts, data, logs⟩ := one.closed
    obtain ⟨accountsAlso, dataAlso, logsAlso⟩ := other.closed
    simp only [Host.conclusion, Layers.result, accounts, data, logs, accountsAlso, dataAlso, logsAlso,
      leaves.machine.gasLeft, leaves.machine.gasFreed]

end EndsAlike

/-- A contract that runs on its own storage may call itself in either context, where the two cost the same. The answer
is the same, everything that can be asked of the host is the same afterwards, and however its code goes on from the
answer, the transaction returns the same output, whatever code waits for it. -/
theorem calls_to_oneself_agree (host : Host environment) (impartial : environment.Impartial)
    (costs : host.rules.schedule.executeOnSameContext = host.rules.schedule.executeOnDestinationContext)
    (visited : host.Visits input world moment)
    (own : moment.world.machine.storageAddress = moment.world.machine.contract)
    (call : CallInput) (oneself : call.recipient = moment.world.machine.contract) :
    let called (context : Context) := outcome (host.callWithin moment.depthLeft context call) moment.world
    let within := (called .same).2
    let apart := (called .destination).2
    (called .same).1 = (called .destination).1 ∧ within.ledger = apart.ledger ∧
    (∀ address key, within.machine.layers.content within.ledger address key =
      apart.machine.layers.content apart.ledger address key) ∧
    (∀ address, within.machine.layers.knownBalance address = apart.machine.layers.knownBalance address ∧
      within.machine.layers.balanceDelta address = apart.machine.layers.balanceDelta address) ∧
    within.machine.gasLeft = apart.machine.gasLeft ∧ within.machine.gasFreed = apart.machine.gasFreed ∧
    ∃ waiting, host.Suspends input world waiting moment ∧
      let rest (context : Context) (next : Except Failure Unit → Program environment Unit) :=
        conclusion (host.resume moment.depthLeft waiting
          (Moment.ended ⟨moment.depthLeft, next (called context).1, (called context).2⟩ host))
      (∀ context next, moment.program = .request (.call context call) next → host.run input world = rest context next) ∧
      ∀ next, (rest .same next).1 = (rest .destination next).1 := by
  intro called within apart
  have home : Context.same = .destination ∨ call.recipient = moment.world.machine.storageAddress :=
    .inr (oneself.trans own.symm)
  have price : host.rules.schedule.callCost .same = host.rules.schedule.callCost .destination := costs
  have agree := host.call_inStep (host.executeWithin_uniform impartial moment.depthLeft) price home (.refl moment.world)
  rw [← callWithin_eq] at agree
  obtain ⟨reply, leaves⟩ := agree
  refine ⟨reply, leaves.ledger, ?_, fun address => ⟨leaves.machine.knownBalance address,
    leaves.machine.balanceDelta address⟩, leaves.machine.gasLeft, leaves.machine.gasFreed, ?_⟩
  · intro address key
    rw [Layers.content, Layers.content, leaves.machine.written?, leaves.ledger]
  obtain ⟨waiting, suspends⟩ := visited.suspends
  refine ⟨waiting, suspends, ?_, ?_⟩
  · intro context next requests
    obtain ⟨depthLeft, program, before⟩ := moment
    cases requests
    have step : Moment.Over host ⟨depthLeft, .request (.call context call) next, before⟩ _ := .request rfl
    rw [suspends.run, step.ended]
    rfl
  · intro next
    have framed (context : Context) :=
      (host.callWithin_kept moment.depthLeft context call moment.world).state.framed
    have alike : EndsAlike (waiting.map (·.context.isolates)) (called .same) (called .destination) :=
      ⟨reply, leaves, suspends.opened.framed (framed .same), suspends.opened.framed (framed .destination)⟩
    exact ((alike.goes host impartial moment.depthLeft next).resume host impartial _).conclusion

/-- Called without arguments the contract calls itself with one; called with one it stores and returns. -/
def turning : Program Environment.silent Unit :=
  .request .arguments fun arguments =>
    match arguments with
    | .ok [] => .request (.call .destination { arguments := [[1]] }) Program.ofExcept
    | _ => .request (.store [7] [8]) fun _ => .request (.finish [9]) Program.ofExcept

def turned : Moment Environment.silent :=
  ⟨63, .request (.call .destination { arguments := [[1]] }) Program.ofExcept, .begun 0⟩

private theorem turned_visited : (scripted .zero turning (.done ())).Visits {} .scripted turned := by
  have opened : (scripted .zero turning (.done ())).opening {}
      { World.scripted with machine := World.scripted.machine.begin {} } = .ok turning (.begun 0) := rfl
  exact ⟨_, _, opened, .single (.inl (.request rfl))⟩

theorem turning_agrees :
    let host := scripted .zero turning (.done ())
    let called (context : Context) := outcome (host.callWithin 63 context { arguments := [[1]] }) turned.world
    (called .destination).1 = .ok () ∧ (called .same).1 = (called .destination).1 ∧
      (called .destination).2.machine.layers.content (called .destination).2.ledger .zero [7] = [8] ∧
      (called .same).2.machine.layers.content (called .same).2.ledger .zero [7] =
        (called .destination).2.machine.layers.content (called .destination).2.ledger .zero [7] ∧
      (host.run {} .scripted).1.data = [[9]] := by
  intro host called
  obtain ⟨reply, -, content, -⟩ := calls_to_oneself_agree host Environment.silent_impartial rfl turned_visited rfl
    { arguments := [[1]] } rfl
  exact ⟨by decide +kernel, reply, by decide +kernel, content .zero [7], by decide +kernel⟩

end Host

end ContractHost
