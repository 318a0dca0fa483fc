import ContractHost.Proofs.HiddenReads
import ContractHost.Proofs.Moments

/-! A storage that nobody may read stays hidden. As long as its account is never the one in scope and no tokens of it
are asked for, two runs over ledgers that differ in that storage alone go through the same moments and end alike: its
code may run in the context of others, and others may try to read it. -/

namespace ContractHost

variable {environment : Environment} {hidden : Address} {α β : Type}

/-- The same state around ledgers that differ in the hidden storage alone. -/
structure World.Alike (hidden : Address) (first second : World environment) : Prop where
  machine : second.machine = first.machine
  memory : second.memory = first.memory
  ledger : first.ledger.AlikeBut hidden second.ledger
  unreadable : first.ledger.Unreadable hidden

/-- What surrounds the host does not show the hidden storage either. -/
def Environment.Blind (environment : Environment) (hidden : Address) : Prop :=
  ∀ (question : environment.Question) (machine : Machine) (first second : Ledger) (memory : environment.Memory),
    first.AlikeBut hidden second → first.Unreadable hidden →
      let one := environment.respond question machine first memory
      let other := environment.respond question machine second memory
      one.1 = other.1 ∧ other.2.2 = one.2.2 ∧ one.2.1.AlikeBut hidden other.2.1 ∧ one.2.1.Unreadable hidden

private theorem Environment.silent_blind (hidden : Address) : Environment.silent.Blind hidden := nofun

/-- A run answers alike from both worlds and leaves them alike. -/
structure Run.Agrees (hidden : Address) (run : Run environment α) (first second : World environment) : Prop where
  reply : (outcome run first).1 = (outcome run second).1
  leaves : (outcome run first).2.Alike hidden (outcome run second).2

namespace World.Alike

variable {first second : World environment}

theorem symm (alike : first.Alike hidden second) : second.Alike hidden first where
  machine := alike.machine.symm
  memory := alike.memory.symm
  ledger := alike.ledger.symm
  unreadable := alike.ledger.unreadable alike.unreadable

private theorem changed (alike : first.Alike hidden second) (change : Machine → Machine) :
    World.Alike hidden { first with machine := change first.machine }
      { second with machine := change second.machine } :=
  ⟨congrArg change alike.machine, alike.memory, alike.ledger, alike.unreadable⟩

end World.Alike

namespace Run.Agrees

variable {first second : World environment}

theorem symm {run : Run environment α} (agrees : Agrees hidden run first second) : Agrees hidden run second first :=
  ⟨agrees.reply.symm, agrees.leaves.symm⟩

private theorem of_ok {run : Run environment α} (agrees : Agrees hidden run first second) {value : α}
    {after : World environment} (ran : run first = .ok value after) :
    ∃ other, run second = .ok value other ∧ after.Alike hidden other := by
  obtain ⟨reply, leaves⟩ := agrees
  rw [outcome_eq_ok.mpr ran] at reply leaves
  exact ⟨(outcome run second).2, outcome_eq_ok.mp (Prod.ext reply.symm rfl), leaves⟩

private theorem of_error {run : Run environment α} (agrees : Agrees hidden run first second) {failure : Failure}
    {after : World environment} (ran : run first = .error failure after) :
    ∃ other, run second = .error failure other ∧ after.Alike hidden other := by
  obtain ⟨reply, leaves⟩ := agrees
  rw [outcome_eq_error.mpr ran] at reply leaves
  exact ⟨(outcome run second).2, outcome_eq_error.mp (Prod.ext reply.symm rfl), leaves⟩

private theorem bind {run : Run environment α} {next : α → Run environment β} (begins : Agrees hidden run first second)
    (goes : ∀ value after other, run first = .ok value after → after.Alike hidden other →
      Agrees hidden (next value) after other) : Agrees hidden (run >>= next) first second := by
  cases ran : run first with
  | ok value after =>
    obtain ⟨other, also, alike⟩ := begins.of_ok ran
    obtain ⟨reply, leaves⟩ := goes value after other ran alike
    rw [← outcome_bind_of_ok ran, ← outcome_bind_of_ok also] at reply leaves
    exact ⟨reply, leaves⟩
  | error failure after =>
    obtain ⟨other, also, alike⟩ := begins.of_error ran
    refine ⟨?_, ?_⟩ <;> rw [outcome_bind_of_error ran, outcome_bind_of_error also]
    exact alike

/-- What two runs do from these worlds is all that counts. -/
theorem of_apply (expanded : Run environment α) {run : Run environment α} (one : run first = expanded first)
    (other : run second = expanded second) (agrees : Agrees hidden expanded first second) :
    Agrees hidden run first second := by
  obtain ⟨reply, leaves⟩ := agrees
  simp only [outcome, ← one, ← other] at reply leaves
  exact ⟨reply, leaves⟩

private theorem onMachine {action : Ledger → Action α} (alike : first.Alike hidden second)
    (same : action first.ledger first.machine = action second.ledger first.machine) :
    Agrees hidden (Run.onMachine action) first second := by
  have apply (world : World environment) : outcome (Run.onMachine action) world =
      ((outcome (action world.ledger) world.machine).1,
        { world with machine := (outcome (action world.ledger) world.machine).2 }) := by
    simp only [outcome, Run.onMachine]
    cases action world.ledger world.machine <;> rfl
  have answers : outcome (action second.ledger) second.machine = outcome (action first.ledger) first.machine := by
    rw [alike.machine, outcome, outcome, same]
  exact ⟨by rw [apply, apply, answers], by
    rw [apply, apply, answers]
    exact ⟨rfl, alike.memory, alike.ledger, alike.unreadable⟩⟩

private theorem onMachine_same {action : Action α} (alike : first.Alike hidden second) :
    Agrees hidden (Run.onMachine (fun _ => action)) first second :=
  onMachine alike rfl

private theorem inspect {view : Machine → α} (alike : first.Alike hidden second) :
    Agrees hidden (Run.inspect view) first second :=
  ⟨congrArg (fun machine => Except.ok (view machine)) alike.machine.symm, alike⟩

end Run.Agrees

/-- The operation asks for tokens of the account, or moves tokens to it. -/
def Operation.Names (hidden : Address) : Operation → Prop
  | .tokenBalance address _ => address = hidden
  | .tokenTransfer _ destination _ => destination = hidden
  | _ => False

/-- Another account is in scope, and what the code does next does not name the hidden one. -/
structure Moment.Spares (hidden : Address) (moment : Moment environment) : Prop where
  scope : moment.world.machine.storageAddress ≠ hidden
  unnamed {operation : Operation} {next : Except Failure operation.Reply → Program environment Unit} :
    moment.program = .request operation next → ¬operation.Names hidden

namespace Host

open Run (Agrees)

variable {host : Host environment} {first second : World environment}

private theorem serve_agrees {nested : Context → CallInput → Run environment Unit} {operation : Operation}
    (elementary : ∀ context input, operation ≠ .call context input) (alike : first.Alike hidden second)
    (scope : first.machine.storageAddress ≠ hidden) (unnamed : ¬operation.Names hidden) :
    Agrees hidden (host.serve nested operation) first second := by
  have concurring {γ : Type} {action : Ledger → Action γ}
      (concurs : Action.Concurs hidden (action first.ledger) (action second.ledger)) :
      Agrees hidden (Run.onMachine action) first second :=
    .onMachine alike (concurs first.machine scope).1
  cases operation with
  | store key value =>
    simp only [serve]
    exact concurring (Operations.store_concurs alike.ledger key value)
  | load key =>
    simp only [serve]
    exact concurring (Operations.load_concurs alike.ledger key)
  | loadFrom address key =>
    simp only [serve]
    exact concurring (Operations.loadFrom_concurs alike.ledger alike.unreadable address key)
  | transfer destination value =>
    simp only [serve]
    exact .onMachine alike (congrFun (Operations.transfer_alike alike.ledger destination value) _)
  | call context input => exact absurd rfl (elementary context input)
  | tokenBalance address token =>
    simp only [serve]
    exact concurring (Token.balance_concurs alike.ledger unnamed token)
  | tokenMint token amount =>
    simp only [serve]
    exact concurring (Token.mint_concurs alike.ledger token amount)
  | tokenTransfer token destination amount =>
    simp only [serve]
    exact concurring (Token.transfer_concurs alike.ledger token unnamed amount)
  | argument | finish | log | useGas | setReadOnly =>
    simp only [serve]
    exact .onMachine_same alike
  | _ =>
    simp only [serve]
    exact .inspect alike

private theorem stage_agrees (input : CallInput) (alike : first.Alike hidden second) :
    Agrees hidden (host.stage input) first second := by
  refine .bind (.onMachine alike ?_) (fun _ paid other _ alike => .onMachine alike ?_)
  · rw [Operations.transferCallValue_alike alike.ledger]
  · simp only [prepare, alike.ledger.readCode]

private theorem reserve_agrees (context : Context) (gas : UInt64) (alike : first.Alike hidden second) :
    Agrees hidden (host.reserve context gas) first second :=
  .bind (.onMachine_same alike) (fun _ _ _ _ alike => .onMachine_same alike)

private theorem conclude_agrees (answer : Except Failure Unit) (alike : first.Alike hidden second) :
    Agrees hidden (host.conclude answer) first second :=
  .bind (.onMachine_same alike) (fun _ _ _ _ alike => .onMachine_same alike)

private theorem opening_agrees (input : CallInput) (alike : first.Alike hidden second) :
    Agrees hidden (host.opening input) first second :=
  .bind (.onMachine_same alike) (fun _ _ _ _ alike => stage_agrees input alike)

private theorem addressed_alike (context : Context) (input : CallInput) (alike : first.Alike hidden second) :
    addressed context input second = addressed context input first := by
  rw [addressed, addressed, alike.machine]

private theorem descend_agrees (context : Context) (input : CallInput) (alike : first.Alike hidden second) :
    Agrees hidden (host.descend context input) first second := by
  let input' := addressed context input first
  refine .of_apply (host.reserve context input.gas >>= fun _ =>
    Run.onMachine (fun _ => Action.enter host.rules input'.recipient input'.caller input'.kind) >>= fun _ =>
      Run.onMachine (fun _ => modify (enterNested context input')) >>= fun _ => host.stage input') rfl ?_ ?_
  · have same : addressed context input second = input' := addressed_alike context input alike
    rw [← same]
    rfl
  · refine .bind (reserve_agrees context input.gas alike) (fun _ _ _ _ alike => ?_)
    refine .bind (.onMachine_same alike) (fun _ _ _ _ alike => ?_)
    exact .bind (.onMachine_same alike) (fun _ _ _ _ alike => stage_agrees input' alike)

private theorem transferCallValue_agrees (input : CallInput) (alike : first.Alike hidden second) :
    Agrees hidden (Run.onMachine (fun ledger => Operations.transferCallValue ledger input)) first second :=
  .onMachine alike (congrFun (Operations.transferCallValue_alike alike.ledger input) _)

private theorem callee_agrees {depthLeft : Nat} {input : CallInput} (alike : first.Alike hidden second)
    (bodies : ∀ depth body inside other, depthLeft = depth + 1 → host.stage input first = .ok body inside →
      inside.Alike hidden other → Agrees hidden (body.run (host.serve (host.callWithin depth))) inside other) :
    Agrees hidden (callee (host.executeWithin depthLeft) input) first second := by
  cases depthLeft with
  | zero => exact .bind (transferCallValue_agrees input alike) (fun _ _ _ _ alike => ⟨rfl, alike⟩)
  | succ depth =>
    rw [callee_staged]
    refine .bind (stage_agrees input alike) ?_
    exact fun body inside other staged alike => bodies depth body inside other rfl staged alike

private theorem runNested_agrees {context : Context} {input : CallInput} {callee : Run environment Unit}
    (agrees : Agrees hidden callee { first with machine := enterNested context input first.machine }
      { second with machine := enterNested context input second.machine }) :
    Agrees hidden (runNested context input callee) first second := by
  have apply (world : World environment) :
      let ended := outcome callee { world with machine := enterNested context input world.machine }
      outcome (runNested context input callee) world =
        (.ok ended.1, { ended.2 with machine := leaveNested context ended.1.isOk ended.2.machine }) :=
    outcome_eq_ok.mpr (runNested_apply context input callee world)
  refine ⟨?_, ?_⟩ <;> rw [apply, apply]
  · rw [agrees.reply]
  · rw [← agrees.reply]
    exact agrees.leaves.changed (leaveNested context _)

private theorem callWithin_agrees {depthLeft : Nat} {context : Context} {input : CallInput}
    (alike : first.Alike hidden second)
    (bodies : ∀ depth body inside other, depthLeft = depth + 1 → host.descend context input first = .ok body inside →
      inside.Alike hidden other → Agrees hidden (body.run (host.serve (host.callWithin depth))) inside other) :
    Agrees hidden (host.callWithin depthLeft context input) first second := by
  rw [callWithin_eq]
  refine .of_apply _ (host.call_apply _ context input first) ?_ ?_
  · rw [call_apply, addressed_alike context input alike]
  refine .bind (reserve_agrees context input.gas alike) (fun _ paid other reserved alike => ?_)
  refine .bind ?_ (fun answer _ _ _ alike => conclude_agrees answer alike)
  by_cases covered : host.Covers context input first
  case neg =>
    obtain ⟨total, stopped⟩ := host.reserve_exceeded (Nat.lt_of_not_le covered)
    cases reserved.symm.trans stopped
  cases reserved.symm.trans (host.reserve_covered covered)
  let input' := addressed context input first
  refine .bind (.onMachine_same alike) (fun admitted joined beside entered alike => ?_)
  rcases Nat.lt_or_ge first.machine.callDepth host.rules.maxCallDepth with room | deep
  · cases entered.symm.trans (host.attempt_admitted input' room)
    refine runNested_agrees (callee_agrees (alike.changed (enterNested context input')) ?_)
    exact fun depth body inside other more staged => bodies depth body inside other more
      (host.descend_iff.mpr ⟨covered, room, staged⟩)
  · cases entered.symm.trans (host.attempt_refused input' deep)
    exact ⟨rfl, alike⟩

end Host

namespace Moment

open Run (Agrees)

variable {host : Host environment} {depthLeft : Nat} {program : Program environment Unit}
  {world beside : World environment}

private theorem request_agrees {operation : Operation}
    {next : Except Failure operation.Reply → Program environment Unit} (alike : world.Alike hidden beside)
    (spared : ∀ later, Reaches host ⟨depthLeft, .request operation next, world⟩ later → later.Spares hidden)
    (deeper : ∀ depth < depthLeft, ∀ body inside other, inside.Alike hidden other →
      (∀ later, Reaches host ⟨depth, body, inside⟩ later → later.Spares hidden) →
        Agrees hidden (body.run (host.serve (host.callWithin depth))) inside other) :
    Agrees hidden (host.serve (host.callWithin depthLeft) operation) world beside := by
  rcases operation.elementary_or_call with elementary | ⟨context, input, rfl⟩
  · have here := spared _ .refl
    exact Host.serve_agrees elementary alike here.scope (here.unnamed rfl)
  · refine Host.callWithin_agrees alike (fun depth body inside other more descends alike => ?_)
    subst more
    refine deeper depth (Nat.lt_succ_self depth) body inside other alike (fun later reached => spared later ?_)
    exact .head (.inr (.call descends)) reached

private theorem Over.follows (blind : environment.Blind hidden) (alike : world.Alike hidden beside)
    (agrees : ∀ operation next, program = .request operation next →
      Agrees hidden (host.serve (host.callWithin depthLeft) operation) world beside)
    {after : Moment environment} (step : Over host ⟨depthLeft, program, world⟩ after) :
    ∃ other, Over host ⟨depthLeft, program, beside⟩ { after with world := other } ∧ after.world.Alike hidden other := by
  cases step with
  | @request _ operation next _ last reply served =>
    obtain ⟨same, leaves⟩ := agrees operation next rfl
    rw [served] at same leaves
    let other := (outcome (host.serve (host.callWithin depthLeft) operation) beside).2
    have also : outcome (host.serve (host.callWithin depthLeft) operation) beside = (reply, other) :=
      Prod.ext same.symm rfl
    exact ⟨other, .request also, leaves⟩
  | @consult _ question next _ answer ledger memory responds =>
    obtain ⟨same, kept, ledgers, unreadable⟩ :=
      blind question world.machine world.ledger beside.ledger world.memory alike.ledger alike.unreadable
    rw [responds] at same kept ledgers unreadable
    have also : environment.respond question beside.machine beside.ledger beside.memory =
        (answer, (environment.respond question world.machine beside.ledger world.memory).2.1, memory) := by
      rw [alike.machine, alike.memory]
      exact Prod.ext same.symm (Prod.ext rfl kept)
    exact ⟨_, .consult also, alike.machine, rfl, ledgers, unreadable⟩

private theorem Into.follows (alike : world.Alike hidden beside) {after : Moment environment}
    (step : Into host ⟨depthLeft, program, world⟩ after) :
    ∃ other, Into host ⟨depthLeft, program, beside⟩ { after with world := other } ∧ after.world.Alike hidden other := by
  cases step with
  | @call _ context input next _ inside body descends =>
    obtain ⟨other, also, alike⟩ := (Host.descend_agrees context input alike).of_ok descends
    exact ⟨other, .call also, alike⟩

private theorem run_agrees (blind : environment.Blind hidden) (alike : world.Alike hidden beside)
    (spared : ∀ later, Reaches host ⟨depthLeft, program, world⟩ later → later.Spares hidden) :
    Agrees hidden (program.run (host.serve (host.callWithin depthLeft))) world beside := by
  induction depthLeft using Nat.strongRecOn generalizing program world beside with
  | ind depthLeft deeper =>
    -- Over a step both runs go on from worlds that are alike again.
    have onward {program : Program environment Unit} {world beside : World environment} {after : Moment environment}
        {other : World environment} (step : Over host ⟨depthLeft, program, world⟩ after)
        (also : Over host ⟨depthLeft, program, beside⟩ { after with world := other })
        (ends : Agrees hidden (after.program.run (host.serve (host.callWithin after.depthLeft))) after.world other) :
        Agrees hidden (program.run (host.serve (host.callWithin depthLeft))) world beside := by
      have one : outcome (program.run (host.serve (host.callWithin depthLeft))) world = _ := step.ended
      have two : outcome (program.run (host.serve (host.callWithin depthLeft))) beside = _ := also.ended
      exact ⟨by rw [one, two]; exact ends.reply, by rw [one, two]; exact ends.leaves⟩
    induction program generalizing world beside with
    | done value => exact ⟨rfl, alike⟩
    | fail failure => exact ⟨rfl, alike⟩
    | consult question next ih =>
      have step : Over host ⟨depthLeft, .consult question next, world⟩ _ := .consult rfl
      obtain ⟨other, also, alike⟩ := step.follows blind alike (fun _ _ absurd => by cases absurd)
      exact onward step also (ih _ alike (fun later reached => spared later (.head (.inl step) reached)))
    | request operation next ih =>
      have serving := request_agrees alike spared
        (fun depth less body inside other alike spared => deeper depth less alike spared)
      have step : Over host ⟨depthLeft, .request operation next, world⟩ _ := .request rfl
      obtain ⟨other, also, alike⟩ := step.follows blind alike (fun _ _ same => by cases same; exact serving)
      exact onward step also (ih _ alike (fun later reached => spared later (.head (.inl step) reached)))

private theorem answers_agree (blind : environment.Blind hidden) (moment : Moment environment)
    (alike : moment.world.Alike hidden beside)
    (spared : ∀ later, Reaches host moment later → later.Spares hidden) (operation : Operation)
    (next : Except Failure operation.Reply → Program environment Unit) (asks : moment.program = .request operation next) :
    Agrees hidden (host.serve (host.callWithin moment.depthLeft) operation) moment.world beside := by
  obtain ⟨depth, _, inside⟩ := moment
  subst asks
  exact request_agrees alike spared (fun _ _ _ _ _ alike => run_agrees blind alike)

/-- Whatever code is reached in one world is reached in the other, in worlds that are alike. -/
theorem Reaches.follows (blind : environment.Blind hidden) (alike : world.Alike hidden beside)
    (spared : ∀ later, Reaches host ⟨depthLeft, program, world⟩ later → later.Spares hidden)
    {later : Moment environment} (reached : Reaches host ⟨depthLeft, program, world⟩ later) :
    ∃ other, Reaches host ⟨depthLeft, program, beside⟩ { later with world := other } ∧
      later.world.Alike hidden other := by
  induction reached with
  | refl => exact ⟨beside, .refl, alike⟩
  | @tail middle last reached step ih =>
    obtain ⟨between, also, alike⟩ := ih
    have spares (later : Moment environment) (further : Reaches host middle later) : later.Spares hidden :=
      spared later (reached.trans further)
    rcases step with step | step
    · obtain ⟨other, follows, alike⟩ := step.follows blind alike (answers_agree blind _ alike spares)
      exact ⟨other, .tail also (.inl follows), alike⟩
    · obtain ⟨other, follows, alike⟩ := step.follows alike
      exact ⟨other, .tail also (.inr follows), alike⟩

private theorem Reaches.followed (blind : environment.Blind hidden) (alike : world.Alike hidden beside)
    (spared : ∀ later, Reaches host ⟨depthLeft, program, world⟩ later → later.Spares hidden)
    {later : Moment environment} (reached : Reaches host ⟨depthLeft, program, beside⟩ later) :
    ∃ other, Reaches host ⟨depthLeft, program, world⟩ { later with world := other } ∧
      other.Alike hidden later.world := by
  induction reached with
  | refl => exact ⟨world, .refl, alike⟩
  | @tail middle last reached step ih =>
    obtain ⟨between, also, alike⟩ := ih
    have spares (later : Moment environment) (further : Reaches host { middle with world := between } later) :
        later.Spares hidden :=
      spared later (also.trans further)
    rcases step with step | step
    · have agrees (operation : Operation) (next : Except Failure operation.Reply → Program environment Unit)
          (asks : middle.program = .request operation next) :=
        (answers_agree blind { middle with world := between } alike spares operation next asks).symm
      obtain ⟨other, follows, alike⟩ := step.follows blind alike.symm agrees
      exact ⟨other, .tail also (.inl follows), alike.symm⟩
    · obtain ⟨other, follows, alike⟩ := step.follows alike.symm
      exact ⟨other, .tail also (.inr follows), alike.symm⟩

end Moment

/-- The operation leaves the hidden account out: no tokens of it are asked for, and it is not called in a context of
its own. -/
def Operation.Shuns (hidden : Address) (operation : Operation) : Prop :=
  ¬operation.Names hidden ∧ ∀ input, operation = .call .destination input → input.recipient ≠ hidden

namespace Host

variable (host : Host environment) {input : CallInput} {world : World environment}

/-- Where neither the transaction nor any call in a context of its own is addressed to the hidden account, that one
never comes into scope. -/
theorem visits_spare (recipient : input.recipient ≠ hidden)
    (shuns : ∀ moment, host.Visits input world moment → ∀ operation next,
      moment.program = .request operation next → operation.Shuns hidden)
    {moment : Moment environment} (visited : host.Visits input world moment) : moment.Spares hidden := by
  refine ⟨?_, fun asks => (shuns moment visited _ _ asks).1⟩
  obtain ⟨body, inside, opens, reached⟩ := visited
  induction reached with
  | refl =>
    obtain ⟨-, staged⟩ := host.opening_staged opens
    rw [staged.kept.address]
    exact recipient
  | @tail middle last reached step ih =>
    rcases step with step | step
    · rw [step.kept.address]
      exact ih
    · cases step with
      | @call depthLeft context call next before inside body descends =>
        rw [(host.descend_staged descends).kept.address]
        cases context with
        | same => exact ih
        | destination => exact (shuns _ ⟨_, _, opens, reached⟩ _ _ rfl).2 call rfl

private theorem run_alike (beside : World environment)
    (ending : Run.Agrees hidden (host.executeTopLevel input) { world with machine := world.machine.begin input }
      { beside with machine := beside.machine.begin input }) :
    (host.run input world).1 = (host.run input beside).1 ∧
      (host.run input world).2.Alike hidden (host.run input beside).2 := by
  cases ends : host.executeTopLevel input { world with machine := world.machine.begin input } with
  | ok _ after =>
    obtain ⟨other, also, alike⟩ := ending.of_ok ends
    simp only [run, ends, also]
    exact ⟨by rw [alike.machine], alike.changed Machine.settle⟩
  | error failure after =>
    obtain ⟨other, also, alike⟩ := ending.of_error ends
    simpa only [run, ends, also, true_and] using alike.changed Machine.settle

/-- The storage of an account that others may not read, that is never in scope and whose tokens are not asked for has
no part in a run: over any other content of it the output is the same, and so is every moment of every contract. -/
theorem unreadable_storage_stays_hidden (blind : environment.Blind hidden) {other : Ledger}
    (alike : world.ledger.AlikeBut hidden other) (unreadable : world.ledger.Unreadable hidden)
    (spared : ∀ moment, host.Visits input world moment → moment.Spares hidden) :
    let beside : World environment := { world with ledger := other }
    (host.run input world).1 = (host.run input beside).1 ∧
      (host.run input world).2.Alike hidden (host.run input beside).2 ∧
      (∀ moment, host.Visits input world moment → ∃ also, host.Visits input beside { moment with world := also } ∧
        moment.world.Alike hidden also) ∧
      ∀ moment, host.Visits input beside moment → ∃ also, host.Visits input world { moment with world := also } ∧
        also.Alike hidden moment.world := by
  intro beside
  have begun : World.Alike hidden { world with machine := world.machine.begin input }
      { beside with machine := world.machine.begin input } := ⟨rfl, rfl, alike, unreadable⟩
  have opening : Run.Agrees hidden (host.opening input) _ _ := opening_agrees input begun
  have ending : Run.Agrees hidden (host.executeTopLevel input) { world with machine := world.machine.begin input }
      { beside with machine := world.machine.begin input } := by
    rw [executeTopLevel_eq]
    refine .bind opening (fun body inside other opens alike => Moment.run_agrees blind alike ?_)
    exact fun later reached => spared later ⟨body, inside, opens, reached⟩
  obtain ⟨output, leaves⟩ := host.run_alike beside ending
  refine ⟨output, leaves, ?_, ?_⟩
  · rintro moment ⟨body, inside, opens, reached⟩
    obtain ⟨start, also, alike⟩ := opening.of_ok opens
    obtain ⟨last, follows, twins⟩ :=
      reached.follows blind alike (fun later further => spared later ⟨body, inside, opens, further⟩)
    exact ⟨last, ⟨body, start, also, follows⟩, twins⟩
  · rintro moment ⟨body, inside, opens, reached⟩
    obtain ⟨start, also, alike⟩ := opening.symm.of_ok opens
    obtain ⟨last, follows, twins⟩ :=
      reached.followed blind alike.symm (fun later further => spared later ⟨body, start, also, further⟩)
    exact ⟨last, ⟨body, start, also, follows⟩, twins⟩

end Host

def Program.Shuns (hidden : Address) : Program environment α → Prop
  | .done _ | .fail _ => True
  | .request operation next => operation.Shuns hidden ∧ ∀ reply, (next reply).Shuns hidden
  | .consult _ next => ∀ answer, (next answer).Shuns hidden

/-- All code that the host can come to run leaves the hidden account out. -/
def Host.Shuns (hidden : Address) (host : Host environment) : Prop :=
  ∀ code contract name body, host.builder code = .ok contract → contract.body? name = some body → body.Shuns hidden

namespace Host.Shuns

variable {host : Host environment} {input : CallInput} {world : World environment}

private theorem prepared (shuns : host.Shuns hidden) (ledger : Ledger) (input : CallInput) (machine : Machine) :
    Ensures (host.prepare ledger input) machine (fun body _ => body.Shuns hidden) (fun _ _ => True) := by
  refine .bind (.anyway _ _) (fun code _ _ => ?_)
  refine Ensures.ite (fun _ => Ensures.throw _ trivial) (fun _ => ?_)
  refine Ensures.ite (fun _ => Ensures.throw _ trivial) (fun _ => ?_)
  refine .bind (.anyway _ _) (fun _ paid _ => ?_)
  have building := (Action.ofExcept_ensures (host.builder code) paid).weaken (fun _ _ => id) (fun _ _ _ => trivial)
  refine .bind building (fun contract _ built => ?_)
  refine .bind (.anyway _ _) (fun _ _ _ => ?_)
  cases found : contract.body? input.function with
  | none => exact Ensures.throw _ trivial
  | some body => exact Ensures.pure _ (shuns _ _ _ _ built.1 found)

private theorem staged (shuns : host.Shuns hidden) (input : CallInput) (world : World environment) :
    Ensures (host.stage input) world (fun body _ => body.Shuns hidden) (fun _ _ => True) := by
  refine .bind (.anyway _ _) (fun _ moved _ => ?_)
  have prepared : Ensures (Run.onMachine (fun ledger => host.prepare ledger input)) moved _ _ :=
    Run.onMachine_ensures (shuns.prepared moved.ledger input moved.machine)
  exact prepared.weaken (fun _ _ => And.right) (fun _ _ _ => trivial)

private theorem visited (shuns : host.Shuns hidden) {moment : Moment environment}
    (visited : host.Visits input world moment) : moment.program.Shuns hidden := by
  obtain ⟨body, inside, opens, reached⟩ := visited
  induction reached with
  | refl =>
    have opening : Ensures (host.opening input) { world with machine := world.machine.begin input }
        (fun body _ => body.Shuns hidden) (fun _ _ => True) :=
      .bind (.anyway _ _) (fun _ joined _ => shuns.staged input joined)
    exact opening.of_ok opens
  | tail reached step ih =>
    rcases step with step | step
    · cases step with
      | request served => exact ih.2 _
      | consult responds => exact ih _
    · cases step with
      | call descends => exact (shuns.staged _ _).of_ok (host.descend_iff.mp descends).2.2

private theorem spares (shuns : host.Shuns hidden) (recipient : input.recipient ≠ hidden) {moment : Moment environment}
    (visited : host.Visits input world moment) : moment.Spares hidden := by
  refine host.visits_spare recipient (fun moment visited operation next asks => ?_) visited
  have left_out := shuns.visited visited
  rw [asks] at left_out
  exact left_out.1

end Host.Shuns

/-- The first contract tries to read the second one's storage, tells what it has seen, and runs the code of the second
one on its own storage. -/
def Host.spying : Host Environment.silent :=
  scripted .zero
    (.request (.loadFrom .second [7]) fun seen =>
      .request (.finish (seen.toOption.getD [0])) fun _ =>
        .request (.call .same { recipient := .second }) fun _ => .done ())
    (.request (.load [7]) fun seen => .request (.store [7] (1 :: seen.toOption.getD [])) fun _ => .done ())

private theorem Host.spying_shuns : spying.Shuns .second := by
  have harmless (operation : Operation) (unnamed : ¬operation.Names .second)
      (other : ∀ input, operation ≠ .call .destination input) : operation.Shuns .second :=
    ⟨unnamed, fun input calls => absurd calls (other input)⟩
  intro code contract name body built found
  cases built
  cases found
  split
  · exact ⟨harmless _ id nofun, fun _ => ⟨harmless _ id nofun, fun _ => ⟨harmless _ id nofun, fun _ => trivial⟩⟩⟩
  · exact ⟨harmless _ id nofun, fun _ => ⟨harmless _ id nofun, fun _ => trivial⟩⟩

theorem Host.spying_sees_nothing :
    let filled := World.scripted.ledger.setStorage .second [7] [9]
    filled.stored .second [7] = [9] ∧ (spying.run {} World.scripted).1.code = .ok ∧
      (spying.run {} World.scripted).1.data = [[]] ∧
      (spying.run {} World.scripted).1 = (spying.run {} { World.scripted with ledger := filled }).1 := by
  intro filled
  have held : World.scripted.ledger.account? .second = some { code := [2] } := by decide +kernel
  have unreadable : World.scripted.ledger.Unreadable .second := by
    intro account found
    cases held.symm.trans found
    rfl
  have output : (spying.run {} World.scripted).1 = (spying.run {} { World.scripted with ledger := filled }).1 :=
    (spying.unreadable_storage_stays_hidden (Environment.silent_blind .second) (.setStorage held [7] [9]) unreadable
      (fun _ => spying_shuns.spares (by decide +kernel))).1
  exact ⟨by decide +kernel, by decide +kernel, by decide +kernel, output⟩

end ContractHost
