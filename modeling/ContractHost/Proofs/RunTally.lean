import ContractHost.Proofs.Moments

/-! What the requests of a run add up to. Each has a weight, by how it was answered and what it left. A nested call
weighs as much as the requests of its callee together where the callee has succeeded, and nothing where all of that was
undone. A relation that every step keeps by its weight is kept by a whole run by its tally. -/

namespace ContractHost

variable {environment : Environment}

/-- The weight of a request that is not a call, given its reply and the world before and after. -/
abbrev Weight (environment : Environment) :=
  (operation : Operation) → Except Failure operation.Reply → World environment → World environment → Nat

namespace Program

variable {α : Type}

def tally (serve : (operation : Operation) → Run environment operation.Reply)
    (weigh : Operation → World environment → Nat) : Program environment α → World environment → Nat
  | .done _ => fun _ => 0
  | .fail _ => fun _ => 0
  | .request operation next => fun world =>
    let (reply, after) := outcome (serve operation) world
    weigh operation world + (next reply).tally serve weigh after
  | .consult question next => fun world =>
    let (answer, ledger, memory) := environment.respond question world.machine world.ledger world.memory
    (next answer).tally serve weigh { world with ledger, memory }

end Program

namespace Host

/-- The weight of any request, where nested calls are weighed by `nested`. -/
def weightBy (host : Host environment) (weigh : Weight environment) (depthLeft : Nat)
    (nested : Context → CallInput → World environment → Nat) (operation : Operation) (world : World environment) : Nat :=
  match operation with
  | .call context input => nested context input world
  | operation =>
    let (reply, after) := outcome (host.serve (host.callWithin depthLeft) operation) world
    weigh operation reply world after

def weight (host : Host environment) (weigh : Weight environment) : Nat → Operation → World environment → Nat
  | 0 => host.weightBy weigh 0 (fun _ _ _ => 0)
  | depthLeft + 1 =>
    host.weightBy weigh (depthLeft + 1) fun context input world =>
      match host.descend context input world with
      | .error .. => 0
      | .ok body inside =>
        let serve := host.serve (host.callWithin depthLeft)
        if (outcome (body.run serve) inside).1.isOk then body.tally serve (host.weight weigh depthLeft) inside else 0

private theorem weight_elementary (host : Host environment) (weigh : Weight environment) (depthLeft : Nat)
    {operation : Operation} (elementary : ∀ context input, operation ≠ .call context input)
    {reply : Except Failure operation.Reply} {world after : World environment}
    (served : outcome (host.serve (host.callWithin depthLeft) operation) world = (reply, after)) :
    host.weight weigh depthLeft operation world = weigh operation reply world after := by
  have weighed : host.weight weigh depthLeft operation world =
      weigh operation (outcome (host.serve (host.callWithin depthLeft) operation) world).1 world
        (outcome (host.serve (host.callWithin depthLeft) operation) world).2 := by
    cases operation with
    | call context input => exact absurd rfl (elementary context input)
    | _ => cases depthLeft <;> rfl
  rw [weighed, served]

end Host

namespace Moment

variable {host : Host environment} {weigh : Weight environment}

def tally (moment : Moment environment) (host : Host environment) (weigh : Weight environment) : Nat :=
  moment.program.tally (host.serve (host.callWithin moment.depthLeft)) (host.weight weigh moment.depthLeft) moment.world

/-- The tally of a run that succeeds; of any other nothing is kept. -/
def keptTally (moment : Moment environment) (host : Host environment) (weigh : Weight environment) : Nat :=
  if (moment.ended host).1.isOk then moment.tally host weigh else 0

private theorem Into.weight {depthLeft : Nat} {context : Context} {input : CallInput}
    {next : Except Failure Unit → Program environment Unit} {world : World environment} {start : Moment environment}
    (step : Into host ⟨depthLeft, .request (.call context input) next, world⟩ start) :
    host.weight weigh depthLeft (.call context input) world = start.keptTally host weigh := by
  cases step with
  | call descends =>
    simp only [Host.weight, Host.weightBy, descends]
    rfl

private theorem weight_of_shut {depthLeft : Nat} {context : Context} {input : CallInput}
    {next : Except Failure Unit → Program environment Unit} {world : World environment}
    (shut : ∀ start, ¬Into host ⟨depthLeft, .request (.call context input) next, world⟩ start) :
    host.weight weigh depthLeft (.call context input) world = 0 := by
  cases depthLeft with
  | zero => rfl
  | succ depthLeft =>
    simp only [Host.weight, Host.weightBy]
    cases descends : host.descend context input world with
    | error failure after => rfl
    | ok body inside => exact absurd (.call descends) (shut ⟨depthLeft, body, inside⟩)

def Weightless (host : Host environment) (weigh : Weight environment) (moment : Moment environment) : Prop :=
  match moment.program with
  | .request operation _ =>
    let (reply, after) := outcome (host.serve (host.callWithin moment.depthLeft) operation) moment.world
    weigh operation reply moment.world after = 0
  | _ => True

end Moment

/-- What the requests of a transaction add up to, nothing where it fails. -/
def Host.tally (host : Host environment) (weigh : Weight environment) (input : CallInput) (world : World environment) :
    Nat :=
  match host.opening input { world with machine := world.machine.begin input } with
  | .ok body inside => Moment.keptTally ⟨host.rules.maxCallDepth - 1, body, inside⟩ host weigh
  | .error .. => 0

/-- What relates the world before to the world after every kind of step, by the weight of the step and provided that
the step fits, and goes from one step to the next. -/
structure RunRelation (host : Host environment) (weigh : Weight environment)
    (fits : Moment environment → Moment environment → Prop)
    (related : Nat → World environment → World environment → Prop) : Prop where
  refl (world : World environment) : related 0 world world
  trans {first second : Nat} {before middle after : World environment} :
    related first before middle → related second middle after → related (first + second) before after
  consult {depthLeft : Nat} {question : environment.Question}
      {next : environment.Answer question → Program environment Unit} {world : World environment}
      {answer : environment.Answer question} {ledger : Ledger} {memory : environment.Memory} :
    fits ⟨depthLeft, .consult question next, world⟩ ⟨depthLeft, next answer, { world with ledger, memory }⟩ →
      related 0 world { world with ledger, memory }
  elementary {depthLeft : Nat} {operation : Operation}
      {next : Except Failure operation.Reply → Program environment Unit} {world after : World environment}
      {reply : Except Failure operation.Reply} :
    (∀ context input, operation ≠ .call context input) →
      outcome (host.serve (host.callWithin depthLeft) operation) world = (reply, after) →
      fits ⟨depthLeft, .request operation next, world⟩ ⟨depthLeft, next reply, after⟩ →
      related (weigh operation reply world after) world after
  spent {world after : World environment} : world.Spent after → related 0 world after
  returned {depthLeft amount : Nat} {context : Context} {input : CallInput}
      {next : Except Failure Unit → Program environment Unit} {world : World environment}
      {start after : Moment environment} :
    Moment.Into host ⟨depthLeft, .request (.call context input) next, world⟩ start →
      Host.Returned context (start.ended host) world after.world →
      fits ⟨depthLeft, .request (.call context input) next, world⟩ after →
      related amount start.world (start.ended host).2 →
      related (if (start.ended host).1.isOk then amount else 0) world after.world

namespace RunRelation

open Moment

variable {host : Host environment} {weigh : Weight environment}
  {fits : Moment environment → Moment environment → Prop}
  {related : Nat → World environment → World environment → Prop}

private theorem across (relation : RunRelation host weigh fits related) {depthLeft : Nat} {operation : Operation}
    {next : Except Failure operation.Reply → Program environment Unit} {world : World environment}
    {after : Moment environment}
    (deeper : ∀ start, Into host ⟨depthLeft, .request operation next, world⟩ start →
      related (start.tally host weigh) start.world (start.ended host).2)
    (step : Over host ⟨depthLeft, .request operation next, world⟩ after)
    (fit : fits ⟨depthLeft, .request operation next, world⟩ after) :
    related (host.weight weigh depthLeft operation world) world after.world := by
  rcases operation.elementary_or_call with elementary | ⟨context, input, rfl⟩
  · cases step with
    | request served =>
      rw [host.weight_elementary weigh depthLeft elementary served]
      exact relation.elementary elementary served fit
  · rcases step.call with ⟨spent, shut⟩ | ⟨start, entering, returned⟩
    · rw [weight_of_shut shut]
      exact relation.spent spent
    · rw [entering.weight]
      exact relation.returned entering returned fit (deeper start entering)

/-- A whole run is related by its tally. -/
theorem ended (relation : RunRelation host weigh fits related) {start : Moment environment}
    (fitting : Fitting host fits start) : related (start.tally host weigh) start.world (start.ended host).2 := by
  -- On the depth for what nested calls run, and within one depth on the code that is left.
  induction depth : start.depthLeft using Nat.strongRecOn generalizing start with
  | ind depth deeper =>
    obtain ⟨depthLeft, program, world⟩ := start
    subst depth
    induction program generalizing world with
    | done value => exact relation.refl world
    | fail failure => exact relation.refl world
    | request operation next ih =>
      have served : outcome (host.serve (host.callWithin depthLeft) operation) world = (_, _) := rfl
      have step : Over host ⟨depthLeft, .request operation next, world⟩ _ := .request served
      have first := relation.across (fun start entering =>
        deeper start.depthLeft entering.depth (fitting.later (.single (.inr entering))) rfl) step (fitting _ _ .refl step)
      have rest := ih _ _ (fitting.later (.single (.inl step))) deeper
      rw [step.ended]
      exact relation.trans first rest
    | consult question next ih =>
      have step : Over host ⟨depthLeft, .consult question next, world⟩ _ := .consult rfl
      have fit := fitting _ _ .refl step
      have whole := relation.trans (relation.consult fit) (ih _ _ (fitting.later (.single (.inl step))) deeper)
      rw [Nat.zero_add] at whole
      rw [step.ended]
      exact whole

theorem step (relation : RunRelation host weigh fits related) {depthLeft : Nat} {operation : Operation}
    {next : Except Failure operation.Reply → Program environment Unit} {world : World environment}
    {after : Moment environment} (step : Over host ⟨depthLeft, .request operation next, world⟩ after)
    (fit : fits ⟨depthLeft, .request operation next, world⟩ after)
    (inside : ∀ start, Into host ⟨depthLeft, .request operation next, world⟩ start → Fitting host fits start) :
    related (host.weight weigh depthLeft operation world) world after.world :=
  relation.across (fun start entering => relation.ended (inside start entering)) step fit

/-- A transaction fails and weighs nothing, or its code is related to its end by its tally. -/
theorem run (relation : RunRelation host weigh fits related) {input : CallInput} {world : World environment}
    (fitting : ∀ before after, host.Visits input world before → Over host before after → fits before after) :
    (∃ failure, (host.run input world).1 = .failed failure ∧ host.tally weigh input world = 0) ∨
      ∃ body inside last, host.opening input { world with machine := world.machine.begin input } = .ok body inside ∧
        related (host.tally weigh input world) inside last ∧ Layers.start.Framed last.machine.layers ∧
        (host.run input world).1 = last.machine.layers.result last.machine.gasLeft last.machine.gasFreed := by
  rcases host.run_ended input world with ⟨failure, failed, stopped⟩ | ⟨body, inside, last, opens, ended, bottom, -, result⟩
  · refine .inl ⟨failure, failed, ?_⟩
    rw [Host.tally]
    split
    next body inside opens => rw [keptTally, stopped body inside opens, if_neg Bool.false_ne_true]
    next => rfl
  · refine .inr ⟨body, inside, last, opens, ?_, bottom, result⟩
    have whole := relation.ended fun before after reached => fitting before after ⟨body, inside, opens, reached⟩
    rw [ended] at whole
    rw [Host.tally, opens]
    simp only [keptTally, ended]
    exact whole

private theorem weightless (host : Host environment) (weigh : Weight environment) :
    RunRelation host weigh (fun before _ => before.Weightless host weigh) (fun amount _ _ => amount = 0) where
  refl _ := rfl
  trans first second := by rw [first, second]
  consult _ := rfl
  elementary _ served none := by
    rw [Weightless] at none
    dsimp only at none
    rwa [served] at none
  spent _ := rfl
  returned _ _ _ none := by
    rw [none]
    exact ite_self 0

end RunRelation

theorem Host.tally_eq_zero (host : Host environment) (weigh : Weight environment) {input : CallInput}
    {world : World environment} (none : ∀ moment, host.Visits input world moment → moment.Weightless host weigh) :
    host.tally weigh input world = 0 := by
  rcases (RunRelation.weightless host weigh).run (fun before _ visited _ => none before visited) with
    ⟨_, -, nothing⟩ | ⟨_, _, _, -, nothing, -⟩
  · exact nothing
  · exact nothing

end ContractHost
