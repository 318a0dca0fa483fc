import ContractHost.Proofs.Moments

/-! The code that waits while a callee runs. At every moment of a transaction some code may wait for nested calls to
come back, and each piece of it knows how to go on. What is left of the transaction follows from how the running code
ends: the frames are closed one after another, the final cost of each call is charged, and the code that waited for it
runs to its own end. -/

namespace ContractHost

variable {environment : Environment}

structure Waiting (environment : Environment) where
  context : Context
  next : Except Failure Unit → Program environment Unit

namespace Host

def deliver (host : Host environment) (context : Context) (ended : Except Failure Unit × World environment) :
    Except Failure Unit × World environment :=
  outcome (host.conclude ended.1) { ended.2 with machine := leaveNested context ended.1.isOk ended.2.machine }

/-- How a transaction's own code ends, given how the running code has ended and what waits for it, innermost first. -/
def resume (host : Host environment) :
    Nat → List (Waiting environment) → Except Failure Unit × World environment → Except Failure Unit × World environment
  | _, [], ended => ended
  | depthLeft, waiting :: outer, ended =>
    let delivered := host.deliver waiting.context ended
    host.resume (depthLeft + 1) outer (Moment.ended ⟨depthLeft + 1, waiting.next delivered.1, delivered.2⟩ host)

def conclusion (ended : Except Failure Unit × World environment) : Output × World environment :=
  match ended with
  | (.ok (), last) =>
    (last.machine.layers.result last.machine.gasLeft last.machine.gasFreed,
      { last with machine := last.machine.settle })
  | (.error failure, last) => (.failed failure, { last with machine := last.machine.settle })

/-- A moment of a transaction together with the code that waits at it. -/
inductive Suspends (host : Host environment) (input : CallInput) (world : World environment) :
    List (Waiting environment) → Moment environment → Prop where
  | opening {body : Program environment Unit} {inside : World environment}
      (opens : host.opening input { world with machine := world.machine.begin input } = .ok body inside) :
      Suspends host input world [] ⟨host.rules.maxCallDepth - 1, body, inside⟩
  | across {waiting : List (Waiting environment)} {before after : Moment environment}
      (earlier : Suspends host input world waiting before) (step : Moment.Over host before after) :
      Suspends host input world waiting after
  | into {waiting : List (Waiting environment)} {depthLeft : Nat} {context : Context} {call : CallInput}
      {next : Except Failure Unit → Program environment Unit} {before : World environment} {start : Moment environment}
      (earlier : Suspends host input world waiting ⟨depthLeft, .request (.call context call) next, before⟩)
      (step : Moment.Into host ⟨depthLeft, .request (.call context call) next, before⟩ start) :
      Suspends host input world (⟨context, next⟩ :: waiting) start

end Host

private theorem Moment.Into.delivers {host : Host environment} {depthLeft : Nat} {context : Context} {call : CallInput}
    {next : Except Failure Unit → Program environment Unit} {world : World environment} {start : Moment environment}
    (step : Into host ⟨depthLeft, .request (.call context call) next, world⟩ start) :
    depthLeft = start.depthLeft + 1 ∧
      outcome (host.callWithin depthLeft context call) world = host.deliver context (start.ended host) := by
  cases step with
  | @call depth _ _ _ _ inside body descends =>
    obtain ⟨covered, room, staged⟩ := host.descend_iff.mp descends
    have ended : outcome (Host.callee (host.executeWithin (depth + 1)) (Host.addressed context call world))
        (host.entered context call world) = Moment.ended ⟨depth, body, inside⟩ host := by
      rw [host.callee_staged, outcome_bind_of_ok staged]
      rfl
    obtain ⟨kept, called⟩ := host.call_entered (host.executeWithin_kept (depth + 1)) covered room
    rw [ended] at kept called
    refine ⟨rfl, ?_⟩
    rw [Host.callWithin_eq, called, Host.deliver, Host.leaveNested_kept kept]
    rfl

namespace Host

variable {host : Host environment} {input : CallInput} {world : World environment} {waiting : List (Waiting environment)}
  {moment : Moment environment}

theorem Visits.suspends (visited : host.Visits input world moment) :
    ∃ waiting, host.Suspends input world waiting moment := by
  obtain ⟨body, inside, opens, reached⟩ := visited
  induction reached with
  | refl => exact ⟨[], .opening opens⟩
  | tail _ step ih =>
    obtain ⟨waiting, suspends⟩ := ih
    rcases step with step | step
    · exact ⟨waiting, .across suspends step⟩
    · cases step with
      | call descends => exact ⟨_, .into suspends (.call descends)⟩

/-- At every moment of a transaction its result follows from how the running code ends. -/
theorem Suspends.run (suspends : host.Suspends input world waiting moment) :
    host.run input world = conclusion (host.resume moment.depthLeft waiting (moment.ended host)) := by
  induction suspends with
  | @opening body inside opens =>
    have code := executeTopLevel_eq host input
    rw [Host.run, code, bind_of_ok opens, resume, Moment.ended, outcome]
    cases body.run (host.serve (host.callWithin (host.rules.maxCallDepth - 1))) inside <;> rfl
  | @across waiting before after _ step ih =>
    have depth : before.depthLeft = after.depthLeft := by cases step <;> rfl
    rw [ih, step.ended, depth]
  | @into waiting depthLeft context call next before start _ step ih =>
    obtain ⟨rfl, answers⟩ := step.delivers
    have back : Moment.Over host ⟨start.depthLeft + 1, .request (.call context call) next, before⟩ _ := .request answers
    rw [ih, back.ended]
    rfl

end Host

end ContractHost
