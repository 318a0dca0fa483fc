import Mathlib.Logic.Relation
import ContractHost.Proofs.NestedCall

/-! The moments of a run: the points at which code of some contract is about to do its next step, at any depth of
nesting. One moment leads over a request to the next moment of the same code, or into a nested call to the first
moment of the callee's. What every such step keeps holds at every moment. -/

namespace ContractHost

structure Moment (environment : Environment) where
  depthLeft : Nat
  program : Program environment Unit
  world : World environment

namespace Moment

variable {environment : Environment}

def layers (moment : Moment environment) : Layers := moment.world.machine.layers

def ledger (moment : Moment environment) : Ledger := moment.world.ledger

/-- The next moment of the same code. A nested call is over when it has come back. -/
inductive Over (host : Host environment) : Moment environment → Moment environment → Prop where
  | request {depthLeft : Nat} {operation : Operation}
      {next : Except Failure operation.Reply → Program environment Unit} {world after : World environment}
      {reply : Except Failure operation.Reply}
      (served : outcome (host.serve (host.callWithin depthLeft) operation) world = (reply, after)) :
      Over host ⟨depthLeft, .request operation next, world⟩ ⟨depthLeft, next reply, after⟩
  | consult {depthLeft : Nat} {question : environment.Question}
      {next : environment.Answer question → Program environment Unit} {world : World environment}
      {answer : environment.Answer question} {ledger : Ledger} {memory : environment.Memory}
      (responds : environment.respond question world.machine world.ledger world.memory = (answer, ledger, memory)) :
      Over host ⟨depthLeft, .consult question next, world⟩ ⟨depthLeft, next answer, { world with ledger, memory }⟩

/-- The first moment of a callee's code. -/
inductive Into (host : Host environment) : Moment environment → Moment environment → Prop where
  | call {depthLeft : Nat} {context : Context} {input : CallInput}
      {next : Except Failure Unit → Program environment Unit} {world inside : World environment}
      {body : Program environment Unit} (descends : host.descend context input world = .ok body inside) :
      Into host ⟨depthLeft + 1, .request (.call context input) next, world⟩ ⟨depthLeft, body, inside⟩

def Reaches (host : Host environment) : Moment environment → Moment environment → Prop :=
  Relation.ReflTransGen (fun before after => Over host before after ∨ Into host before after)

def ended (moment : Moment environment) (host : Host environment) : Except Failure Unit × World environment :=
  outcome (moment.program.run (host.serve (host.callWithin moment.depthLeft))) moment.world

variable {host : Host environment}

theorem Over.ended {before after : Moment environment} (step : Over host before after) :
    before.ended host = after.ended host := by
  cases step with
  | consult responds =>
    simp only [Moment.ended, outcome, Program.run, responds]
  | @request depthLeft operation next world after reply served =>
    simp only [Moment.ended, outcome, Program.run] at served ⊢
    cases run : host.serve (host.callWithin depthLeft) operation world with
    | ok value last =>
      rw [run] at served
      cases served
      rfl
    | error failure last =>
      rw [run] at served
      cases served
      rfl

theorem ended_across {first last : Moment environment} (steps : Relation.ReflTransGen (Over host) first last) :
    first.ended host = last.ended host := by
  induction steps with
  | refl => rfl
  | tail _ step ih => exact ih.trans step.ended

private theorem reaches_end (moment : Moment environment) :
    Reaches host moment ⟨moment.depthLeft, .ofExcept (moment.ended host).1, (moment.ended host).2⟩ := by
  obtain ⟨depthLeft, program, world⟩ := moment
  induction program generalizing world with
  | done value => exact .refl
  | fail failure => exact .refl
  | request operation next ih =>
    have step : Over host ⟨depthLeft, .request operation next, world⟩ _ := .request rfl
    rw [step.ended]
    exact Relation.ReflTransGen.head (.inl step) (ih _ _)
  | consult question next ih =>
    exact Relation.ReflTransGen.head (.inl (.consult rfl)) (ih _ _)

private theorem Reaches.depth {start later : Moment environment} (reached : Reaches host start later) :
    later.depthLeft ≤ start.depthLeft := by
  induction reached with
  | refl => exact Nat.le_refl _
  | tail _ step ih =>
    rcases step with across | within
    · cases across <;> exact ih
    · cases within
      exact Nat.le_of_succ_le ih

theorem Reaches.of_done {depthLeft : Nat} {world : World environment} {later : Moment environment}
    (reached : Reaches host ⟨depthLeft, .done (), world⟩ later) : later = ⟨depthLeft, .done (), world⟩ := by
  rcases Relation.ReflTransGen.cases_head reached with rfl | ⟨next, step, -⟩
  · rfl
  · rcases step with step | step <;> cases step

theorem Reaches.of_request {depthLeft : Nat} {operation : Operation}
    {next : Except Failure operation.Reply → Program environment Unit} {world after : World environment}
    {reply : Except Failure operation.Reply} {later : Moment environment}
    (elementary : ∀ context input, operation ≠ .call context input)
    (served : outcome (host.serve (host.callWithin depthLeft) operation) world = (reply, after))
    (reached : Reaches host ⟨depthLeft, .request operation next, world⟩ later) :
    later = ⟨depthLeft, .request operation next, world⟩ ∨ Reaches host ⟨depthLeft, next reply, after⟩ later := by
  rcases Relation.ReflTransGen.cases_head reached with rfl | ⟨middle, step, further⟩
  · exact .inl rfl
  · rcases step with step | step
    · cases step with
      | request same =>
        cases served.symm.trans same
        exact .inr further
    · cases step
      exact absurd rfl (elementary _ _)

theorem ended_kept (host : Host environment) (moment : Moment environment) :
    moment.world.Kept (moment.ended host).2 :=
  (host.run_kept (host.callWithin_kept moment.depthLeft) moment.program moment.world).state

theorem Over.kept {before after : Moment environment} (step : Over host before after) :
    before.world.Kept after.world := by
  cases step with
  | consult responds => exact .refl _
  | @request depthLeft operation _ world _ _ served =>
    have left : world.Kept (outcome (host.serve (host.callWithin depthLeft) operation) world).2 := by
      rcases operation.elementary_or_call with elementary | ⟨context, input, rfl⟩
      · exact (host.serve_kept _ operation elementary world).state
      · exact (host.callWithin_kept depthLeft context input world).state
    rw [served] at left
    exact left

/-- A call that comes back has cost gas and nothing else, or its callee's code has run to its end. -/
theorem Over.call {depthLeft : Nat} {context : Context} {input : CallInput}
    {next : Except Failure Unit → Program environment Unit} {world : World environment} {after : Moment environment}
    (step : Over host ⟨depthLeft, .request (.call context input) next, world⟩ after) :
    (world.Spent after.world ∧ ∀ start, ¬Into host ⟨depthLeft, .request (.call context input) next, world⟩ start) ∨
      ∃ start, Into host ⟨depthLeft, .request (.call context input) next, world⟩ start ∧
        Host.Returned context (start.ended host) world after.world := by
  cases step with
  | request served =>
    have cases := (host.callWithin_cases depthLeft context input world).state
    change (outcome (host.callWithin depthLeft context input) world) = _ at served
    rw [served] at cases
    rcases cases with ⟨spent, stopped⟩ | ⟨depth, body, inside, rfl, descends, returned⟩
    · refine .inl ⟨spent, fun start step => ?_⟩
      cases step with
      | call descends => exact stopped _ _ _ rfl descends
    · exact .inr ⟨⟨depth, body, inside⟩, .call descends, returned⟩

theorem Into.depth {before start : Moment environment} (step : Into host before start) :
    start.depthLeft < before.depthLeft := by
  cases step
  exact Nat.lt_succ_self _

theorem Into.unique {before first second : Moment environment} (one : Into host before first)
    (other : Into host before second) : first = second := by
  cases one with
  | call descends =>
    cases other with
    | call again =>
      cases descends.symm.trans again
      rfl

theorem Into.kept {depthLeft : Nat} {context : Context} {input : CallInput}
    {next : Except Failure Unit → Program environment Unit} {world : World environment} {start : Moment environment}
    (step : Into host ⟨depthLeft, .request (.call context input) next, world⟩ start) :
    (host.entered context input world).Kept (start.ended host).2 := by
  cases step with
  | @call depth _ _ _ _ inside body descends =>
    exact (host.descend_staged descends).kept.trans (ended_kept host ⟨depth, body, inside⟩)

/-- What a nested call shows in the end is what its callee has, or what there was before where that has failed. -/
theorem Into.shows {depthLeft : Nat} {context : Context} {input : CallInput}
    {next : Except Failure Unit → Program environment Unit} {world after : World environment} {start : Moment environment}
    (step : Into host ⟨depthLeft, .request (.call context input) next, world⟩ start)
    (returned : Host.Returned context (start.ended host) world after) :
    after.machine.layers.flatten =
      (if (start.ended host).1.isOk then (start.ended host).2.machine.layers else world.machine.layers).flatten := by
  have framed := step.kept.framed
  rw [World.Framed, Host.entered_layers] at framed
  rw [returned.layers]
  cases (start.ended host).1.isOk with
  | false => exact congrArg Layers.flatten framed.revert
  | true => exact framed.flatten_leaving

/-- The accounts of the ledger are the same at every moment from here on. -/
def Steady (host : Host environment) (start : Moment environment) : Prop :=
  ∀ later, Reaches host start later → later.ledger.accounts = start.ledger.accounts

/-- From here on, what a step leads to fits what it started from. -/
def Fitting (host : Host environment) (fits : Moment environment → Moment environment → Prop)
    (start : Moment environment) : Prop :=
  ∀ before after, Reaches host start before → Over host before after → fits before after

private theorem Steady.later {start later : Moment environment} (steady : Steady host start)
    (reached : Reaches host start later) : Steady host later :=
  fun last further => (steady last (reached.trans further)).trans (steady later reached).symm

theorem Fitting.later {fits : Moment environment → Moment environment → Prop} {start later : Moment environment}
    (fitting : Fitting host fits start) (reached : Reaches host start later) : Fitting host fits later :=
  fun before after further => fitting before after (reached.trans further)

end Moment

/-- What is kept by everything that can happen to the layers while the accounts of the ledger stay as they are,
provided that the steps fit. -/
structure RunInvariant (schedule : GasSchedule) (fits : Layers → Layers → Prop) (holds : Ledger → Layers → Prop) :
    Prop where
  accounts {first second : Ledger} {layers : Layers} :
    second.accounts = first.accounts → holds first layers → holds second layers
  quiet {ledger : Ledger} {before after : Layers} :
    Layers.Advances schedule ledger Layers.nowhere before after → holds ledger before → holds ledger after
  advance {ledger : Ledger} {scope : Address → Prop} {before after : Layers} :
    Layers.Advances schedule ledger scope before after → fits before after → holds ledger before → holds ledger after
  enter {ledger : Ledger} {layers : Layers} (context : Context) :
    holds ledger layers → holds ledger (layers.step context.entering)
  leave {ledger : Ledger} {before inside : Layers} {context : Context} :
    (before.step context.entering).Framed inside → fits before (inside.step (context.leaving true)) →
      holds ledger inside → holds ledger (inside.step (context.leaving true))

namespace RunInvariant

open Moment

variable {environment : Environment} {host : Host environment} {fits : Layers → Layers → Prop}
  {holds : Ledger → Layers → Prop}

private theorem into (invariant : RunInvariant host.rules.schedule fits holds) {before after : Moment environment}
    (step : Into host before after) (held : holds before.ledger before.layers) : holds after.ledger after.layers := by
  cases step with
  | call descends =>
    obtain ⟨ledger, advanced⟩ := host.descend_advances descends
    refine invariant.accounts (congrArg Ledger.accounts ledger) ?_
    exact invariant.quiet advanced (invariant.enter _ held)

private theorem returned (invariant : RunInvariant host.rules.schedule fits holds) {context : Context}
    {world after : World environment} {ended : Except Failure Unit × World environment}
    (returned : Host.Returned context ended world after)
    (framed : (world.machine.layers.step context.entering).Framed ended.2.machine.layers)
    (accounts : after.ledger.accounts = world.ledger.accounts)
    (fit : fits world.machine.layers after.machine.layers)
    (held : holds world.ledger world.machine.layers) (last : holds ended.2.ledger ended.2.machine.layers) :
    holds world.ledger after.machine.layers := by
  rw [returned.layers] at fit ⊢
  cases succeeded : ended.1.isOk with
  | false =>
    change holds world.ledger ended.2.machine.layers.revert
    rw [framed.revert]
    exact held
  | true =>
    rw [succeeded] at fit
    refine invariant.leave framed fit (invariant.accounts ?_ last)
    exact accounts.symm.trans (congrArg Ledger.accounts returned.ledger)

private theorem across (invariant : RunInvariant host.rules.schedule fits holds) {before after : Moment environment}
    (deeper : ∀ start, start.depthLeft < before.depthLeft → Reaches host before start →
      holds start.ledger start.layers → holds (start.ended host).2.ledger (start.ended host).2.machine.layers)
    (step : Over host before after) (accounts : after.ledger.accounts = before.ledger.accounts)
    (fit : fits before.layers after.layers) (held : holds before.ledger before.layers) :
    holds after.ledger after.layers := by
  refine invariant.accounts accounts ?_
  rcases before with ⟨depthLeft, program, world⟩
  cases program with
  | done | fail => cases step
  | consult question next =>
    cases step
    exact held
  | request operation next =>
    rcases operation.elementary_or_call with elementary | ⟨context, input, rfl⟩
    · cases step with
      | request served =>
        have progress := (host.serve_progress (host.callWithin depthLeft) operation elementary world).state
        rw [served] at progress
        obtain ⟨-, scope, advanced⟩ := progress
        exact invariant.advance advanced fit held
    · rcases step.call with ⟨spent, -⟩ | ⟨start, entering, returned⟩
      · change holds world.ledger after.world.machine.layers
        rw [spent.unmoved.2]
        exact held
      · have framed := entering.kept.framed
        rw [World.Framed, Host.entered_layers] at framed
        refine invariant.returned returned framed accounts fit held ?_
        exact deeper start entering.depth (.single (.inr entering)) (invariant.into entering held)

private theorem reaches (invariant : RunInvariant host.rules.schedule fits holds) {start later : Moment environment}
    (steady : Steady host start) (fitting : Fitting host (fun before after => fits before.layers after.layers) start)
    (held : holds start.ledger start.layers)
    (reached : Reaches host start later) : holds later.ledger later.layers := by
  -- A step over a call needs the whole run of its callee, which is not on the way but one level deeper.
  induction depth : start.depthLeft using Nat.strongRecOn generalizing start later with
  | ind depth deeper =>
    induction reached with
    | refl => exact held
    | @tail middle later reached step ih =>
      have middle_steady := steady.later reached
      have middle_fitting := fitting.later reached
      have bound := Reaches.depth reached
      rcases step with step | step
      · refine invariant.across ?_ step (middle_steady later (.single (.inl step)))
          (fitting middle later reached step) ih
        intro inside less entered held
        exact deeper inside.depthLeft (by omega) (middle_steady.later entered) (middle_fitting.later entered) held
          inside.reaches_end rfl
      · exact invariant.into step ih

end RunInvariant

namespace Host

variable {environment : Environment}

/-- A transaction up to where the recipient's code starts. -/
def opening (host : Host environment) (input : CallInput) : Run environment (Program environment Unit) := do
  let _ ← Run.onMachine (fun _ => Action.enter host.rules input.recipient input.caller input.kind)
  host.stage input

def Visits (host : Host environment) (input : CallInput) (world : World environment) (moment : Moment environment) :
    Prop :=
  ∃ body inside, host.opening input { world with machine := world.machine.begin input } = .ok body inside ∧
    Moment.Reaches host ⟨host.rules.maxCallDepth - 1, body, inside⟩ moment

/-- The world in which a transaction ends, with whatever is still saved. -/
def ending (host : Host environment) (input : CallInput) (world : World environment) : World environment :=
  (outcome (host.executeTopLevel input) { world with machine := world.machine.begin input }).2

theorem executeTopLevel_eq (host : Host environment) (input : CallInput) :
    host.executeTopLevel input =
      host.opening input >>= fun body => body.run (host.serve (host.callWithin (host.rules.maxCallDepth - 1))) := by
  simp only [opening, stage, bind_assoc]
  rfl

/-- The call of a transaction is refused where the chain admits none, and is staged on a fresh machine otherwise. -/
theorem opening_cases (host : Host environment) (input : CallInput) (world : World environment) :
    let begun : World environment := { world with machine := world.machine.begin input }
    (∃ failure, host.opening input begun = .error failure begun) ∨
      0 < host.rules.maxCallDepth ∧
        host.opening input begun = host.stage input { begun with machine := begun.machine.joined input } := by
  intro begun
  rcases Nat.eq_zero_or_pos host.rules.maxCallDepth with none | room
  · have deep : host.rules.maxCallDepth ≤ begun.machine.callDepth := Nat.le_of_eq none
    exact .inl ⟨_, bind_of_error (host.enter_refused input deep)⟩
  · have admitted : begun.machine.callDepth < host.rules.maxCallDepth := room
    exact .inr ⟨room, bind_of_ok (host.enter_admitted input admitted)⟩

/-- A transaction's code starts from a fresh machine on which its call has been entered and staged. -/
theorem opening_staged (host : Host environment) {input : CallInput} {world inside : World environment}
    {body : Program environment Unit}
    (opens : host.opening input { world with machine := world.machine.begin input } = .ok body inside) :
    0 < host.rules.maxCallDepth ∧
      World.Staged host.rules { world with machine := (world.machine.begin input).joined input } inside := by
  rcases host.opening_cases input world with ⟨failure, refused⟩ | ⟨room, staging⟩
  · cases refused.symm.trans opens
  · exact ⟨room, (host.stage_staged input _).of_ok (staging.symm.trans opens)⟩

/-- What holds of the fresh machine of a transaction, is kept by whatever keeps what belongs to the callers, and holds
where a nested call begins, holds at every moment. -/
theorem Visits.induction {host : Host environment} {input : CallInput} {world : World environment}
    (holds : World environment → Prop)
    (begun : 0 < host.rules.maxCallDepth → holds { world with machine := (world.machine.begin input).joined input })
    (kept : ∀ before after, World.Kept before after → holds before → holds after)
    (entered : ∀ context call before, host.Covers context call before →
      before.machine.callDepth < host.rules.maxCallDepth → holds before → holds (host.entered context call before))
    {moment : Moment environment} (visited : host.Visits input world moment) : holds moment.world := by
  obtain ⟨body, inside, opens, reached⟩ := visited
  obtain ⟨room, staged⟩ := host.opening_staged opens
  induction reached with
  | refl => exact kept _ _ staged.kept (begun room)
  | tail reached step ih =>
    rcases step with step | step
    · exact kept _ _ step.kept ih
    · cases step with
      | call descends =>
        obtain ⟨covered, room, -⟩ := host.descend_iff.mp descends
        exact kept _ _ (host.descend_staged descends).kept (entered _ _ _ covered room ih)

theorem visits_closed {host : Host environment} {input : CallInput} {world : World environment}
    {moment : Moment environment} (visited : host.Visits input world moment) :
    moment.world.machine.isProtected = true := by
  refine visited.induction (fun world => world.machine.isProtected = true) (fun _ => rfl) ?_ ?_
  · exact fun _ _ kept => kept.closed
  · intro context call before _ _ _
    cases context <;> rfl

theorem opening_advances (host : Host environment) {input : CallInput} {world inside : World environment}
    {body : Program environment Unit}
    (opens : host.opening input { world with machine := world.machine.begin input } = .ok body inside) :
    inside.ledger = world.ledger ∧
      Layers.Advances host.rules.schedule world.ledger Layers.nowhere .start inside.machine.layers := by
  obtain ⟨-, ledger, staged⟩ := host.opening_staged opens
  exact ⟨ledger, staged.layers⟩

/-- A transaction fails, and then its output is empty, or its code succeeds, and the output is what that has left in one
layer. -/
theorem run_ended (host : Host environment) (input : CallInput) (world : World environment) :
    let begun : World environment := { world with machine := world.machine.begin input }
    (∃ failure, (host.run input world).1 = .failed failure ∧ ∀ body inside, host.opening input begun = .ok body inside →
        (Moment.ended ⟨host.rules.maxCallDepth - 1, body, inside⟩ host).1.isOk = false) ∨
      ∃ body inside last, host.opening input begun = .ok body inside ∧
        Moment.ended ⟨host.rules.maxCallDepth - 1, body, inside⟩ host = (.ok (), last) ∧
        Layers.start.Framed last.machine.layers ∧ (host.run input world).2.ledger = last.ledger ∧
        (host.run input world).1 = last.machine.layers.result last.machine.gasLeft last.machine.gasFreed := by
  intro begun
  simp only [run]
  rw [executeTopLevel_eq]
  cases opens : host.opening input begun with
  | error failure after =>
    rw [bind_of_error opens]
    refine .inl ⟨failure, rfl, ?_⟩
    intro body inside opened
    cases opened
  | ok body inside =>
    rw [bind_of_ok opens]
    have framed := (Moment.ended_kept host ⟨host.rules.maxCallDepth - 1, body, inside⟩).framed
    simp only [World.Framed, Moment.ended, outcome] at framed
    cases succeeds : body.run (host.serve (host.callWithin (host.rules.maxCallDepth - 1))) inside with
    | error failure after =>
      refine .inl ⟨failure, rfl, ?_⟩
      intro body inside opened
      cases opened
      simp only [Moment.ended, outcome, succeeds]
      rfl
    | ok value after =>
      rw [succeeds] at framed
      refine .inr ⟨body, inside, after, rfl, ?_, (host.opening_advances opens).2.frame.trans framed, rfl, rfl⟩
      simp only [Moment.ended, outcome, succeeds]

/-- A transaction is refused, or what belongs to callers stays as it is until the end: its call cannot be staged, or
its code comes to its last moment. -/
theorem ending_cases (host : Host environment) (input : CallInput) (world : World environment) :
    let begun : World environment := { world with machine := world.machine.begin input }
    let joined : World environment := { begun with machine := begun.machine.joined input }
    host.ending input world = begun ∨
      joined.Kept (host.ending input world) ∧ (joined.Staged host.rules (host.ending input world) ∨
        ∃ moment, host.Visits input world moment ∧ moment.world = host.ending input world) := by
  intro begun joined
  have ends : host.ending input world = (outcome (host.opening input >>= fun body =>
      body.run (host.serve (host.callWithin (host.rules.maxCallDepth - 1)))) begun).2 := by
    rw [← executeTopLevel_eq]
    rfl
  rcases host.opening_cases input world with ⟨failure, refused⟩ | ⟨-, staging⟩
  · rw [outcome_bind_of_error refused] at ends
    exact .inl ends
  have staged := host.stage_staged input joined
  rw [ends]
  cases opens : host.opening input begun with
  | error failure after =>
    rw [outcome_bind_of_error opens]
    have stopped := staged.of_error (staging.symm.trans opens)
    exact .inr ⟨stopped.kept, .inl stopped⟩
  | ok body inside =>
    rw [outcome_bind_of_ok opens]
    let first : Moment environment := ⟨host.rules.maxCallDepth - 1, body, inside⟩
    have begins := staged.of_ok (staging.symm.trans opens)
    exact .inr ⟨begins.kept.trans (Moment.ended_kept host first), .inr ⟨_, ⟨body, inside, opens, first.reaches_end⟩, rfl⟩⟩

/-- A transaction returns the world in which it ends, without what was saved, and the output of its active layer or that
of its failure. -/
theorem run_settles (host : Host environment) (input : CallInput) (world : World environment) :
    let last := host.ending input world
    (host.run input world).2 = { last with machine := last.machine.settle } ∧
      ((∃ failure, (host.run input world).1 = .failed failure) ∨
        (host.run input world).1 = last.machine.layers.result last.machine.gasLeft last.machine.gasFreed) := by
  simp only [run, ending, outcome]
  cases host.executeTopLevel input { world with machine := world.machine.begin input } with
  | ok value after => exact ⟨rfl, .inr rfl⟩
  | error failure after => exact ⟨rfl, .inl ⟨failure, rfl⟩⟩

theorem run_cases (host : Host environment) (input : CallInput) (world : World environment) :
    (∃ failure, (host.run input world).1 = .failed failure) ∨
      ∃ moment, host.Visits input world moment ∧ Layers.start.Framed moment.layers ∧
        (host.run input world).2.ledger = moment.ledger ∧
        ∃ remaining refund, (host.run input world).1 = moment.layers.result remaining refund := by
  rcases host.run_ended input world with ⟨failure, failed, -⟩ | ⟨body, inside, last, opens, ended, bottom, ledger, result⟩
  · exact .inl ⟨failure, failed⟩
  · have reached : Moment.Reaches host _ _ := Moment.reaches_end ⟨host.rules.maxCallDepth - 1, body, inside⟩
    rw [ended] at reached
    exact .inr ⟨_, ⟨body, inside, opens, reached⟩, bottom, ledger, _, _, result⟩

end Host

namespace RunInvariant

variable {environment : Environment} {host : Host environment} {fits : Layers → Layers → Prop}
  {holds : Ledger → Layers → Prop}

theorem visits (invariant : RunInvariant host.rules.schedule fits holds) {input : CallInput}
    {world : World environment}
    (steady : ∀ moment, host.Visits input world moment → moment.ledger.accounts = world.ledger.accounts)
    (fitting : ∀ before after, host.Visits input world before → Moment.Over host before after →
      fits before.layers after.layers)
    (start : holds world.ledger .start) {moment : Moment environment} (visited : host.Visits input world moment) :
    holds world.ledger moment.layers := by
  have same := steady moment visited
  obtain ⟨body, inside, opens, reached⟩ := visited
  obtain ⟨ledger, advanced⟩ := host.opening_advances opens
  let first : Moment environment := ⟨host.rules.maxCallDepth - 1, body, inside⟩
  have begun : holds first.ledger first.layers :=
    invariant.accounts (congrArg Ledger.accounts ledger) (invariant.quiet advanced start)
  refine invariant.accounts same.symm (invariant.reaches ?_ ?_ begun reached)
  · intro later further
    exact (steady later ⟨body, inside, opens, further⟩).trans (congrArg Ledger.accounts ledger).symm
  · intro before after further step
    exact fitting before after ⟨body, inside, opens, further⟩ step

end RunInvariant

namespace Host

variable (host : Host Environment.silent)

private theorem serve_ledger {nested : Context → CallInput → Run Environment.silent Unit}
    (kept : ∀ context input world, Leaves (nested context input) world (fun after => after.ledger = world.ledger))
    (operation : Operation) (world : World Environment.silent) :
    Leaves (host.serve nested operation) world (fun after => after.ledger = world.ledger) := by
  rcases operation.elementary_or_call with elementary | ⟨context, input, rfl⟩
  · exact (host.serve_progress nested operation elementary world).weaken (fun _ progress => progress.1)
  · exact kept context input world

private theorem run_ledger {nested : Context → CallInput → Run Environment.silent Unit}
    (kept : ∀ context input world, Leaves (nested context input) world (fun after => after.ledger = world.ledger))
    (body : Program Environment.silent Unit) (world : World Environment.silent) :
    Leaves (body.run (host.serve nested)) world (fun after => after.ledger = world.ledger) :=
  Program.run_leaves (fun before after => after.ledger = before.ledger) (fun _ => rfl)
    (fun _ _ _ first second => second.trans first) (host.serve_ledger kept)
    (fun question _ => (question : Empty).elim) body world

private theorem callWithin_ledger (depthLeft : Nat) (context : Context) (input : CallInput)
    (world : World Environment.silent) :
    Leaves (host.callWithin depthLeft context input) world (fun after => after.ledger = world.ledger) := by
  induction depthLeft using Nat.strongRecOn generalizing context input world with
  | ind depthLeft deeper =>
    refine (host.callWithin_cases depthLeft context input world).weaken ?_
    intro after cases
    rcases cases with ⟨spent, -⟩ | ⟨depth, body, inside, rfl, descends, returned⟩
    · exact spent.ledger
    · have kept := host.run_ledger (deeper depth (Nat.lt_succ_self depth)) body inside
      exact (returned.ledger.trans kept.state).trans (host.descend_advances descends).1

theorem visits_ledger {input : CallInput} {world : World Environment.silent} {moment : Moment Environment.silent}
    (visited : host.Visits input world moment) : moment.ledger = world.ledger := by
  obtain ⟨body, inside, opens, reached⟩ := visited
  refine Eq.trans ?_ (host.opening_advances opens).1
  induction reached with
  | refl => rfl
  | tail reached step ih =>
    refine Eq.trans ?_ ih
    rcases step with across | within
    · cases across with
      | @consult _ question => exact (question : Empty).elim
      | @request depthLeft operation _ before _ _ served =>
        have kept := (host.serve_ledger (host.callWithin_ledger depthLeft) operation before).state
        rw [served] at kept
        exact kept
    · cases within with
      | call descends => exact (host.descend_advances descends).1

end Host

/-- The contract with the code `[1]` runs the first program, any other contract the second one. -/
def Host.scripted (schedule : GasSchedule) (first second : Program Environment.silent Unit) :
    Host Environment.silent where
  rules :=
    { config := { schedule }
      spaces := ⟨[3], [4], List.cons_ne_nil _ _, List.cons_ne_nil _ _⟩ }
  gate := ⟨[]⟩
  builder := fun code => .ok
    { interface := { hasMemory := true, exports := [], signature? := fun _ => none }
      body? := fun _ => some (if code = [1] then first else second) }

def Address.second : Address := .ofLabel "second"

def World.scripted : World Environment.silent where
  ledger := (Ledger.addContract {} .zero [1] {}).addContract .second [2] {}
  memory := ()

/-- The world in which the code of a transaction of the first contract starts. -/
def World.begun (gas : UInt64) : World Environment.silent :=
  { World.scripted with machine := (World.scripted.machine.begin { gas }).joined { gas } }

end ContractHost
