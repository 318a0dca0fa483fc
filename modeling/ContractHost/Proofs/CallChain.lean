import ContractHost.Proofs.Moments

/-! The chain of calls. What is saved for the callers lies in four stacks beside the chain, each pushed and popped by
hand, and while code runs they are as deep as one another. A nested call, however it ends, leaves all of them as it
found them, and a transaction leaves nothing saved. -/

namespace ContractHost

variable {environment : Environment}

namespace CallRecord

/-- The call runs on its own storage, not on that of its caller. -/
def ownsStorage (record : CallRecord) : Bool := record.depth == 0 || record.kind == .destinationContext

end CallRecord

namespace Machine

/-- The call at a depth of the chain. -/
def callAt? (machine : Machine) (depth : Nat) : Option CallRecord := machine.calls.reverse[depth]?

/-- Whatever belongs to the running call and its callers is as it was, the active layer and the gas in use apart. -/
structure Resumed (before after : Machine) : Prop where
  scopes : after.scopes = before.scopes
  layers : after.layers.saved = before.layers.saved
  gas : after.gas.saved = before.gas.saved
  frames : after.frames = before.frames
  calls : after.calls = before.calls

structure Unsaved (machine : Machine) : Prop where
  scopes : machine.scopes.saved = []
  layers : machine.layers.saved = []
  gas : machine.gas.saved = []
  frames : machine.frames.saved = []

/-- What is saved matches the chain, and the chain tells who called whom and whose storage is in scope. -/
structure Chained (limit : Nat) (machine : Machine) : Prop where
  running : 0 < machine.callDepth
  bounded : machine.callDepth ≤ limit
  scopes : machine.scopes.depth = machine.callDepth - 1
  layers : machine.layers.depth = machine.callDepth - 1
  gas : machine.gas.depth = machine.callDepth - 1
  frames : machine.frames.depth = machine.callDepth - 1
  depth {depth : Nat} {record : CallRecord} : machine.callAt? depth = some record → record.depth = depth
  caller {depth : Nat} {outer inner : CallRecord} :
    machine.callAt? depth = some outer → machine.callAt? (depth + 1) = some inner → inner.caller = outer.address
  contract : machine.calls.head?.map (·.address) = some machine.contract
  closed : machine.isProtected = true
  storage : (machine.calls.find? CallRecord.ownsStorage).map (·.address) = some machine.storageAddress

variable {limit : Nat} {before after : Machine}

private theorem Unsaved.kept (unsaved : before.Unsaved) (kept : before.Kept after) : after.Unsaved where
  scopes := kept.scopes.trans unsaved.scopes
  layers := kept.layers.1.trans unsaved.layers
  gas := kept.trackers.trans unsaved.gas
  frames := kept.frames.trans unsaved.frames

private theorem callAt?_lt {machine : Machine} {depth : Nat} {record : CallRecord}
    (here : machine.callAt? depth = some record) : depth < machine.callDepth := by
  obtain ⟨within, -⟩ := List.getElem?_eq_some_iff.mp here
  rwa [List.length_reverse] at within

private theorem callAt?_joined (machine : Machine) (input : CallInput) (depth : Nat) :
    (machine.joined input).callAt? depth =
      if depth = machine.callDepth then some ⟨input.recipient, input.caller, input.kind, machine.callDepth⟩
      else machine.callAt? depth := by
  have length : machine.calls.reverse.length = machine.callDepth := List.length_reverse
  rw [callAt?, joined, List.reverse_cons]
  rcases Nat.lt_trichotomy depth machine.callDepth with below | rfl | above
  · rw [if_neg (Nat.ne_of_lt below), List.getElem?_append_left (length ▸ below), callAt?]
  · rw [if_pos rfl, ← length, List.getElem?_concat_length]
  · have absent : machine.calls.reverse[depth]? = none := List.getElem?_eq_none (length ▸ Nat.le_of_lt above)
    rw [if_neg (Nat.ne_of_gt above), callAt?, absent, List.getElem?_eq_none]
    rw [List.length_append, length]
    exact above

private theorem callAt?_head (machine : Machine) : machine.callAt? (machine.callDepth - 1) = machine.calls.head? := by
  rw [callAt?, callDepth, ← List.getLast?_reverse, List.getLast?_eq_getElem?, List.length_reverse]

namespace Chained

private theorem kept (kept : before.Kept after) (chained : before.Chained limit) : after.Chained limit := by
  have depth : after.callDepth = before.callDepth := congrArg List.length kept.calls
  have callAt? (depth : Nat) : after.callAt? depth = before.callAt? depth := by
    simp only [Machine.callAt?, kept.calls]
  refine ⟨?_, ?_, ?_, ?_, ?_, ?_, ?_, ?_, ?_, kept.closed chained.closed, ?_⟩
  · rw [depth]
    exact chained.running
  · rw [depth]
    exact chained.bounded
  · rw [depth, Stacked.depth, kept.scopes]
    exact chained.scopes
  · rw [depth, Stacked.depth, kept.layers.1]
    exact chained.layers
  · rw [depth, Stacked.depth, kept.trackers]
    exact chained.gas
  · rw [depth, Stacked.depth, kept.frames]
    exact chained.frames
  · intro depth record here
    rw [callAt?] at here
    exact chained.depth here
  · intro depth outer inner here next
    rw [callAt?] at here next
    exact chained.caller here next
  · rw [kept.calls, Machine.contract, kept.input]
    exact chained.contract
  · rw [kept.calls, kept.address]
    exact chained.storage

private theorem begun (machine : Machine) (input : CallInput) (room : 0 < limit) :
    ((machine.begin input).joined input).Chained limit := by
  have callAt? (depth : Nat) : ((machine.begin input).joined input).callAt? depth =
      if depth = 0 then some ⟨input.recipient, input.caller, input.kind, 0⟩ else none := callAt?_joined _ input depth
  refine ⟨Nat.one_pos, room, rfl, rfl, rfl, rfl, ?_, ?_, rfl, rfl, rfl⟩
  · intro depth record here
    rw [callAt?] at here
    split at here
    next outermost =>
      cases here
      exact outermost.symm
    next => cases here
  · intro depth outer inner _ next
    rw [callAt?] at next
    cases next

private theorem depth_joined (chained : before.Chained limit) (input : CallInput) {depth : Nat} {record : CallRecord}
    (here : (before.joined input).callAt? depth = some record) : record.depth = depth := by
  rw [callAt?_joined] at here
  split at here
  next last =>
    cases here
    exact last.symm
  next => exact chained.depth here

private theorem caller_joined (chained : before.Chained limit) {input : CallInput}
    (addressed : input.caller = before.contract)
    {depth : Nat} {outer inner : CallRecord} (here : (before.joined input).callAt? depth = some outer)
    (next : (before.joined input).callAt? (depth + 1) = some inner) : inner.caller = outer.address := by
  rw [callAt?_joined] at here next
  split at next
  next last =>
    have innermost : depth = before.callDepth - 1 := by omega
    rw [if_neg (by omega), innermost, callAt?_head] at here
    have contract := chained.contract
    rw [here] at contract
    cases next
    exact addressed.trans (Option.some.inj contract).symm
  next =>
    have within := callAt?_lt next
    rw [if_neg (by omega)] at here
    exact chained.caller here next

private theorem storage_joined (chained : before.Chained limit) {input : CallInput}
    (shared : input.kind = .sameContext) :
    ((before.joined input).calls.find? CallRecord.ownsStorage).map (·.address) = some before.storageAddress := by
  have nested : before.callDepth ≠ 0 := Nat.ne_of_gt chained.running
  have passes : CallRecord.ownsStorage ⟨input.recipient, input.caller, input.kind, before.callDepth⟩ = false := by
    simp [CallRecord.ownsStorage, nested, shared]
  rw [joined, List.find?_cons_of_neg (Bool.not_eq_true _ ▸ passes)]
  exact chained.storage

end Chained

end Machine

namespace Host

variable (host : Host environment)

private theorem callWithin_resumed (depthLeft : Nat) (context : Context) (input : CallInput)
    (world : World environment) :
    Leaves (host.callWithin depthLeft context input) world (fun after => world.machine.Resumed after.machine) := by
  rw [leaves_iff]
  have kept := (host.callWithin_kept depthLeft context input world).state
  have cases := (host.callWithin_cases depthLeft context input world).state
  generalize (outcome (host.callWithin depthLeft context input) world).2 = after at kept cases ⊢
  obtain ⟨scopes, frames, calls⟩ : after.machine.scopes = world.machine.scopes ∧
      after.machine.frames = world.machine.frames ∧ after.machine.calls = world.machine.calls := by
    rcases cases with ⟨spent, -⟩ | ⟨_, _, _, -, -, returned⟩
    · rw [spent.machine.rest]
      exact ⟨rfl, rfl, rfl⟩
    · rw [returned.machine]
      exact ⟨rfl, rfl, rfl⟩
  exact ⟨scopes, kept.layers.1, kept.trackers, frames, calls⟩

/-- A nested call of either kind, whatever its callee does and however it ends, leaves its caller the storage scope, the
frame, the chain and everything that was saved. A transaction ends with nothing saved and no call in the chain but its
own, and when it returns, the chain is empty as well. -/
theorem nested_call_restores_caller :
    (∀ depthLeft context input world,
      let after := (outcome (host.serve (host.callWithin depthLeft) (.call context input)) world).2
      world.machine.Resumed after.machine) ∧
    ∀ input world,
      let last := (host.ending input world).machine
      let after := (host.run input world).2.machine
      (last.Unsaved ∧ last.callDepth ≤ 1) ∧ after.Unsaved ∧ after.calls = [] := by
  refine ⟨fun depthLeft context input world => (host.callWithin_resumed depthLeft context input world).state, ?_⟩
  intro input world last after
  have settled : after = last.settle := congrArg World.machine (host.run_settles input world).1
  refine ⟨?_, ?_, ?_⟩
  · rcases host.ending_cases input world with refused | ⟨kept, -⟩
    · have same : last = world.machine.begin input := congrArg World.machine refused
      rw [same]
      exact ⟨⟨rfl, rfl, rfl, rfl⟩, Nat.zero_le _⟩
    · have joined : ((world.machine.begin input).joined input).Unsaved := ⟨rfl, rfl, rfl, rfl⟩
      exact ⟨joined.kept kept, Nat.le_of_eq (congrArg List.length kept.calls)⟩
  · rw [settled]
    exact ⟨rfl, rfl, rfl, rfl⟩
  · rw [settled]
    rfl

variable {host} {context : Context} {input : CallInput} {world : World environment}

/-- Entering a nested call makes the chain longer by a call that the running contract has made. -/
theorem entered_chained {limit : Nat} (room : world.machine.callDepth < limit)
    (chained : world.machine.Chained limit) : (host.entered context input world).machine.Chained limit := by
  have calls : (host.entered context input world).machine.calls =
      (world.machine.joined (addressed context input world)).calls := by
    cases context <;> rfl
  have callAt? (depth : Nat) : (host.entered context input world).machine.callAt? depth =
      (world.machine.joined (addressed context input world)).callAt? depth := by
    simp only [Machine.callAt?, calls]
  have depth : (host.entered context input world).machine.callDepth = world.machine.callDepth + 1 :=
    congrArg List.length calls
  have running := chained.running
  have deeper {saved : Nat} (matched : saved = world.machine.callDepth - 1) : saved + 1 = world.machine.callDepth := by
    omega
  refine ⟨?_, ?_, ?_, ?_, ?_, ?_, ?_, ?_, ?_, ?_, ?_⟩
  · rw [depth]
    exact Nat.succ_pos _
  · rw [depth]
    exact room
  · rw [depth]
    cases context <;> exact deeper chained.scopes
  · rw [depth]
    cases context <;> exact deeper chained.layers
  · rw [depth]
    cases context <;> exact deeper chained.gas
  · rw [depth]
    cases context <;> exact deeper chained.frames
  · intro depth record here
    rw [callAt?] at here
    exact chained.depth_joined _ here
  · intro depth outer inner here next
    rw [callAt?] at here next
    exact chained.caller_joined rfl here next
  · rw [calls]
    cases context <;> rfl
  · cases context <;> rfl
  · rw [calls]
    cases context with
    | same => exact chained.storage_joined rfl
    | destination =>
      have owns : CallRecord.ownsStorage
          ⟨input.recipient, world.machine.contract, .destinationContext, world.machine.callDepth⟩ = true :=
        Bool.or_true _
      exact congrArg (Option.map (·.address)) (List.find?_cons_of_pos owns)

/-- Wherever code runs, the chain is within its limit, each stack is one shorter than it, each call knows its depth and
was made by the contract beneath it, and the storage in scope is that of the innermost call that owns any. -/
theorem visits_chained {input : CallInput} {world : World environment} {moment : Moment environment}
    (visited : host.Visits input world moment) : moment.world.machine.Chained host.rules.maxCallDepth := by
  refine visited.induction (fun world => world.machine.Chained host.rules.maxCallDepth) ?_ ?_ ?_
  · exact Machine.Chained.begun _ input
  · exact fun _ _ => Machine.Chained.kept
  · exact fun _ _ _ _ => entered_chained

def relay : Program Environment.silent Unit :=
  .request (.call .destination { recipient := .second }) fun _ => .done ()

def answerBack : Program Environment.silent Unit :=
  .request (.call .same { caller := .ofLabel "stranger" }) fun _ => .done ()

def relaying : Host Environment.silent := scripted .zero relay answerBack

def relayed : World Environment.silent :=
  (outcome (relaying.descend .destination { recipient := .second }) (.begun 0)).2

def calledBack : Moment Environment.silent :=
  ⟨61, relay, (outcome (relaying.descend .same { caller := .ofLabel "stranger" }) relayed).2⟩

private theorem called_back_visited : relaying.Visits {} .scripted calledBack := by
  have opened : relaying.opening {} { World.scripted with machine := World.scripted.machine.begin {} } =
      .ok relay (.begun 0) := rfl
  have calls : Moment.Into relaying ⟨63, relay, .begun 0⟩ ⟨62, answerBack, relayed⟩ := .call rfl
  have back : Moment.Into relaying ⟨62, answerBack, relayed⟩ calledBack := .call rfl
  exact ⟨_, _, opened, .tail (.single (.inr calls)) (.inr back)⟩

theorem called_back_chained :
    calledBack.world.machine.callDepth = 3 ∧ calledBack.world.machine.contract = .zero ∧
      calledBack.world.machine.storageAddress = .second ∧ calledBack.world.machine.input.caller = .second ∧
      calledBack.world.machine.Chained 64 :=
  ⟨by decide +kernel, by decide +kernel, by decide +kernel, by decide +kernel, visits_chained called_back_visited⟩

end Host

end ContractHost
