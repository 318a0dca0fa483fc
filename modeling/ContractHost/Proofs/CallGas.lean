import ContractHost.Proofs.Moments

/-! Gas across the boundary of a call. What a caller sets aside for a callee is charged to one tracker, used on another
and given back as far as it is left. Nothing is made on the way: the gas that is left on all trackers together never
exceeds what the transaction was given, and what is given back never exceeds what was set aside. -/

namespace ContractHost

variable {environment : Environment}

namespace GasTracker

def Fits (tracker : GasTracker) : Prop := tracker.used.toNat ≤ tracker.limit.toNat

theorem gasLeft_exhausted (tracker : GasTracker) : tracker.exhausted.gasLeft = 0 := UInt64.sub_self _

private theorem Runs.gasLeft {before after : GasTracker} (runs : before.Runs after) (fits : before.Fits) :
    after.Fits ∧ after.gasLeft.toNat ≤ before.gasLeft.toNat := by
  obtain ⟨used, still⟩ := runs.used fits
  have limit := congrArg UInt64.toNat runs.limit
  refine ⟨still, ?_⟩
  rw [toNat_gasLeft fits, toNat_gasLeft still]
  omega

/-- Giving back what a callee has left is exact: no more than that was used before. -/
theorem gasLeft_absorb {reserved child : GasTracker} (fits : reserved.Fits) (within : child.Fits)
    (covered : child.limit.toNat ≤ reserved.used.toNat) :
    (reserved.absorb child).Fits ∧
      (reserved.absorb child).gasLeft.toNat = reserved.gasLeft.toNat + child.gasLeft.toNat ∧
      (reserved.restore child.gasLeft).used.toNat + child.gasLeft.toNat = reserved.used.toNat ∧
      (reserved.absorb child).freed.toNat = min (reserved.freed.toNat + child.freed.toNat) Gas.most := by
  obtain ⟨returned, used⟩ := toNat_absorb within covered
  have left := toNat_gasLeft fits
  have limit : (reserved.absorb child).limit = reserved.limit := rfl
  rw [Fits] at fits
  have still : (reserved.absorb child).used.toNat ≤ (reserved.absorb child).limit.toNat := by
    rw [used, limit]
    omega
  refine ⟨still, ?_, ?_, Gas.toNat_add _ _⟩
  · rw [toNat_gasLeft still, used, limit]
    omega
  · change (reserved.absorb child).used.toNat + _ = _
    omega

end GasTracker

namespace Machine

def trackers (machine : Machine) : List GasTracker := machine.gas.active :: machine.gas.saved

def liveGas (machine : Machine) : Nat := (machine.trackers.map (fun tracker => tracker.gasLeft.toNat)).sum

/-- No tracker has been used beyond its limit, and what is left has been provided. -/
structure Metered (provided : Nat) (machine : Machine) : Prop where
  fits : ∀ tracker ∈ machine.trackers, tracker.Fits
  within : machine.liveGas ≤ provided

variable {provided : Nat} {before after : Machine}

private theorem Metered.active (metered : before.Metered provided) : before.gas.active.Fits :=
  metered.fits _ List.mem_cons_self

private theorem Metered.kept (kept : before.Kept after) (metered : before.Metered provided) :
    after.Metered provided := by
  obtain ⟨fits, less⟩ := kept.gas.gasLeft metered.active
  have within := metered.within
  refine ⟨fun tracker member => ?_, ?_⟩
  · rw [trackers, kept.trackers] at member
    rcases List.mem_cons.mp member with rfl | saved
    · exact fits
    · exact metered.fits tracker (List.mem_cons_of_mem _ saved)
  · simp only [liveGas, trackers, kept.trackers, List.map_cons, List.sum_cons] at within ⊢
    omega

end Machine

namespace Host

variable (host : Host environment) {context : Context} {input : CallInput} {world : World environment}

private theorem toNat_gasLeft_reserved (covered : host.Covers context input world) :
    (host.reserved context input.gas world.machine.gas.active).Fits ∧
      (host.reserved context input.gas world.machine.gas.active).gasLeft.toNat +
          (host.rules.schedule.callCost context).toNat + input.gas.toNat =
        world.machine.gasLeft.toNat := by
  have used := host.toNat_reserved covered
  have limit : (host.reserved context input.gas world.machine.gas.active).limit = world.machine.gas.active.limit := rfl
  rw [Covers] at covered
  have fits : world.machine.gas.active.used.toNat ≤ world.machine.gas.active.limit.toNat := by omega
  have still : (host.reserved context input.gas world.machine.gas.active).Fits := by
    rw [GasTracker.Fits, used, limit]
    exact covered
  refine ⟨still, ?_⟩
  rw [Machine.gasLeft, GasTracker.toNat_gasLeft fits, GasTracker.toNat_gasLeft still, used, limit]
  omega

private theorem entered_metered {provided : Nat} (covered : host.Covers context input world)
    (metered : world.machine.Metered provided) : (host.entered context input world).machine.Metered provided := by
  obtain ⟨fits, paid⟩ := host.toNat_gasLeft_reserved covered
  have trackers : (host.entered context input world).machine.trackers =
      { limit := input.gas } :: host.reserved context input.gas world.machine.gas.active :: world.machine.gas.saved := by
    rw [Machine.trackers, entered_gas]
  have within := metered.within
  refine ⟨fun tracker member => ?_, ?_⟩
  · rw [trackers] at member
    rcases List.mem_cons.mp member with rfl | member
    · exact Nat.zero_le _
    · rcases List.mem_cons.mp member with rfl | saved
      · exact fits
      · exact metered.fits tracker (List.mem_cons_of_mem _ saved)
  · have handed : GasTracker.gasLeft { limit := input.gas } = input.gas := UInt64.sub_zero _
    rw [Machine.gasLeft] at paid
    simp only [Machine.liveGas, trackers, List.map_cons, List.sum_cons, handed] at within ⊢
    simp only [Machine.trackers, List.map_cons, List.sum_cons] at within
    omega

private theorem visits_metered {input : CallInput} {world : World environment} {moment : Moment environment}
    (visited : host.Visits input world moment) : moment.world.machine.Metered input.gas.toNat := by
  refine visited.induction (fun world => world.machine.Metered input.gas.toNat) (fun _ => ?_) ?_ ?_
  · have handed : GasTracker.gasLeft { limit := input.gas } = input.gas := UInt64.sub_zero _
    refine ⟨fun tracker member => ?_, ?_⟩
    · rw [List.mem_singleton.mp member]
      exact Nat.zero_le _
    · exact Nat.le_of_eq (congrArg UInt64.toNat handed)
  · exact fun _ _ => Machine.Metered.kept
  · exact fun _ _ _ covered _ => host.entered_metered covered

/-- How a nested call that has been paid for is answered before its final cost falls due, and the tracker of the
callee then: the chain refuses the call, or the callee ends. -/
def answered (depthLeft : Nat) (context : Context) (input : CallInput) (world : World environment) :
    Except Failure Unit × GasTracker :=
  if host.rules.maxCallDepth ≤ world.machine.callDepth then
    (.error (.callDepthExceeded world.machine.callDepth), { limit := input.gas })
  else
    let ended := outcome (callee (host.executeWithin depthLeft) (addressed context input world))
      (host.entered context input world)
    (ended.1, ended.2.machine.gas.active)

private theorem answered_into {depthLeft : Nat} {next : Except Failure Unit → Program environment Unit}
    {start : Moment environment}
    (step : Moment.Into host ⟨depthLeft, .request (.call context input) next, world⟩ start) :
    host.answered depthLeft context input world =
      ((start.ended host).1, (start.ended host).2.machine.gas.active) := by
  cases step with
  | call descends =>
    obtain ⟨-, room, staged⟩ := host.descend_iff.mp descends
    rw [answered, if_neg (Nat.not_le.mpr room), callee_staged, outcome_bind_of_ok staged]
    rfl

private theorem conclude_exact (answer : Except Failure Unit) (world : World environment)
    (fits : world.machine.gas.active.Fits) :
    let concluded := outcome (host.conclude answer) world
    let cost := host.rules.schedule.callFinalCost.toNat
    concluded.2.machine.gasFreed = world.machine.gasFreed ∧
      (cost ≤ world.machine.gasLeft.toNat →
        concluded.1 = answer ∧ concluded.2.machine.gasLeft.toNat = world.machine.gasLeft.toNat - cost) ∧
      (world.machine.gasLeft.toNat < cost →
        (∃ used limit, concluded.1 = .error (.outOfGas used limit)) ∧ concluded.2.machine.gasLeft = 0) := by
  intro concluded cost
  have left := GasTracker.toNat_gasLeft fits
  rw [GasTracker.Fits] at fits
  rw [Machine.gasLeft, left]
  rcases Nat.lt_or_ge world.machine.gas.active.limit.toNat (world.machine.gas.active.used.toNat + cost) with due | covered
  · obtain ⟨total, stopped⟩ := host.conclude_exceeded answer due
    refine ⟨?_, fun paid => by omega, fun _ => ⟨⟨total, _, congrArg Prod.fst stopped⟩, ?_⟩⟩
    · exact congrArg (·.2.machine.gasFreed) stopped
    · exact (congrArg (·.2.machine.gasLeft) stopped).trans (GasTracker.gasLeft_exhausted _)
  · have paid := host.conclude_covered answer covered
    have used := GasTracker.toNat_spend covered
    refine ⟨congrArg (·.2.machine.gasFreed) paid, fun _ => ⟨congrArg Prod.fst paid, ?_⟩, fun short => by omega⟩
    rw [show concluded = _ from paid]
    change (world.machine.gas.active.spend host.rules.schedule.callFinalCost).gasLeft.toNat = _
    have still : (world.machine.gas.active.spend host.rules.schedule.callFinalCost).used.toNat ≤
        (world.machine.gas.active.spend host.rules.schedule.callFinalCost).limit.toNat := by
      rw [used]
      exact covered
    have limit : (world.machine.gas.active.spend host.rules.schedule.callFinalCost).limit =
      world.machine.gas.active.limit := rfl
    rw [GasTracker.toNat_gasLeft still, used, limit]
    omega

/-- What a callee gives back: what it has left if it has succeeded, and otherwise nothing. -/
def gasReturned (answer : Except Failure Unit × GasTracker) : Nat := if answer.1.isOk then answer.2.gasLeft.toNat else 0

def gasEarned (answer : Except Failure Unit × GasTracker) : Nat := if answer.1.isOk then answer.2.freed.toNat else 0

/-- Settling two trackers leaves the caller with what was not set aside and what is given back. -/
theorem settled_gas {answer : Except Failure Unit × GasTracker} {reserved settled : GasTracker} (fits : reserved.Fits)
    (within : answer.2.Fits) (enough : answer.2.limit.toNat ≤ reserved.used.toNat)
    (settles : settled = if answer.1.isOk then reserved.absorb answer.2 else reserved) :
    settled.Fits ∧ gasReturned answer ≤ answer.2.limit.toNat ∧
      (reserved.restore answer.2.gasLeft).used.toNat + answer.2.gasLeft.toNat = reserved.used.toNat ∧
      settled.gasLeft.toNat = reserved.gasLeft.toNat + gasReturned answer ∧
      settled.freed.toNat = min (reserved.freed.toNat + gasEarned answer) Gas.most := by
  obtain ⟨absorbed, gained, restored, earned⟩ := GasTracker.gasLeft_absorb fits within enough
  have provided := GasTracker.toNat_gasLeft within
  rw [settles, gasReturned, gasEarned]
  cases answer.1.isOk with
  | true => exact ⟨absorbed, provided ▸ Nat.sub_le _ _, restored, gained, earned⟩
  | false =>
    have freed := reserved.freed.toNat_lt
    refine ⟨fits, Nat.zero_le _, restored, rfl, ?_⟩
    change reserved.freed.toNat = min (reserved.freed.toNat + 0) Gas.most
    rw [Gas.most, UInt64.size]
    omega

private theorem call_unpaid (depthLeft : Nat) (short : ¬host.Covers context input world) :
    ∃ total, outcome (host.callWithin depthLeft context input) world =
      (.error (.outOfGas total world.machine.gas.active.limit), world.setGas world.machine.gas.active.exhausted) := by
  rw [callWithin_eq]
  exact host.call_exceeded short

private theorem call_concluded (depthLeft : Nat) (covered : host.Covers context input world) :
    let answer := host.answered depthLeft context input world
    let reserved := host.reserved context input.gas world.machine.gas.active
    answer.2.limit = input.gas ∧ answer.2.Fits ∧
      ∃ settled : World environment,
        settled.machine.gas.active = (if answer.1.isOk then reserved.absorb answer.2 else reserved) ∧
        outcome (host.callWithin depthLeft context input) world = outcome (host.conclude answer.1) settled := by
  intro answer reserved
  rw [callWithin_eq]
  rcases Nat.lt_or_ge world.machine.callDepth host.rules.maxCallDepth with room | deep
  · obtain ⟨kept, called⟩ := host.call_entered (host.executeWithin_kept depthLeft) covered room
    have entered : answer = _ := if_neg (Nat.not_le.mpr room)
    obtain ⟨limit, fits⟩ := host.callee_gas kept
    rw [entered]
    exact ⟨limit, fits, _, rfl, called⟩
  · have refused : answer = _ := if_pos deep
    rw [refused]
    exact ⟨rfl, Nat.zero_le _, _, rfl, host.call_refused covered deep⟩

/-- Gas is neither made nor lost across the boundary of a call. -/
theorem calls_settle_gas (input : CallInput) (world : World environment) :
    (∀ moment, host.Visits input world moment → moment.world.machine.liveGas ≤ input.gas.toNat) ∧
    ∀ depthLeft context call next before,
      host.Visits input world ⟨depthLeft, .request (.call context call) next, before⟩ →
      let left := before.machine.gasLeft.toNat
      let cost := (host.rules.schedule.callCost context).toNat
      let final := host.rules.schedule.callFinalCost.toNat
      let called := outcome (host.serve (host.callWithin depthLeft) (.call context call)) before
      let gas := called.2.machine
      (left < cost + call.gas.toNat →
        (∃ used limit, called.1 = .error (.outOfGas used limit)) ∧ gas.gasLeft = 0 ∧
          gas.gasFreed = before.machine.gasFreed ∧
          ∀ start, ¬Moment.Into host ⟨depthLeft, .request (.call context call) next, before⟩ start) ∧
      (cost + call.gas.toNat ≤ left →
        let answer := host.answered depthLeft context call before
        let reserved := host.reserved context call.gas before.machine.gas.active
        let remaining := left - cost - call.gas.toNat + gasReturned answer
        gasReturned answer ≤ call.gas.toNat ∧
          (reserved.restore answer.2.gasLeft).used.toNat + answer.2.gasLeft.toNat = reserved.used.toNat ∧
          gas.gasFreed.toNat = min (before.machine.gasFreed.toNat + gasEarned answer) Gas.most ∧
          (final ≤ remaining → called.1 = answer.1 ∧ gas.gasLeft.toNat = remaining - final) ∧
          (remaining < final → (∃ used limit, called.1 = .error (.outOfGas used limit)) ∧ gas.gasLeft = 0) ∧
          ∀ start, Moment.Into host ⟨depthLeft, .request (.call context call) next, before⟩ start →
            answer = ((start.ended host).1, (start.ended host).2.machine.gas.active)) := by
  refine ⟨fun moment visited => (host.visits_metered visited).within, ?_⟩
  intro depthLeft context call next before visited
  have fits : before.machine.gas.active.Fits := (host.visits_metered visited).active
  have left : before.machine.gasLeft.toNat = _ := GasTracker.toNat_gasLeft fits
  rw [GasTracker.Fits] at fits
  dsimp only [serve]
  refine ⟨fun short => ?_, fun affordable => ?_⟩
  · have exceeds : ¬host.Covers context call before := by
      rw [Covers]
      omega
    obtain ⟨total, stopped⟩ := host.call_unpaid depthLeft exceeds
    rw [stopped]
    refine ⟨⟨total, _, rfl⟩, GasTracker.gasLeft_exhausted _, rfl, fun start entering => exceeds ?_⟩
    cases entering with
    | call descends => exact (host.descend_iff.mp descends).1
  · have covered : host.Covers context call before := by
      rw [Covers]
      omega
    obtain ⟨limit, within, settled, tracker, called⟩ := host.call_concluded depthLeft covered
    obtain ⟨still, paid⟩ := host.toNat_gasLeft_reserved covered
    have enough : (host.answered depthLeft context call before).2.limit.toNat ≤
        (host.reserved context call.gas before.machine.gas.active).used.toNat := by
      rw [limit, host.toNat_reserved covered]
      exact Nat.le_add_left _ _
    obtain ⟨ready, returned, restored, remaining, freed⟩ := settled_gas still within enough tracker
    have remains : settled.machine.gasLeft.toNat =
        before.machine.gasLeft.toNat - (host.rules.schedule.callCost context).toNat - call.gas.toNat +
          gasReturned (host.answered depthLeft context call before) := by
      rw [Machine.gasLeft, remaining]
      omega
    obtain ⟨same, covers, exceeds⟩ := host.conclude_exact (host.answered depthLeft context call before).1 settled ready
    rw [called, ← remains]
    exact ⟨limit ▸ returned, restored, (congrArg UInt64.toNat same).trans freed, covers, exceeds,
      fun start entering => host.answered_into entering⟩

def handed : CallInput := { recipient := .second, gas := 4 }

/-- Calls cost one unit and two more in the end, and the first contract hands four units to the second. -/
def handing : Host Environment.silent :=
  scripted { GasSchedule.zero with executeOnDestinationContext := 1, callFinalCost := 2 }
    (.request (.call .destination handed) (fun _ => .done ())) (.done ())

def handingOver : Moment Environment.silent :=
  ⟨63, .request (.call .destination handed) (fun _ => .done ()), .begun 10⟩

private theorem handing_visited : handing.Visits { gas := 10 } .scripted handingOver := by
  have opened : handing.opening { gas := 10 }
      { World.scripted with machine := World.scripted.machine.begin { gas := 10 } } =
      .ok handingOver.program (.begun 10) := rfl
  exact ⟨_, _, opened, .refl⟩

/-- Of ten units seven are left, as the callee gives all of its four back. -/
theorem handing_settles_gas :
    handingOver.world.machine.liveGas ≤ 10 ∧ gasReturned (handing.answered 63 .destination handed (.begun 10)) = 4 ∧
      (outcome (handing.serve (handing.callWithin 63) (.call .destination handed)) (.begun 10)).2.machine.gasLeft.toNat =
        7 := by
  obtain ⟨within, settles⟩ := calls_settle_gas handing { gas := 10 } .scripted
  obtain ⟨-, -, -, covers, -⟩ := (settles 63 .destination handed _ _ handing_visited).2 (by decide +kernel)
  obtain ⟨-, remaining⟩ := covers (by decide +kernel)
  exact ⟨within _ handing_visited, by decide +kernel, remaining.trans (by decide +kernel)⟩

end Host

end ContractHost
