import ContractHost.Proofs.CallGas
import Mathlib.Data.List.Forall2

/-! The meter under any use at all. Gas may be handed to a call that nobody set aside, more may be given back than was
used, and amounts may be as large as they can be: no tracker is used beyond its limit, so that what is left of it is
what has not been used. -/

namespace ContractHost

/-- One use of the meter. -/
inductive MeterStep where
  | begin (gas : UInt64)
  | charge (amount : UInt64)
  | free (amount : UInt64)
  | restore (amount : UInt64)
  | push (gas : UInt64)
  | merge
  | discard

namespace MeterStep

def run : MeterStep → Machine → Machine
  | begin gas, machine => machine.beginGas gas
  | charge amount, machine => (outcome (Action.charge amount) machine).2
  | free amount, machine => machine.setGas (machine.gas.active.free amount)
  | restore amount, machine => machine.setGas (machine.gas.active.restore amount)
  | push gas, machine => machine.pushGas gas
  | merge, machine => machine.mergeGas
  | discard, machine => machine.restoreGas

/-- The trackers there are go on; they are not thrown away for a new one. -/
def continues : MeterStep → Bool
  | begin _ => false
  | _ => true

def frees : MeterStep → Bool
  | free _ => true
  | _ => false

end MeterStep

namespace Machine

def meter (machine : Machine) (steps : List MeterStep) : Machine :=
  steps.foldl (fun current step => step.run current) machine

/-- The tracker of the call at this height; that of the outermost call has height zero. -/
def tracker? (machine : Machine) (height : Nat) : Option GasTracker := machine.trackers.reverse[height]?

/-- Throughout these steps the tracker at this height stays where it is. -/
def Keeps (height : Nat) : List MeterStep → Machine → Prop
  | [], _ => True
  | step :: steps, machine =>
    step.continues ∧ height < (step.run machine).trackers.length ∧ Keeps height steps (step.run machine)

end Machine

namespace GasTracker

/-- One tracker at two times. -/
structure Evolves (before after : GasTracker) : Prop where
  limit : after.limit = before.limit
  fits : before.Fits → after.Fits
  freed : before.freed ≤ after.freed

theorem Evolves.refl (tracker : GasTracker) : tracker.Evolves tracker where
  limit := rfl
  fits := id
  freed := UInt64.le_refl _

theorem Evolves.trans {before middle after : GasTracker} (first : before.Evolves middle)
    (second : middle.Evolves after) : before.Evolves after where
  limit := second.limit.trans first.limit
  fits := second.fits ∘ first.fits
  freed := UInt64.le_trans first.freed second.freed

private theorem Runs.evolves {before after : GasTracker} (runs : before.Runs after) : before.Evolves after where
  limit := runs.limit
  fits held := (runs.used held).2
  freed := runs.freed

private theorem evolves_restore (tracker : GasTracker) (amount : UInt64) :
    tracker.Evolves (tracker.restore amount) where
  limit := rfl
  fits held := by
    have used : (tracker.restore amount).used.toNat = tracker.used.toNat - amount.toNat := Gas.toNat_sub _ _
    apply Nat.le_trans (Nat.le_of_eq used)
    exact Nat.le_trans (Nat.sub_le _ _) held
  freed := UInt64.le_refl _

/-- However much the child has left, its parent is not used less than not at all. -/
theorem evolves_absorb (parent child : GasTracker) : parent.Evolves (parent.absorb child) := by
  apply (parent.evolves_restore child.gasLeft).trans
  exact (runs_free _ child.freed).evolves

/-- Two trackers that may differ in what has been freed. -/
structure Agrees (first second : GasTracker) : Prop where
  limit : first.limit = second.limit
  used : first.used = second.used

variable {first second : GasTracker}

theorem Agrees.refl (tracker : GasTracker) : tracker.Agrees tracker := ⟨rfl, rfl⟩

private theorem Agrees.gasLeft (agree : first.Agrees second) : first.gasLeft = second.gasLeft := by
  rw [GasTracker.gasLeft, GasTracker.gasLeft, agree.limit, agree.used]

private theorem Agrees.charge (agree : first.Agrees second) (amount : UInt64) :
    (first.charge amount).2.Agrees (second.charge amount).2 := by
  refine ⟨?_, ?_⟩
  · rw [limit_charge, limit_charge, agree.limit]
  · simp only [GasTracker.charge, agree.limit, agree.used]
    split <;> rfl

private theorem Agrees.restore (agree : first.Agrees second) (amount : UInt64) :
    (first.restore amount).Agrees (second.restore amount) where
  limit := agree.limit
  used := congrArg (Gas.sub · amount) agree.used

private theorem Agrees.absorb (agree : first.Agrees second) {child other : GasTracker} (children : child.Agrees other) :
    (first.absorb child).Agrees (second.absorb other) where
  limit := agree.limit
  used := by
    change (first.restore child.gasLeft).used = (second.restore other.gasLeft).used
    rw [children.gasLeft, (agree.restore _).used]

end GasTracker

/-- What a step does to the trackers, innermost first, if it does not begin anew. -/
inductive Turns : List GasTracker → List GasTracker → Prop where
  | work {before after : GasTracker} {outer : List GasTracker} (evolves : before.Evolves after) :
      Turns (before :: outer) (after :: outer)
  | enter {trackers : List GasTracker} (limit : UInt64) : Turns trackers ({ limit } :: trackers)
  | leave {child parent after : GasTracker} {outer : List GasTracker} (evolves : parent.Evolves after) :
      Turns (child :: parent :: outer) (after :: outer)

private theorem outcome_charge (amount : UInt64) (machine : Machine) :
    outcome (Action.charge amount) machine =
      ((machine.gas.active.charge amount).1, machine.setGas (machine.gas.active.charge amount).2) := by
  rw [outcome, Action.charge]
  rcases machine.gas.active.charge amount with ⟨_ | _, tracker⟩ <;> rfl

namespace MeterStep

private theorem turns {step : MeterStep} (continues : step.continues) (machine : Machine) :
    Turns machine.trackers (step.run machine).trackers := by
  cases step with
  | begin gas => cases continues
  | charge amount =>
    rw [run, outcome_charge]
    exact .work (GasTracker.runs_charge _ amount).evolves
  | free amount => exact .work (GasTracker.runs_free _ amount).evolves
  | restore amount => exact .work (GasTracker.evolves_restore _ amount)
  | push gas => exact .enter gas
  | merge =>
    rcases machine with ⟨_, _, ⟨active, _ | ⟨parent, outer⟩⟩, _, _⟩
    · exact .work (.refl active)
    · exact .leave (parent.evolves_absorb active)
  | discard =>
    rcases machine with ⟨_, _, ⟨active, _ | ⟨parent, outer⟩⟩, _, _⟩
    · exact .work (.refl active)
    · exact .leave (.refl parent)

end MeterStep

namespace Turns

variable {before after : List GasTracker}

private theorem fits (turns : Turns before after) (fits : ∀ tracker ∈ before, tracker.Fits) :
    ∀ tracker ∈ after, tracker.Fits := by
  cases turns with
  | work evolves =>
    obtain ⟨held, outer⟩ := List.forall_mem_cons.mp fits
    exact List.forall_mem_cons.mpr ⟨evolves.fits held, outer⟩
  | enter limit => exact List.forall_mem_cons.mpr ⟨Nat.zero_le _, fits⟩
  | leave evolves =>
    obtain ⟨held, outer⟩ := List.forall_mem_cons.mp (List.forall_mem_cons.mp fits).2
    exact List.forall_mem_cons.mpr ⟨evolves.fits held, outer⟩

private theorem innermost_evolves {old new : GasTracker} (outer : List GasTracker) (evolves : old.Evolves new)
    {height : Nat} {tracker : GasTracker} (found : (old :: outer).reverse[height]? = some tracker) :
    ∃ later, (new :: outer).reverse[height]? = some later ∧ tracker.Evolves later := by
  -- In reverse the innermost tracker comes last, with the places of all others before it.
  rw [List.reverse_cons] at found ⊢
  rcases Nat.lt_or_ge height outer.reverse.length with within | beyond
  · rw [List.getElem?_append_left within] at found ⊢
    exact ⟨tracker, found, .refl tracker⟩
  · rw [List.getElem?_append_right beyond, List.getElem?_singleton] at found ⊢
    split at found
    next top =>
      cases found
      exact ⟨new, if_pos top, evolves⟩
    next => cases found

/-- A tracker that is still there has its old place, counted from the outermost. -/
theorem evolves (turns : Turns before after) {height : Nat} (stays : height < after.length) {tracker : GasTracker}
    (found : before.reverse[height]? = some tracker) :
    ∃ later, after.reverse[height]? = some later ∧ tracker.Evolves later := by
  cases turns with
  | work evolves => exact innermost_evolves _ evolves found
  | enter limit =>
    obtain ⟨inside, -⟩ := List.getElem?_eq_some_iff.mp found
    refine ⟨tracker, ?_, .refl tracker⟩
    rw [List.reverse_cons, List.getElem?_append_left inside, found]
  | @leave child parent _ outer evolves =>
    have inside : height < (parent :: outer).reverse.length := by
      rw [List.length_reverse]
      exact stays
    rw [List.reverse_cons, List.getElem?_append_left inside] at found
    exact innermost_evolves outer evolves found

end Turns

namespace MeterStep

private theorem fits (step : MeterStep) {machine : Machine} (fits : ∀ tracker ∈ machine.trackers, tracker.Fits) :
    ∀ tracker ∈ (step.run machine).trackers, tracker.Fits := by
  cases continues : step.continues with
  | true => exact (turns continues machine).fits fits
  | false =>
    cases step with
    | begin gas => exact List.forall_mem_singleton.mpr (Nat.zero_le _)
    | _ => cases continues

/-- What is freed has no say in what a step makes of limits and of what is used. -/
theorem agree (step : MeterStep) {first second : Machine}
    (agree : List.Forall₂ GasTracker.Agrees first.trackers second.trackers) :
    List.Forall₂ GasTracker.Agrees (step.run first).trackers (step.run second).trackers := by
  rcases first with ⟨_, _, ⟨active, saved⟩, _, _⟩
  rcases second with ⟨_, _, ⟨other, others⟩, _, _⟩
  obtain ⟨inner, outer⟩ := List.forall₂_cons.mp agree
  cases step with
  | begin gas => exact .cons (.refl _) .nil
  | charge amount =>
    rw [run, run, outcome_charge, outcome_charge]
    exact .cons (inner.charge amount) outer
  | free amount => exact .cons ⟨inner.limit, inner.used⟩ outer
  | restore amount => exact .cons (inner.restore amount) outer
  | push gas => exact .cons (.refl _) agree
  | merge =>
    cases outer with
    | nil => exact agree
    | cons parents outer => exact .cons (parents.absorb inner) outer
  | discard =>
    cases outer with
    | nil => exact agree
    | cons parents outer => exact .cons parents outer

/-- Nor has a step that frees gas. -/
theorem agree_free {step : MeterStep} (frees : step.frees) {first second : Machine}
    (agree : List.Forall₂ GasTracker.Agrees first.trackers second.trackers) :
    List.Forall₂ GasTracker.Agrees (step.run first).trackers second.trackers := by
  rcases first with ⟨_, _, ⟨active, saved⟩, _, _⟩
  rcases second with ⟨_, _, ⟨other, others⟩, _, _⟩
  obtain ⟨inner, outer⟩ := List.forall₂_cons.mp agree
  cases step with
  | free amount => exact .cons ⟨inner.limit, inner.used⟩ outer
  | _ => cases frees

end MeterStep

namespace Machine

private theorem meter_fits (steps : List MeterStep) {machine : Machine}
    (fits : ∀ tracker ∈ machine.trackers, tracker.Fits) :
    ∀ tracker ∈ (machine.meter steps).trackers, tracker.Fits := by
  induction steps generalizing machine with
  | nil => exact fits
  | cons step steps ih => exact ih (step.fits fits)

private theorem meter_evolves {steps : List MeterStep} {height : Nat} {machine : Machine}
    (keeps : machine.Keeps height steps) {tracker : GasTracker} (found : machine.tracker? height = some tracker) :
    ∃ later, (machine.meter steps).tracker? height = some later ∧ tracker.Evolves later := by
  induction steps generalizing machine tracker with
  | nil => exact ⟨tracker, found, .refl tracker⟩
  | cons step steps ih =>
    obtain ⟨continues, stays, keeps⟩ := keeps
    obtain ⟨middle, there, first⟩ := (step.turns continues machine).evolves stays found
    obtain ⟨later, here, second⟩ := ih keeps there
    exact ⟨later, here, first.trans second⟩

private theorem meter_agree (steps : List MeterStep) {first second : Machine}
    (agree : List.Forall₂ GasTracker.Agrees first.trackers second.trackers) :
    List.Forall₂ GasTracker.Agrees (first.meter steps).trackers (second.meter (steps.filter (!·.frees))).trackers := by
  induction steps generalizing first second with
  | nil => exact agree
  | cons step steps ih =>
    cases frees : step.frees with
    | true =>
      -- Only the first machine takes this step.
      rw [List.filter_cons_of_neg (by simp [frees])]
      exact ih (step.agree_free frees agree)
    | false =>
      rw [List.filter_cons_of_pos (by simp [frees])]
      exact ih (step.agree agree)

private theorem gasLeft_meter (steps : List MeterStep) (machine : Machine) :
    (machine.meter steps).trackers.map GasTracker.gasLeft =
      (machine.meter (steps.filter (!·.frees))).trackers.map GasTracker.gasLeft := by
  have same : List.Forall₂ GasTracker.Agrees machine.trackers machine.trackers :=
    List.forall₂_same.mpr fun tracker _ => .refl tracker
  rw [← List.forall₂_eq_eq_eq, List.forall₂_map_left_iff, List.forall₂_map_right_iff]
  exact (meter_agree steps same).imp fun _ _ => GasTracker.Agrees.gasLeft

private theorem charge_exact {machine : Machine} (fits : machine.gas.active.Fits) (amount : UInt64) :
    let charged := outcome (Action.charge amount) machine
    (charged.1 = .ok () ↔ amount ≤ machine.gasLeft) ∧
      (amount ≤ machine.gasLeft → charged.2.gasLeft.toNat + amount.toNat = machine.gasLeft.toNat) ∧
      (machine.gasLeft < amount → charged.2.gasLeft = 0 ∧ charged.1 = .error (.outOfGas
        (Gas.capped (machine.gas.active.used.toNat + amount.toNat)) machine.gas.active.limit)) := by
  intro charged
  have left : machine.gasLeft.toNat = machine.gas.active.limit.toNat - machine.gas.active.used.toNat :=
    GasTracker.toNat_gasLeft fits
  have known : charged = _ := outcome_charge amount machine
  rw [UInt64.le_iff_toNat_le, UInt64.lt_iff_toNat_lt, left]
  rw [GasTracker.Fits] at fits
  rcases Nat.lt_or_ge machine.gas.active.limit.toNat (machine.gas.active.used.toNat + amount.toNat) with
    exceeded | covered
  · rw [GasTracker.charge_exceeded exceeded] at known
    rw [known]
    refine ⟨⟨fun paid => ?_, fun paid => by omega⟩, fun paid => by omega, fun _ => ⟨?_, rfl⟩⟩
    · cases paid
    · exact GasTracker.gasLeft_exhausted _
  · rw [GasTracker.charge_covered covered] at known
    rw [known]
    refine ⟨⟨fun _ => by omega, fun _ => rfl⟩, fun _ => ?_, fun short => by omega⟩
    have used := GasTracker.toNat_spend covered
    have still : (machine.gas.active.spend amount).Fits := by
      rw [GasTracker.Fits, used]
      exact covered
    change (machine.gas.active.spend amount).gasLeft.toNat + _ = _
    rw [GasTracker.toNat_gasLeft still, used]
    change machine.gas.active.limit.toNat - _ + _ = _
    omega

/-- After any use of the meter no tracker is overdrawn, charges are exact and the rest is what they were. -/
theorem meters_sound (machine : Machine) (gas : UInt64) (steps : List MeterStep) :
    let metered := (machine.beginGas gas).meter steps
    (∀ tracker ∈ metered.trackers, tracker.used ≤ tracker.limit ∧
      tracker.gasLeft.toNat = tracker.limit.toNat - tracker.used.toNat) ∧
    (∀ amount,
      let charged := outcome (Action.charge amount) metered
      (charged.1 = .ok () ↔ amount ≤ metered.gasLeft) ∧
      (amount ≤ metered.gasLeft → charged.2.gasLeft.toNat + amount.toNat = metered.gasLeft.toNat) ∧
      (metered.gasLeft < amount → charged.2.gasLeft = 0 ∧ charged.1 = .error (.outOfGas
        (Gas.capped (metered.gas.active.used.toNat + amount.toNat)) metered.gas.active.limit))) ∧
    (∀ height tracker further, metered.tracker? height = some tracker → metered.Keeps height further →
      ∃ later, (metered.meter further).tracker? height = some later ∧ later.limit = tracker.limit ∧
        tracker.freed ≤ later.freed) ∧
    ∀ others : List MeterStep, others.filter (!·.frees) = steps.filter (!·.frees) →
      ((machine.beginGas gas).meter others).trackers.map GasTracker.gasLeft =
        metered.trackers.map GasTracker.gasLeft := by
  intro metered
  have fits : ∀ tracker ∈ metered.trackers, tracker.Fits :=
    meter_fits steps (List.forall_mem_singleton.mpr (Nat.zero_le _))
  refine ⟨fun tracker member => ?_, charge_exact (fits _ List.mem_cons_self), ?_, ?_⟩
  · exact ⟨UInt64.le_iff_toNat_le.mpr (fits tracker member), GasTracker.toNat_gasLeft (fits tracker member)⟩
  · intro height tracker further found keeps
    obtain ⟨later, here, evolves⟩ := meter_evolves keeps found
    exact ⟨later, here, evolves.limit, evolves.freed⟩
  · intro others same
    rw [gasLeft_meter others, gasLeft_meter steps, same]

/-- A call is handed far more gas than its caller has charged, and the caller gets no more back than it has used. -/
theorem overfed_meter :
    let fed := [MeterStep.charge 4, .push 100, .free 3, .merge]
    let metered := (({} : Machine).beginGas 10).meter fed
    metered.gas.active = { limit := 10, freed := 3 } ∧
      (outcome (Action.charge 9) metered).2.gasLeft.toNat + UInt64.toNat 9 = metered.gasLeft.toNat ∧
      (outcome (Action.charge 11) metered).1 = .error (.outOfGas 11 10) ∧
      (∃ later, (metered.meter fed).tracker? 0 = some later ∧ later.limit = 10 ∧ 3 ≤ later.freed) ∧
      ((({} : Machine).beginGas 10).meter [.charge 4, .push 100, .merge]).trackers.map GasTracker.gasLeft =
        metered.trackers.map GasTracker.gasLeft := by
  intro fed metered
  obtain ⟨-, charges, stays, unfreed⟩ := meters_sound {} 10 fed
  obtain ⟨-, paid, -⟩ := charges 9
  obtain ⟨-, -, refused⟩ := charges 11
  refine ⟨by decide, paid (by decide), (refused (by decide)).2, ?_, unfreed [.charge 4, .push 100, .merge] rfl⟩
  apply stays 0 { limit := 10, freed := 3 } fed rfl
  exact ⟨rfl, by decide, rfl, by decide, rfl, by decide, rfl, by decide, trivial⟩

end Machine

end ContractHost
