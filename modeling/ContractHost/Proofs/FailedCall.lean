import ContractHost.Proofs.NestedCall

/-! A nested call that is reported as failed. Nothing of it is left in the caller's output, with one exception: the
final cost of a call falls due when the frame of its callee is already closed, so a callee that succeeded stays
merged where that cost cannot be paid. -/

namespace ContractHost

variable {environment : Environment}

namespace Host

/-- The callee has succeeded, and the gas that is left does not cover the final cost of the call. -/
def Overdrawn (host : Host environment) (depthLeft : Nat) (context : Context) (input : CallInput)
    (world returned : World environment) : Prop :=
  ∃ reserved, host.reserve context input.gas world = .ok () reserved ∧
    host.runAdmitted (host.executeWithin depthLeft) context (addressed context input world) reserved =
      .ok (.ok ()) returned ∧
    returned.machine.gas.active.limit.toNat <
      returned.machine.gas.active.used.toNat + host.rules.schedule.callFinalCost.toNat

private theorem conclude_overdrawn (host : Host environment) (answer : Except Failure Unit) (world : World environment)
    (due : world.machine.gas.active.limit.toNat <
      world.machine.gas.active.used.toNat + host.rules.schedule.callFinalCost.toNat) :
    ∃ failure after, host.conclude answer world = .error failure after := by
  obtain ⟨total, stopped⟩ := host.conclude_exceeded answer due
  exact ⟨_, _, outcome_eq_error.mp stopped⟩

private theorem conclude_affordable (host : Host environment) (world : World environment)
    (covered : world.machine.gas.active.used.toNat + host.rules.schedule.callFinalCost.toNat ≤
      world.machine.gas.active.limit.toNat) :
    ∃ after, host.conclude (.ok ()) world = .ok () after :=
  ⟨_, outcome_eq_ok.mp (host.conclude_covered (.ok ()) covered)⟩

/-- A nested call that fails leaves every layer of the output as it was, unless the callee succeeded and the final
cost could not be paid. Then the call fails as well, and what the callee did is kept. -/
theorem failed_call_keeps_layers (host : Host environment) (depthLeft : Nat) (context : Context) (input : CallInput)
    (world : World environment) :
    (∀ failure after, host.serve (host.callWithin depthLeft) (.call context input) world = .error failure after →
      (¬∃ returned, host.Overdrawn depthLeft context input world returned) →
      after.machine.layers = world.machine.layers) ∧
    (∀ returned, host.Overdrawn depthLeft context input world returned →
      ∃ failure after, host.serve (host.callWithin depthLeft) (.call context input) world = .error failure after ∧
        after.machine.layers = returned.machine.layers) := by
  simp only [serve, callWithin_eq, call_apply]
  refine ⟨fun failure after failed spared => ?_, ?_⟩
  · simp only [Bind.bind, EStateM.bind] at failed
    cases paid : host.reserve context input.gas world with
    | error unpaid stopped =>
      rw [paid] at failed
      cases failed
      exact ((host.reserve_leaves _ _ _).of_error paid).2
    | ok _ reserved =>
      rw [paid] at failed
      have reserving := (host.reserve_leaves _ _ _).of_ok paid
      have answered := host.runAdmitted_ensures (host.executeWithin_framed depthLeft) context
        (addressed context input world) reserved
      cases ran : host.runAdmitted (host.executeWithin depthLeft) context (addressed context input world) reserved with
      | error _ _ => exact (answered.of_error ran).elim
      | ok answer returned =>
        simp only [ran] at failed
        have concluded := (host.conclude_leaves answer returned).of_error failed
        obtain ⟨-, restored⟩ := answered.of_ok ran
        cases answer with
        | error cause => exact concluded.2.trans ((restored (by simp)).trans reserving.2)
        | ok _ =>
          rcases Nat.lt_or_ge returned.machine.gas.active.limit.toNat
              (returned.machine.gas.active.used.toNat + host.rules.schedule.callFinalCost.toNat) with due | covered
          · exact absurd ⟨returned, reserved, paid, ran, due⟩ spared
          · obtain ⟨_, paid_off⟩ := host.conclude_affordable returned covered
            rw [paid_off] at failed
            cases failed
  · intro returned overdrawn
    obtain ⟨reserved, paid, succeeded, due⟩ := overdrawn
    obtain ⟨failure, after, failed⟩ := host.conclude_overdrawn (.ok ()) returned due
    refine ⟨failure, after, ?_, ((host.conclude_leaves _ returned).of_error failed).2⟩
    simp only [Bind.bind, EStateM.bind, paid, succeeded, failed]

def writing : Host Environment.silent where
  rules :=
    { config := { schedule := ⟨0, 0, 0, 0, 0, 0, 0, 0, 0, 0, 0, 0, 0, 20⟩ }
      spaces := ⟨[1], [2], List.cons_ne_nil _ _, List.cons_ne_nil _ _⟩ }
  gate := ⟨[]⟩
  builder := fun _ => .ok
    { interface := { hasMemory := true, exports := [], signature? := fun _ => none }
      body? := fun _ => some (.request (.store [7] [8]) (fun _ => .done ())) }

def deployed : World Environment.silent where
  ledger := Ledger.addContract {} .zero [1] {}
  memory := ()

def started : World Environment.silent :=
  { deployed with
    machine := { deployed.machine.begin { gas := 10 } with calls := [⟨.zero, .zero, .direct, 0⟩] } }

def spoiling : Host Environment.silent :=
  { writing with
    builder := fun _ => .ok
      { interface := { hasMemory := true, exports := [], signature? := fun _ => none }
        body? := fun _ => some (.request (.store [7] [8]) fun _ => .fail .contractInvalid) } }

theorem spoilt_call_keeps_layers :
    ∃ body inside failure after, spoiling.descend .destination {} started = .ok body inside ∧
      (outcome (body.run (spoiling.serve (spoiling.callWithin 0))) inside).2.machine.layers.written? .zero [7] =
        some [8] ∧
      spoiling.serve (spoiling.callWithin 1) (.call .destination {}) started = .error failure after ∧
      after.machine.layers = started.machine.layers := by
  have callee_fails : (outcome (spoiling.runAdmitted (spoiling.executeWithin 1) .destination
      (addressed .destination {} started)) (outcome (spoiling.reserve .destination 0) started).2).1.toOption.any
        (·.isOk) = false := by decide +kernel
  have spared : ¬∃ returned, spoiling.Overdrawn 1 .destination {} started returned := by
    rintro ⟨returned, reserved, paid, succeeded, -⟩
    rw [outcome_eq_ok.mpr paid, outcome_eq_ok.mpr succeeded] at callee_fails
    cases callee_fails
  have failed : (outcome (spoiling.serve (spoiling.callWithin 1) (.call .destination {})) started).1.isOk = false := by
    decide +kernel
  cases ran : spoiling.serve (spoiling.callWithin 1) (.call .destination {}) started with
  | ok _ after =>
    rw [outcome_eq_ok.mpr ran] at failed
    cases failed
  | error failure after =>
    refine ⟨_, _, failure, after, rfl, by decide +kernel, rfl, ?_⟩
    exact (failed_call_keeps_layers spoiling 1 .destination {} started).1 failure after ran spared

/-- A call whose callee writes a cell fails for want of the final cost, and the cell stays written. -/
theorem failed_call_keeps_a_write :
    ¬∀ failure after, writing.serve (writing.callWithin 1) (.call .destination {}) started = .error failure after →
      after.machine.layers = started.machine.layers := by
  intro unchanged
  have failed : (outcome (writing.serve (writing.callWithin 1) (.call .destination {})) started).1.isOk = false := by
    decide +kernel
  have written : (outcome (writing.serve (writing.callWithin 1) (.call .destination {})) started).2.machine.layers.written?
      .zero [7] = some [8] := by decide +kernel
  cases ran : writing.serve (writing.callWithin 1) (.call .destination {}) started with
  | ok _ after =>
    rw [outcome, ran] at failed
    cases failed
  | error failure after =>
    rw [outcome, ran] at written
    simp only [unchanged failure after ran] at written
    cases written

end Host

end ContractHost
