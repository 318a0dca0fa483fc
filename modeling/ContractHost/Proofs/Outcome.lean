import ContractHost.Machine

/-! Assertions about actions that keep their state when they fail. What is asserted of an action says both how it
may return and how it may fail, and goes from one step to the next along a sequence. -/

namespace ContractHost

variable {σ α β : Type}

/-- The result of an action and the state that it leaves. -/
def outcome (action : EStateM Failure σ α) (state : σ) : Except Failure α × σ :=
  match action state with
  | .ok value after => (.ok value, after)
  | .error failure after => (.error failure, after)

/-- Run from `before`, the action either returns as asserted or fails as asserted. -/
def Ensures (action : EStateM Failure σ α) (before : σ) (returns : α → σ → Prop) (fails : Failure → σ → Prop) : Prop :=
  match action before with
  | .ok value after => returns value after
  | .error failure after => fails failure after

/-- Run from `before`, the action leaves a state as asserted, however it ends. -/
abbrev Leaves (action : EStateM Failure σ α) (before : σ) (holds : σ → Prop) : Prop :=
  Ensures action before (fun _ => holds) (fun _ => holds)

theorem bind_of_ok {action : EStateM Failure σ α} {next : α → EStateM Failure σ β} {state after : σ} {value : α}
    (run : action state = .ok value after) : (action >>= next) state = next value after := by
  simp only [Bind.bind, EStateM.bind, run]

theorem bind_of_error {action : EStateM Failure σ α} {next : α → EStateM Failure σ β} {state after : σ}
    {failure : Failure} (run : action state = .error failure after) : (action >>= next) state = .error failure after := by
  simp only [Bind.bind, EStateM.bind, run]

theorem outcome_eq_ok {action : EStateM Failure σ α} {state after : σ} {value : α} :
    outcome action state = (.ok value, after) ↔ action state = .ok value after := by
  rw [outcome]
  cases action state <;> simp

theorem outcome_eq_error {action : EStateM Failure σ α} {state after : σ} {failure : Failure} :
    outcome action state = (.error failure, after) ↔ action state = .error failure after := by
  rw [outcome]
  cases action state <;> simp

theorem outcome_bind_of_ok {action : EStateM Failure σ α} {next : α → EStateM Failure σ β} {state after : σ} {value : α}
    (run : action state = .ok value after) : outcome (action >>= next) state = outcome (next value) after := by
  rw [outcome, bind_of_ok run]
  rfl

theorem outcome_bind_of_error {action : EStateM Failure σ α} {next : α → EStateM Failure σ β} {state after : σ}
    {failure : Failure} (run : action state = .error failure after) :
    outcome (action >>= next) state = (.error failure, after) := by
  rw [outcome, bind_of_error run]

namespace Ensures

variable {action : EStateM Failure σ α} {before : σ} {returns : α → σ → Prop} {fails : Failure → σ → Prop}

theorem bind {next : α → EStateM Failure σ β} {middle : α → σ → Prop} {returns : β → σ → Prop}
    (first : Ensures action before middle fails)
    (rest : ∀ value after, middle value after → Ensures (next value) after returns fails) :
    Ensures (action >>= next) before returns fails := by
  simp only [Ensures, Bind.bind, EStateM.bind] at first rest ⊢
  cases run : action before with
  | ok value after =>
    rw [run] at first
    exact rest value after first
  | error failure after =>
    rw [run] at first
    exact first

theorem pure (value : α) (holds : returns value before) :
    Ensures (Pure.pure value) before returns fails :=
  holds

theorem throw (failure : Failure) (holds : fails failure before) :
    Ensures (MonadExcept.throw failure : EStateM Failure σ α) before returns fails :=
  holds

/-- An action that looks at its state first is followed from there. -/
theorem bind_get {next : σ → EStateM Failure σ β} {returns : β → σ → Prop}
    (rest : Ensures (next before) before returns fails) : Ensures (MonadState.get >>= next) before returns fails :=
  rest

theorem modify {change : σ → σ} :
    Ensures (modifyGet (fun state => (⟨⟩, change state)) : EStateM Failure σ PUnit) before
      (fun _ after => after = change before) fails :=
  rfl

theorem weaken {middle : α → σ → Prop} {failing : Failure → σ → Prop} (ensured : Ensures action before middle failing)
    (returning : ∀ value after, middle value after → returns value after)
    (thrown : ∀ failure after, failing failure after → fails failure after) :
    Ensures action before returns fails := by
  simp only [Ensures] at ensured ⊢
  cases run : action before with
  | ok value after => rw [run] at ensured; exact returning value after ensured
  | error failure after => rw [run] at ensured; exact thrown failure after ensured

theorem anyway (action : EStateM Failure σ α) (before : σ) :
    Ensures action before (fun _ _ => True) (fun _ _ => True) := by
  simp only [Ensures]
  split <;> trivial

theorem ite {condition : Prop} [Decidable condition] {first second : EStateM Failure σ α}
    (positive : condition → Ensures first before returns fails)
    (negative : ¬condition → Ensures second before returns fails) :
    Ensures (if condition then first else second) before returns fails := by
  split
  next holds => exact positive holds
  next fails => exact negative fails

theorem of_error {failure : Failure} {after : σ} (ensured : Ensures action before returns fails)
    (run : action before = .error failure after) : fails failure after := by
  simpa only [Ensures, run] using ensured

theorem of_ok {value : α} {after : σ} (ensured : Ensures action before returns fails)
    (run : action before = .ok value after) : returns value after := by
  simpa only [Ensures, run] using ensured

/-- What is asserted of a return may be used together with the run that returned. -/
theorem running (ensured : Ensures action before returns fails) :
    Ensures action before (fun value after => action before = .ok value after ∧ returns value after) fails := by
  simp only [Ensures] at ensured ⊢
  cases run : action before with
  | ok value after => rw [run] at ensured; exact ⟨rfl, ensured⟩
  | error failure after => rw [run] at ensured; exact ensured

end Ensures

theorem leaves_iff {action : EStateM Failure σ α} {before : σ} {holds : σ → Prop} :
    Leaves action before holds ↔ holds (outcome action before).2 := by
  simp only [Leaves, Ensures, outcome]
  cases action before <;> rfl

namespace Leaves

variable {action : EStateM Failure σ α} {before : σ} {middle holds : σ → Prop}

theorem weaken (left : Leaves action before middle) (wider : ∀ after, middle after → holds after) :
    Leaves action before holds :=
  Ensures.weaken left (fun _ => wider) (fun _ => wider)

theorem bind {next : α → EStateM Failure σ β} (first : Leaves action before middle)
    (stops : ∀ after, middle after → holds after)
    (rest : ∀ value after, middle after → Leaves (next value) after holds) : Leaves (action >>= next) before holds :=
  Ensures.bind (Ensures.weaken first (fun _ _ => id) (fun _ => stops)) rest

/-- Where it is known which state is left, the assertion need only be made of that one. -/
theorem reaching {after : σ} (left : Leaves action before (· = after)) (there : holds after) :
    Leaves action before holds := by
  refine left.weaken ?_
  intro other same
  rw [same]
  exact there

theorem bind_reaching {next : α → EStateM Failure σ β} {after : σ} (first : Leaves action before (· = after))
    (stops : holds after) (rest : ∀ value, Leaves (next value) after holds) : Leaves (action >>= next) before holds := by
  refine bind first ?_ ?_
  · intro other same
    rw [same]
    exact stops
  · intro value other same
    rw [same]
    exact rest value

theorem returning (left : Leaves action before holds) : Ensures action before (fun _ => holds) (fun _ _ => True) :=
  Ensures.weaken left (fun _ _ => id) (fun _ _ _ => trivial)

theorem state (left : Leaves action before holds) : holds (outcome action before).2 :=
  leaves_iff.mp left

end Leaves

end ContractHost
