import ContractHost.Proofs.Accumulator

/-! The layers seen as one accumulator. Folding the visible layers together gives one output, and doing so as of
each open frame gives a snapshot. Opening a frame of either kind copies the accumulator, reverting goes back to
the snapshot, and merging or keeping drops it. -/

namespace ContractHost.Layers

/-- Outputs folded into one, those that come later in the list being earlier in time. -/
def fold (outputs : List Output) : Output := outputs.foldr (fun output earlier => earlier.merge output) {}

def flatten (layers : Layers) : Output := fold layers.visible

/-- What each saved layer showed when it was left, latest first. -/
def snapshots : List Layer → List Output
  | [] => []
  | latest :: older => flatten ⟨latest, older⟩ :: snapshots older

def accumulated (layers : Layers) : Stacked Output := ⟨layers.flatten, snapshots layers.saved⟩

@[simp] theorem fold_cons (output : Output) (outputs : List Output) :
    fold (output :: outputs) = (fold outputs).merge output := rfl

private theorem written?_fold (outputs : List Output) (address : Address) (key : Bytes) :
    (fold outputs).written? address key = outputs.findSome? (fun output => output.written? address key) := by
  induction outputs with
  | nil => rfl
  | cons output outputs ih =>
    rw [fold_cons, Output.written?_merge, ih, List.findSome?_cons]
    cases output.written? address key <;> rfl

theorem written?_eq (layers : Layers) (address : Address) (key : Bytes) :
    layers.written? address key = layers.flatten.written? address key :=
  (written?_fold layers.visible address key).symm

theorem updates_eq (layers : Layers) (address : Address) :
    layers.updates address = layers.flatten.updates address := by
  have folded : ∀ outputs : List Output,
      outputs.reverse.foldl
        (fun collected output => collected.union (fun _ later => later) (updatesIn output address)) .empty =
        (fold outputs).updates address := by
    intro outputs
    rw [List.foldl_reverse]
    induction outputs with
    | nil => rfl
    | cons output outputs ih =>
      rw [List.foldr_cons, ih, fold_cons, Output.updates_merge]
      rfl
  exact folded layers.visible

theorem knownBalance_eq (layers : Layers) (address : Address) :
    layers.knownBalance address = layers.flatten.knownBalance address := by
  have folded : ∀ outputs : List Output,
      outputs.findSome? (fun output => (output.account? address).bind (·.balance)) =
        (fold outputs).knownBalance address := by
    intro outputs
    induction outputs with
    | nil => rfl
    | cons output outputs ih =>
      rw [fold_cons, Output.knownBalance_merge, List.findSome?_cons, ih]
      simp only [Output.knownBalance]
      cases (output.account? address).bind (·.balance) <;> rfl
  exact folded layers.visible

theorem balanceDelta_eq (layers : Layers) (address : Address) :
    layers.balanceDelta address = layers.flatten.balanceDelta address := by
  have folded : ∀ outputs : List Output,
      outputs.foldr (fun output total => ((output.account? address).map (·.balanceDelta)).getD 0 + total) 0 =
        (fold outputs).balanceDelta address := by
    intro outputs
    induction outputs with
    | nil => rfl
    | cons output outputs ih =>
      rw [List.foldr_cons, ih, fold_cons, Output.balanceDelta_merge]
      rfl
  exact folded layers.visible

theorem available_eq (layers : Layers) (address : Address) :
    layers.available address = layers.flatten.available address := by
  rw [available, knownBalance_eq, balanceDelta_eq]
  rfl

theorem flatten_modifyOutput {change : Output → Output} (trailing : Output.Trailing change) (layers : Layers) :
    (layers.modifyOutput change).flatten = change layers.flatten :=
  trailing (fold (beneath layers.active.isolated layers.saved)) layers.output

theorem flatten_modifyAccount {change : AccountChange → AccountChange} (trailing : AccountChange.Trailing change)
    (layers : Layers) (address : Address) :
    (layers.modifyAccount address change).flatten = layers.flatten.modifyAccount address change :=
  flatten_modifyOutput (Output.trailing_modifyAccount address trailing) layers

theorem flatten_continued (layers : Layers) : layers.continued.flatten = layers.flatten := rfl

theorem flatten_isolated (layers : Layers) : layers.continued.isolate.flatten = layers.flatten :=
  Output.merge_empty layers.flatten

theorem accumulated_continued (layers : Layers) : layers.continued.accumulated = layers.accumulated.push id := rfl

theorem accumulated_isolated (layers : Layers) :
    layers.continued.isolate.accumulated = layers.accumulated.push id := by
  simp only [accumulated, Stacked.push, flatten_isolated, id]
  rfl

theorem accumulated_revert (layers : Layers) : layers.revert.accumulated = layers.accumulated.restore := by
  obtain ⟨active, saved⟩ := layers
  cases saved <;> rfl

theorem flatten_merge (layers : Layers) : layers.merge.flatten = layers.flatten := by
  obtain ⟨active, saved⟩ := layers
  cases saved with
  | nil => rfl
  | cons latest older =>
    cases isolated : active.isolated with
    | false => simp only [flatten, visible, merge, Stacked.restoreWith, isolated, beneath, fold_cons]; rfl
    | true =>
      simp only [flatten, visible, merge, Stacked.restoreWith, isolated, beneath, if_true, fold_cons,
        Output.merge_assoc]

theorem accumulated_merge (layers : Layers) : layers.merge.accumulated = layers.accumulated.forget := by
  have flat := flatten_merge layers
  obtain ⟨active, saved⟩ := layers
  cases saved with
  | nil => rfl
  | cons latest older => simp only [accumulated, flat]; rfl

/-- Keeping a layer is right only for one that continues the layer beneath: an isolated one would lose it. -/
theorem flatten_keep (layers : Layers) (continues : layers.active.isolated = false) :
    layers.keep.flatten = layers.flatten := by
  obtain ⟨⟨output, isolated⟩, saved⟩ := layers
  cases continues
  cases saved with
  | nil => rfl
  | cons latest older => simp only [flatten, visible, keep, beneath, Bool.false_or]; rfl

theorem accumulated_keep (layers : Layers) (continues : layers.active.isolated = false) :
    layers.keep.accumulated = layers.accumulated.forget := by
  have flat := flatten_keep layers continues
  obtain ⟨active, saved⟩ := layers
  cases saved with
  | nil => rfl
  | cons latest older => simp only [accumulated, flat]; rfl

end ContractHost.Layers
