import ContractHost.Proofs.LayerView

/-! Layers against one flat accumulator. The accumulator copies itself when a frame opens, goes back to the copy
when the frame is reverted, and drops it when the frame is committed; whether a frame is isolated makes no
difference to it. Whatever the frames are and however they are closed, the layers answer as it does. -/

namespace ContractHost

inductive Effect where
  | touch (address : Address)
  | write (address : Address) (key data : Bytes)
  | count (address : Address) (added deleted : UInt64)
  | note (address : Address) (balance : Int)
  | transfer (sender receiver : Address) (value : Nat)
  | finish (data : Bytes)
  | log (entry : LogEntry)

inductive FrameStep where
  | effect (effect : Effect)
  | enter (isolated : Bool)
  | revert
  | merge
  | keep

/-- The frames that are open after a step, innermost first, each with whether it is isolated. No step closes a
frame that is not there, and an isolated one is not kept. -/
def FrameStep.frames? (frames : List Bool) : FrameStep → Option (List Bool)
  | .effect _ => some frames
  | .enter isolated => some (isolated :: frames)
  | .revert | .merge => frames.tail?
  | .keep =>
    match frames with
    | false :: outer => some outer
    | _ => none

def openFrames? (steps : List FrameStep) : Option (List Bool) := steps.foldlM FrameStep.frames? []

namespace Layers

/-- A transfer that is refused changes nothing. -/
def perform (layers : Layers) : Effect → Layers
  | .touch address => layers.touch address
  | .write address key data => layers.modifyAccount address (·.write key data)
  | .count address added deleted =>
    layers.modifyAccount address (fun change =>
      { change with bytesAdded := change.bytesAdded + added, bytesDeleted := change.bytesDeleted + deleted })
  | .note address balance => layers.noteBalance address balance
  | .transfer sender receiver value => (layers.transfer sender receiver value).toOption.getD layers
  | .finish data => layers.finish data
  | .log entry => layers.log entry

def step (layers : Layers) : FrameStep → Layers
  | .effect effect => layers.perform effect
  | .enter isolated => if isolated then layers.continued.isolate else layers.continued
  | .revert => layers.revert
  | .merge => layers.merge
  | .keep => layers.keep

end Layers

def Output.perform (output : Output) : Effect → Output
  | .touch address => output.modifyAccount address id
  | .write address key data => output.modifyAccount address (·.write key data)
  | .count address added deleted =>
    output.modifyAccount address (fun change =>
      { change with bytesAdded := change.bytesAdded + added, bytesDeleted := change.bytesDeleted + deleted })
  | .note address balance => output.noteBalance address balance
  | .transfer sender receiver value => (output.transfer sender receiver value).toOption.getD output
  | .finish data => output.finish data
  | .log entry => output.log entry

/-- One output for the whole transaction, with a copy of it saved for each open frame. -/
abbrev Accumulator := Stacked Output

namespace Accumulator

def start : Accumulator := ⟨{}, []⟩

def step (accumulator : Accumulator) : FrameStep → Accumulator
  | .effect effect => accumulator.modify (·.perform effect)
  | .enter _ => accumulator.push id
  | .revert => accumulator.restore
  | .merge | .keep => accumulator.forget

end Accumulator

namespace Layers

theorem transfer_eq (layers : Layers) (sender receiver : Address) (value : Nat) :
    layers.transfer sender receiver value =
      if layers.flatten.available sender < value then
        .error (.insufficientFunds (toString (layers.flatten.available sender)) (toString value))
      else .ok ((layers.credit sender (-(value : Int))).credit receiver value) := by
  simp only [transfer, available_eq]

private theorem transfer_error_iff (layers : Layers) (sender receiver : Address) (value : Nat) (failure : Failure) :
    layers.transfer sender receiver value = .error failure ↔
      layers.flatten.transfer sender receiver value = .error failure := by
  rw [transfer_eq, Output.transfer]
  split <;> simp

theorem flatten_perform (layers : Layers) (effect : Effect) :
    (layers.perform effect).flatten = layers.flatten.perform effect := by
  cases effect with
  | touch address => exact flatten_modifyAccount AccountChange.trailing_id layers address
  | write address key data => exact flatten_modifyAccount (AccountChange.trailing_write key data) layers address
  | count address added deleted =>
    exact flatten_modifyAccount (AccountChange.trailing_count added deleted) layers address
  | note address balance => exact flatten_modifyAccount (AccountChange.trailing_note balance) layers address
  | finish data => exact flatten_modifyOutput (Output.trailing_finish data) layers
  | log entry => exact flatten_modifyOutput (Output.trailing_log entry) layers
  | transfer sender receiver value =>
    simp only [perform, transfer_eq, Output.perform, Output.transfer]
    by_cases poor : layers.flatten.available sender < value
    · simp only [if_pos poor]
      rfl
    · simp only [if_neg poor, Except.toOption, Option.getD_some]
      have debited := flatten_modifyOutput (Output.trailing_credit sender (-(value : Int))) layers
      have credited := flatten_modifyOutput (Output.trailing_credit receiver value)
        (layers.credit sender (-(value : Int)))
      exact credited.trans (congrArg (Output.credit · receiver value) debited)

theorem perform_frame (layers : Layers) (effect : Effect) :
    (layers.perform effect).saved = layers.saved ∧
      (layers.perform effect).active.isolated = layers.active.isolated := by
  cases effect with
  | transfer sender receiver value =>
    simp only [perform, transfer_eq]
    split <;> exact ⟨rfl, rfl⟩
  | _ => exact ⟨rfl, rfl⟩

theorem accumulated_perform (layers : Layers) (effect : Effect) :
    (layers.perform effect).accumulated = layers.accumulated.modify (·.perform effect) := by
  simp only [accumulated, flatten_perform, perform_frame, Stacked.modify]

theorem flatten_enter (layers : Layers) (isolated : Bool) :
    (layers.step (.enter isolated)).flatten = layers.flatten := by
  cases isolated with
  | false => exact flatten_continued layers
  | true => exact flatten_isolated layers

/-- The layers know how each open frame was opened. -/
def Opened (frames : List Bool) (layers : Layers) : Prop :=
  layers.active.isolated :: layers.saved.map (·.isolated) = frames ++ [false]

/-- Where a frame is open there is a layer beneath, and it knows how the next frame out was opened. -/
theorem Opened.beneath {frame : Bool} {outer : List Bool} {active : Layer} {saved : List Layer}
    (opened : Opened (frame :: outer) ⟨active, saved⟩) :
    active.isolated = frame ∧ ∃ latest older, saved = latest :: older ∧ Opened outer ⟨latest, older⟩ := by
  obtain ⟨top, rest⟩ := List.cons.inj opened
  cases saved with
  | nil => exact absurd rest.symm (List.append_ne_nil_of_right_ne_nil _ (List.cons_ne_nil _ _))
  | cons latest older => exact ⟨top, latest, older, rfl, rest⟩

theorem Opened.step {frames after : List Bool} {layers : Layers} (opened : Opened frames layers) {step : FrameStep}
    (allowed : step.frames? frames = some after) : Opened after (layers.step step) := by
  cases step with
  | effect effect =>
    cases allowed
    obtain ⟨saved, active⟩ := perform_frame layers effect
    rw [Opened, Layers.step, saved, active]
    exact opened
  | enter isolates =>
    cases allowed
    cases isolates <;> exact congrArg (_ :: ·) opened
  | revert =>
    cases frames with
    | nil => cases allowed
    | cons frame outer =>
      cases allowed
      obtain ⟨active, saved⟩ := layers
      obtain ⟨-, latest, older, rfl, rest⟩ := opened.beneath
      exact rest
  | merge =>
    cases frames with
    | nil => cases allowed
    | cons frame outer =>
      cases allowed
      obtain ⟨active, saved⟩ := layers
      obtain ⟨-, latest, older, rfl, rest⟩ := opened.beneath
      exact rest
  | keep =>
    match frames, allowed with
    | false :: outer, rfl =>
      obtain ⟨active, saved⟩ := layers
      obtain ⟨continues, latest, older, rfl, rest⟩ := opened.beneath
      simp only [Opened, Layers.step, keep, continues, Bool.false_or]
      exact rest

/-- The accumulator is what the layers fold to, at every frame. -/
structure Simulates (frames : List Bool) (layers : Layers) (accumulator : Accumulator) : Prop where
  accumulated : layers.accumulated = accumulator
  opened : Opened frames layers

private theorem Simulates.start : Simulates [] .start .start := ⟨rfl, rfl⟩

private theorem Simulates.step {frames after : List Bool} {layers : Layers} {accumulator : Accumulator}
    (simulates : Simulates frames layers accumulator) {step : FrameStep}
    (allowed : step.frames? frames = some after) : Simulates after (layers.step step) (accumulator.step step) := by
  obtain ⟨rfl, opened⟩ := simulates
  refine ⟨?_, opened.step allowed⟩
  cases step with
  | effect effect => exact accumulated_perform layers effect
  | enter isolates =>
    cases isolates with
    | false => exact accumulated_continued layers
    | true => exact accumulated_isolated layers
  | revert => exact accumulated_revert layers
  | merge => exact accumulated_merge layers
  | keep =>
    match frames, allowed with
    | false :: outer, rfl => exact accumulated_keep layers opened.beneath.1

private theorem Simulates.run {frames after : List Bool} {layers : Layers} {accumulator : Accumulator}
    (simulates : Simulates frames layers accumulator) {steps : List FrameStep}
    (allowed : steps.foldlM FrameStep.frames? frames = some after) :
    Simulates after (steps.foldl Layers.step layers) (steps.foldl Accumulator.step accumulator) := by
  induction steps generalizing frames layers accumulator with
  | nil => cases allowed; exact simulates
  | cons step steps ih =>
    rw [List.foldlM_cons] at allowed
    obtain ⟨middle, first, rest⟩ := Option.bind_eq_some_iff.mp allowed
    exact ih (simulates.step first) rest

/-- With no frame open the one layer that is left is the accumulator. -/
theorem Simulates.closed {layers : Layers} {accumulator : Accumulator} (simulates : Simulates [] layers accumulator) :
    layers.output.accounts = accumulator.active.accounts ∧ layers.output.data = accumulator.active.data ∧
      layers.output.logs = accumulator.active.logs := by
  obtain ⟨rfl, opened⟩ := simulates
  obtain ⟨active, saved⟩ := layers
  obtain ⟨-, bottom⟩ := List.cons.inj opened
  cases List.map_eq_nil_iff.mp bottom
  exact ⟨(SortedMap.empty_union _ _).symm, rfl, rfl⟩

/-- A run of effects and of frames, opened and closed in any way and to any depth, leaves the layers answering
every question as the flat accumulator does. The run may stop with frames open, so this holds all along it. -/
theorem layers_agree_with_accumulator (steps : List FrameStep) (frames : List Bool)
    (bracketed : openFrames? steps = some frames) :
    let layers := steps.foldl Layers.step .start
    let accumulator := steps.foldl Accumulator.step .start
    (∀ address key, layers.written? address key = accumulator.active.written? address key) ∧
    (∀ address, layers.updates address = accumulator.active.updates address) ∧
    (∀ address, layers.knownBalance address = accumulator.active.knownBalance address ∧
      layers.balanceDelta address = accumulator.active.balanceDelta address) ∧
    (∀ sender receiver value failure, layers.transfer sender receiver value = .error failure ↔
      accumulator.active.transfer sender receiver value = .error failure) ∧
    (frames = [] → layers.output.accounts = accumulator.active.accounts ∧
      layers.output.data = accumulator.active.data ∧ layers.output.logs = accumulator.active.logs) := by
  intro layers accumulator
  have simulates : Simulates frames layers accumulator := Simulates.start.run bracketed
  have flat : accumulator.active = layers.flatten := congrArg Stacked.active simulates.accumulated.symm
  rw [flat]
  refine ⟨written?_eq layers, updates_eq layers,
    fun address => ⟨knownBalance_eq layers address, balanceDelta_eq layers address⟩,
    transfer_error_iff layers, ?_⟩
  rintro rfl
  rw [← flat]
  exact simulates.closed

/-- A continued frame kept inside an isolated one that is merged, and another isolated one that is reverted. -/
def mixedFrames : List FrameStep :=
  [.effect (.note .zero 5), .enter true, .effect (.write .zero [1] [2]), .enter false,
    .effect (.transfer .zero (.ofLabel "receiver") 3), .keep, .merge, .enter true, .effect (.count .zero 4 0), .revert]

theorem mixed_frames_agree : openFrames? mixedFrames = some [] ∧
    (mixedFrames.foldl Layers.step .start).output.accounts =
      (mixedFrames.foldl Accumulator.step .start).active.accounts :=
  have bracketed : openFrames? mixedFrames = some [] := rfl
  ⟨bracketed, ((layers_agree_with_accumulator mixedFrames [] bracketed).2.2.2.2 rfl).1⟩

end Layers

end ContractHost
