import ContractHost.Proofs.NestedCall

/-! Machines that running code cannot tell apart. They may differ in how the output is cut into layers, as long as the
layers fold to the same accumulator, and in the kinds that calls were entered with. No operation shows such a
difference: from machines that resemble one another it answers alike and leaves machines that do. -/

namespace ContractHost

section InStep

variable {σ α β : Type}

/-- Run from these two states, the two actions answer alike and leave related states. -/
structure InStep (related : σ → σ → Prop) (one other : EStateM Failure σ α) (first second : σ) : Prop where
  reply : (outcome one first).1 = (outcome other second).1
  leaves : related (outcome one first).2 (outcome other second).2

namespace InStep

variable {related : σ → σ → Prop} {one other : EStateM Failure σ α} {first second : σ}

theorem bind {next following : α → EStateM Failure σ β} (begins : InStep related one other first second)
    (goes : ∀ value after also, one first = .ok value after → related after also →
      InStep related (next value) (following value) after also) :
    InStep related (one >>= next) (other >>= following) first second := by
  obtain ⟨reply, leaves⟩ := begins
  cases ran : one first with
  | ok value after =>
    rw [outcome_eq_ok.mpr ran] at reply leaves
    have also : outcome other second = (.ok value, (outcome other second).2) := Prod.ext reply.symm rfl
    obtain ⟨reply, leaves⟩ := goes value after _ ran leaves
    rw [← outcome_bind_of_ok ran, ← outcome_bind_of_ok (outcome_eq_ok.mp also)] at reply leaves
    exact ⟨reply, leaves⟩
  | error failure after =>
    rw [outcome_eq_error.mpr ran] at reply leaves
    have also : outcome other second = (.error failure, (outcome other second).2) := Prod.ext reply.symm rfl
    refine ⟨?_, ?_⟩ <;> rw [outcome_bind_of_error ran, outcome_bind_of_error (outcome_eq_error.mp also)]
    exact leaves

private theorem pure (value : α) (holds : related first second) :
    InStep related (Pure.pure value) (Pure.pure value) first second :=
  ⟨rfl, holds⟩

theorem throw (failure : Failure) (holds : related first second) :
    InStep related (MonadExcept.throw failure : EStateM Failure σ α) (MonadExcept.throw failure) first second :=
  ⟨rfl, holds⟩

end InStep

end InStep

def Stacked.map {α β : Type} (change : α → β) (stack : Stacked α) : Stacked β :=
  ⟨change stack.active, stack.saved.map change⟩

theorem Stacked.map_restore {α β : Type} (change : α → β) (stack : Stacked α) :
    stack.restore.map change = (stack.map change).restore := by
  obtain ⟨active, saved⟩ := stack
  cases saved <;> rfl

/-- The input without the kind of its call. -/
def CallInput.unlabelled (input : CallInput) : CallInput := { input with kind := .direct }

def Frame.unlabelled (frame : Frame) : Frame := { frame with input := frame.input.unlabelled }

def CallRecord.unlabelled (record : CallRecord) : CallRecord := { record with kind := .direct }

namespace Machine

/-- Nothing that code can ask for is different, now or after the calls on the way have come back. -/
structure Resembles (first second : Machine) : Prop where
  scopes : first.scopes = second.scopes
  layers : first.layers.accumulated = second.layers.accumulated
  gas : first.gas = second.gas
  frames : first.frames.map Frame.unlabelled = second.frames.map Frame.unlabelled
  calls : first.calls.map CallRecord.unlabelled = second.calls.map CallRecord.unlabelled

namespace Resembles

variable {first second : Machine}

theorem refl (machine : Machine) : machine.Resembles machine := ⟨rfl, rfl, rfl, rfl, rfl⟩

private theorem flatten (same : first.Resembles second) : first.layers.flatten = second.layers.flatten :=
  congrArg Stacked.active same.layers

theorem storageAddress (same : first.Resembles second) : first.storageAddress = second.storageAddress :=
  congrArg (fun scopes => scopes.active.address) same.scopes

private theorem isProtected (same : first.Resembles second) : first.isProtected = second.isProtected :=
  congrArg (fun scopes => scopes.active.isProtected) same.scopes

theorem readOnly (same : first.Resembles second) : first.readOnly = second.readOnly :=
  congrArg (fun frames => frames.active.readOnly) same.frames

theorem arguments (same : first.Resembles second) : first.input.arguments = second.input.arguments :=
  congrArg (fun frames => frames.active.input.arguments) same.frames

theorem caller (same : first.Resembles second) : first.input.caller = second.input.caller :=
  congrArg (fun frames => frames.active.input.caller) same.frames

theorem callValue (same : first.Resembles second) : first.input.value = second.input.value :=
  congrArg (fun frames => frames.active.input.value) same.frames

theorem contract (same : first.Resembles second) : first.contract = second.contract :=
  congrArg (fun frames => frames.active.input.recipient) same.frames

theorem gasLeft (same : first.Resembles second) : first.gasLeft = second.gasLeft :=
  congrArg (fun gas => gas.active.gasLeft) same.gas

theorem gasFreed (same : first.Resembles second) : first.gasFreed = second.gasFreed :=
  congrArg (fun gas => gas.active.freed) same.gas

theorem callDepth (same : first.Resembles second) : first.callDepth = second.callDepth := by
  have lengths := congrArg List.length same.calls
  rwa [List.length_map, List.length_map] at lengths

theorem written? (same : first.Resembles second) (address : Address) (key : Bytes) :
    first.layers.written? address key = second.layers.written? address key := by
  rw [Layers.written?_eq, Layers.written?_eq, same.flatten]

theorem knownBalance (same : first.Resembles second) (address : Address) :
    first.layers.knownBalance address = second.layers.knownBalance address := by
  rw [Layers.knownBalance_eq, Layers.knownBalance_eq, same.flatten]

theorem balanceDelta (same : first.Resembles second) (address : Address) :
    first.layers.balanceDelta address = second.layers.balanceDelta address := by
  rw [Layers.balanceDelta_eq, Layers.balanceDelta_eq, same.flatten]

private theorem mapLayers (same : first.Resembles second) {change : Layers → Layers}
    (changes : (change first.layers).accumulated = (change second.layers).accumulated) :
    (first.mapLayers change).Resembles (second.mapLayers change) :=
  { same with layers := changes }

private theorem perform (same : first.Resembles second) (effect : Effect) :
    (first.mapLayers (·.perform effect)).Resembles (second.mapLayers (·.perform effect)) := by
  refine same.mapLayers ?_
  rw [Layers.accumulated_perform, Layers.accumulated_perform, same.layers]

private theorem record (same : first.Resembles second) (address : Address) (bill : StorageBill) (key value : Bytes) :
    (first.mapLayers (·.modifyAccount address (·.record bill key value))).Resembles
      (second.mapLayers (·.modifyAccount address (·.record bill key value))) := by
  refine same.mapLayers ?_
  simp only [Layers.record_eq, Layers.accumulated_perform, same.layers]

private theorem setGas (same : first.Resembles second) (tracker : GasTracker) :
    (first.setGas tracker).Resembles (second.setGas tracker) :=
  { same with gas := congrArg (fun gas => { gas with active := tracker }) same.gas }

private theorem setStorageAddress (same : first.Resembles second) (address : Address) :
    (first.setStorageAddress address).Resembles (second.setStorageAddress address) :=
  { same with scopes := congrArg (·.modify (fun scope => { scope with address })) same.scopes }

private theorem setProtection (same : first.Resembles second) (on : Bool) :
    (first.setProtection on).Resembles (second.setProtection on) :=
  { same with scopes := congrArg (·.modify (fun scope => { scope with isProtected := on })) same.scopes }

theorem setReadOnly (same : first.Resembles second) (on : Bool) :
    (first.setReadOnly on).Resembles (second.setReadOnly on) :=
  { same with frames := congrArg (·.modify (fun frame => { frame with readOnly := on })) same.frames }

end Resembles

end Machine

/-- From machines that resemble one another the action answers alike and leaves machines that do. -/
def Action.Faithful {α : Type} (action : Action α) : Prop :=
  ∀ first second : Machine, first.Resembles second → InStep Machine.Resembles action action first second

variable {α β : Type} {rules : Rules} {ledger : Ledger}

namespace Action.Faithful

variable {action : Action α}

/-- The action answers by what code sees of the machine, and changes nothing else by what it does not. -/
theorem of_outcome (answer : Machine → Except Failure α) (change : Machine → Machine)
    (does : ∀ machine, outcome action machine = (answer machine, change machine))
    (answers : ∀ first second : Machine, first.Resembles second → answer first = answer second)
    (changes : ∀ first second : Machine, first.Resembles second → (change first).Resembles (change second)) :
    action.Faithful := by
  intro first second same
  refine ⟨?_, ?_⟩ <;> rw [does, does]
  · exact answers first second same
  · exact changes first second same

theorem bind {next : α → Action β} (begins : action.Faithful) (goes : ∀ value, (next value).Faithful) :
    (action >>= next).Faithful :=
  fun first second same => (begins first second same).bind (fun value after also _ => goes value after also)

/-- An action that looks at the machine first must see nothing that machines can differ in. -/
theorem bind_get {next : Machine → Action α}
    (sees : ∀ first second : Machine, first.Resembles second → next first = next second)
    (goes : ∀ machine, (next machine).Faithful) : (get >>= next).Faithful := by
  intro first second same
  have stepped : InStep Machine.Resembles (next first) (next second) first second := by
    rw [sees first second same]
    exact goes second first second same
  exact ⟨stepped.reply, stepped.leaves⟩

theorem pure (value : α) : (Pure.pure value : Action α).Faithful := fun _ _ same => .pure value same

theorem throw (failure : Failure) : (MonadExcept.throw failure : Action α).Faithful := fun _ _ same => .throw failure same

theorem ite {condition : Prop} [Decidable condition] {one other : Action α} (positive : one.Faithful)
    (negative : other.Faithful) : (if condition then one else other).Faithful := by
  split
  · exact positive
  · exact negative

theorem modify {change : Machine → Machine}
    (changes : ∀ first second : Machine, first.Resembles second → (change first).Resembles (change second)) :
    (modifyGet (fun machine => (⟨⟩, change machine)) : Action PUnit).Faithful :=
  fun first second same => ⟨rfl, changes first second same⟩

theorem charge (amount : UInt64) : (Action.charge amount).Faithful := by
  refine of_outcome (fun machine => (machine.gas.active.charge amount).1)
    (fun machine => machine.setGas (machine.gas.active.charge amount).2) (fun machine => ?_) ?_ ?_
  · simp only [outcome, Action.charge]
    rcases machine.gas.active.charge amount with ⟨_ | _, tracker⟩ <;> rfl
  · intro first second same
    rw [same.gas]
  · intro first second same
    rw [same.gas]
    exact same.setGas _

theorem charged (amount : UInt64) (faithful : action.Faithful) :
    (Action.charge amount >>= fun _ => action).Faithful :=
  (charge amount).bind (fun _ => faithful)

theorem ofExcept (answer : Except Failure α) : (Action.ofExcept answer).Faithful := by
  intro first second same
  cases answer <;> exact ⟨rfl, same⟩

private theorem argument (index : Nat) : (Action.argument index).Faithful := by
  refine bind_get (fun first second same => by rw [same.arguments]) (fun machine => ?_)
  split
  · exact pure _
  · exact throw _

private theorem transfer (sender receiver : Address) (value : Nat) :
    (Action.transfer sender receiver value).Faithful := by
  refine of_outcome (fun machine => (machine.layers.flatten.transfer sender receiver value).map (fun _ => ()))
    (fun machine => machine.mapLayers (·.perform (.transfer sender receiver value))) (fun machine => ?_) ?_
    (fun _ _ same => same.perform _)
  · simp only [outcome, Action.transfer, Machine.mapLayers, Layers.perform, Layers.transfer_eq, Output.transfer]
    by_cases poor : machine.layers.flatten.available sender < value
    · simp only [if_pos poor]
      rfl
    · simp only [if_neg poor]
      rfl
  · intro first second same
    rw [same.flatten]

end Action.Faithful

open ContractHost.Action (Faithful)

namespace Storage

/-- What a read answers of a cell by what has been written to it. -/
def found (ledger : Ledger) (address : Address) (key : Bytes) : Option Bytes → Except Failure (Bytes × Bool)
  | some data => .ok (data, true)
  | none => ((ledger.readStorage address key).map (·, false)).mapError Failure.ledger

private theorem readAt_faithful (address : Address) (key : Bytes) : (readAt ledger address key).Faithful := by
  have looked (first second : Machine) (same : first.Resembles second) :
      (first.mapLayers (·.touch address)).Resembles (second.mapLayers (·.touch address)) :=
    same.perform (.touch address)
  refine .of_outcome (fun machine =>
      found ledger address key ((machine.mapLayers (·.touch address)).layers.written? address key)) _
    (fun machine => ?_) (fun first second same => ?_) looked
  · simp only [outcome, readAt]
    cases (machine.mapLayers (·.touch address)).layers.written? address key with
    | some data => rfl
    | none =>
      rw [found]
      cases ledger.readStorage address key <;> rfl
  · rw [(looked first second same).written?]

private theorem read_faithful (key : Bytes) : (read ledger key).Faithful :=
  .bind_get (fun _ _ same => by rw [same.storageAddress]) (fun _ => readAt_faithful _ key)

private theorem readFrom_faithful (address : Address) (key : Bytes) : (readFrom ledger address key).Faithful := by
  refine .bind_get (fun _ _ same => by rw [same.storageAddress]) (fun machine => ?_)
  refine .ite (readAt_faithful address key) ?_
  split
  · exact .throw _
  · exact readAt_faithful address key
  · exact .pure _

private theorem admitReadOnly_faithful (key value : Bytes) : (admitReadOnly ledger key value).Faithful :=
  (read_faithful key).bind (fun _ => .ite (.pure _) (.throw _))

private theorem admitKey_faithful (key : Bytes) : (admitKey rules key).Faithful := by
  let answer (machine : Machine) : Except Failure Unit :=
    if rules.spaces.isReserved key then .error .storeReservedKey
    else if machine.isProtected && rules.spaces.isProtected key then .error .writeProtectedKey
    else .ok ()
  refine .of_outcome answer id (fun machine => ?_) (fun first second same => ?_) (fun _ _ same => same)
  · simp only [answer, outcome, admitKey]
    cases rules.spaces.isReserved key with
    | true => rfl
    | false => cases machine.isProtected && rules.spaces.isProtected key <;> rfl
  · simp only [answer, same.isProtected]

private theorem settle_faithful (bill : StorageBill) (key value : Bytes) : (settle bill key value).Faithful := by
  refine .charged _ (.bind (.modify ?_) (fun _ => .modify ?_))
  · intro first second same
    rw [same.gas]
    exact same.setGas _
  · intro first second same
    rw [same.storageAddress]
    exact same.record _ bill key value

private theorem replace_faithful (key value : Bytes) : (replace rules ledger key value).Faithful := by
  refine (read_faithful key).bind (fun read => ?_)
  obtain ⟨old, pending⟩ := read
  dsimp only
  cases StorageStatus.of old value with
  | unchanged => exact .pure _
  | _ => exact (settle_faithful _ key value).bind (fun _ => .pure _)

private theorem write_faithful (readOnly : Bool) (key value : Bytes) :
    (write rules ledger readOnly key value).Faithful := by
  have admitted : (admitKey rules key >>= fun _ => replace rules ledger.later key value).Faithful :=
    (admitKey_faithful key).bind (fun _ => replace_faithful key value)
  rw [write_eq]
  exact .ite ((admitReadOnly_faithful key value).bind (fun _ => admitted)) admitted

private theorem unprotected_faithful {action : Action α} (faithful : action.Faithful) :
    (unprotected action).Faithful := by
  intro first second same
  have ended (machine : Machine) : outcome (unprotected action) machine =
      ((outcome action (machine.setProtection false)).1,
        (outcome action (machine.setProtection false)).2.setProtection true) := by
    simp only [outcome, unprotected]
    cases action (machine.setProtection false) <;> rfl
  obtain ⟨reply, leaves⟩ := faithful _ _ (same.setProtection false)
  refine ⟨?_, ?_⟩ <;> rw [ended, ended]
  · exact reply
  · exact leaves.setProtection true

end Storage

namespace Operations

theorem store_faithful (key value : Bytes) : (store rules ledger key value).Faithful :=
  .charged _ (.bind_get (fun _ _ same => by rw [same.readOnly]) (fun _ => Storage.write_faithful _ key value))

theorem load_faithful (key : Bytes) : (load rules ledger key).Faithful :=
  .charged _ ((Storage.read_faithful key).bind (fun _ => .pure _))

theorem loadFrom_faithful (address : Address) (key : Bytes) : (loadFrom rules ledger address key).Faithful :=
  .charged _ ((Storage.readFrom_faithful address key).bind (fun _ => .pure _))

theorem argument_faithful (index : Nat) : (argument rules index).Faithful := .charged _ (.argument index)

theorem finish_faithful (data : Bytes) : (finish rules data).Faithful :=
  .charged _ (.modify (fun _ _ same => same.perform (.finish data)))

theorem log_faithful (topics : List Bytes) (data : Bytes) : (log rules topics data).Faithful := by
  refine .charged _ (.modify (fun first second same => ?_))
  rw [same.contract]
  exact same.perform (.log _)

private theorem loadBalance_faithful (address : Address) : (loadBalance ledger address).Faithful := by
  intro first second same
  cases known : first.layers.knownBalance address with
  | some balance =>
    have also := (same.knownBalance address).symm.trans known
    refine ⟨?_, ?_⟩ <;> simp only [outcome, loadBalance, known, also]
    exact same
  | none =>
    have also := (same.knownBalance address).symm.trans known
    refine ⟨?_, ?_⟩ <;> simp only [outcome, loadBalance, known, also] <;> cases ledger.readAccount address
    · rfl
    · rfl
    · exact same
    · exact same.perform (.note address _)

theorem transferCallValue_faithful (input : CallInput) : (transferCallValue ledger input).Faithful :=
  .ite (.pure _) ((loadBalance_faithful _).bind (fun _ => .transfer _ _ _))

theorem transfer_faithful (destination : Address) (value : Nat) : (transfer rules ledger destination value).Faithful :=
  .charged _ (.bind_get (fun _ _ same => by rw [same.readOnly, same.contract]) (fun _ =>
    .ite (.throw _) ((loadBalance_faithful _).bind (fun _ => .transfer _ _ _))))

end Operations

namespace Token

theorem balance_faithful (address : Address) (token : Bytes) : (balance rules ledger address token).Faithful :=
  (Storage.readAt_faithful address _).bind (fun _ => .pure _)

private theorem setBalance_faithful (token : Bytes) (amount : Nat) : (setBalance rules ledger token amount).Faithful :=
  .bind_get (fun _ _ same => by rw [same.readOnly]) (fun _ =>
    (Storage.unprotected_faithful (Storage.write_faithful _ _ _)).bind (fun _ => .pure _))

theorem mint_faithful (token : Bytes) (amount : Nat) : (mint rules ledger token amount).Faithful :=
  .charged _ (.bind_get (fun _ _ same => by rw [same.storageAddress]) (fun _ =>
    (balance_faithful _ token).bind (fun _ => setBalance_faithful token _)))

private theorem within_faithful (address : Address) {action : Action α} (faithful : action.Faithful) :
    (within address action).Faithful := by
  intro first second same
  have ended (machine : Machine) : outcome (within address action) machine =
      ((outcome action (machine.setStorageAddress address)).1,
        (outcome action (machine.setStorageAddress address)).2.setStorageAddress machine.storageAddress) := by
    simp only [outcome, within]
    cases action (machine.setStorageAddress address) <;> rfl
  obtain ⟨reply, leaves⟩ := faithful _ _ (same.setStorageAddress address)
  refine ⟨?_, ?_⟩ <;> rw [ended, ended]
  · exact reply
  · rw [same.storageAddress]
    exact leaves.setStorageAddress _

/-- The layer of its own is given up or kept by the outcome, and keeping it is right because it stays one that continues
the layer beneath. -/
theorem atomically_faithful {action : Action α} (faithful : action.Faithful)
    (framed : ∀ machine, Leaves action machine (fun after => machine.layers.Framed after.layers)) :
    (atomically action).Faithful := by
  intro first second same
  have ended (machine : Machine) : outcome (atomically action) machine =
      ((outcome action (machine.mapLayers Layers.continued)).1,
        (outcome action (machine.mapLayers Layers.continued)).2.mapLayers
          (if (outcome action (machine.mapLayers Layers.continued)).1.isOk then Layers.keep else Layers.revert)) := by
    cases ran : action (machine.mapLayers Layers.continued) <;> simp only [outcome, atomically, ran] <;> rfl
  have continued : (first.mapLayers Layers.continued).Resembles (second.mapLayers Layers.continued) := by
    refine same.mapLayers ?_
    rw [Layers.accumulated_continued, Layers.accumulated_continued, same.layers]
  have continues (machine : Machine) :
      (outcome action (machine.mapLayers Layers.continued)).2.layers.active.isolated = false :=
    (framed (machine.mapLayers Layers.continued)).state.2
  obtain ⟨reply, leaves⟩ := faithful _ _ continued
  refine ⟨?_, ?_⟩ <;> rw [ended, ended]
  · exact reply
  rw [reply]
  refine leaves.mapLayers ?_
  split
  · rw [Layers.accumulated_keep _ (continues first), Layers.accumulated_keep _ (continues second), leaves.layers]
  · rw [Layers.accumulated_revert, Layers.accumulated_revert, leaves.layers]

private theorem setBalances_framed (token : Bytes) (destination : Address) (own other : Nat) (machine : Machine) :
    Leaves (setBalances rules ledger token destination own other) machine
      (fun after => machine.layers.Framed after.layers) := by
  have set (ledger : Ledger) (amount : Nat) (machine : Machine) :
      Leaves (setBalance rules ledger token amount) machine (fun after => machine.layers.Framed after.layers) :=
    (setBalance_ensures token amount machine).weaken (fun _ _ works => works.1.kept_all.layers)
      (fun _ _ works => works.kept_all.layers)
  refine Leaves.bind (set _ own machine) (fun _ => id) (fun _ debited first => within_ensures ?_)
  exact (set _ other (debited.setStorageAddress destination)).weaken (fun _ => first.trans)

theorem transfer_faithful (token : Bytes) (destination : Address) (amount : Nat) :
    (transfer rules ledger token destination amount).Faithful := by
  refine .charged _ (.bind_get (fun _ _ same => by rw [same.storageAddress]) (fun _ => ?_))
  refine (balance_faithful _ token).bind (fun held => .ite (.throw _) (.ite (.pure _) ?_))
  refine (balance_faithful destination token).bind (fun received => ?_)
  refine atomically_faithful ?_ (setBalances_framed token destination _ _)
  exact (setBalance_faithful token _).bind (fun _ => within_faithful destination (setBalance_faithful token _))

end Token

end ContractHost
