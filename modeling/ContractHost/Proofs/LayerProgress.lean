import ContractHost.Ledger
import ContractHost.Proofs.LayerSimulation
import ContractHost.Storage

/-! What running code does to the layers. Every operation comes down to effects on the active layer that respect
the ledger: a balance is noted as the ledger has it, funds are moved out of a known balance only, and a write is
billed by the content that it replaces. -/

namespace ContractHost

/-- The effects that write nothing, and what makes each of them right for the output that shows. -/
def Effect.Quiet (ledger : Ledger) (shown : Output) : Effect → Prop
  | .touch _ | .finish _ | .log _ => True
  | .note address balance => balance = ledger.balance address
  | .transfer sender _ _ => (shown.knownBalance sender).isSome
  | .write .. | .count .. => False

theorem AccountChange.trailing_record (bill : StorageBill) (key value : Bytes) :
    AccountChange.Trailing (·.record bill key value) :=
  (AccountChange.trailing_write key value).comp (AccountChange.trailing_count bill.added bill.deleted)

namespace Layers

variable {schedule : GasSchedule} {ledger : Ledger}

/-- The content of a storage cell: what the transaction wrote, or else what the ledger holds. -/
def content (layers : Layers) (ledger : Ledger) (address : Address) (key : Bytes) : Bytes :=
  (layers.written? address key).getD (ledger.stored address key)

def bill (schedule : GasSchedule) (layers : Layers) (ledger : Ledger) (address : Address) (key value : Bytes) :
    StorageBill :=
  StorageBill.of schedule (layers.content ledger address key).size value.size

/-- Changes one after another. Only accounts of the scope are written to, each of them at most once. -/
inductive Advances (schedule : GasSchedule) (ledger : Ledger) : (Address → Prop) → Layers → Layers → Prop where
  | stay {scope : Address → Prop} {layers : Layers} : Advances schedule ledger scope layers layers
  | quiet {scope : Address → Prop} {before middle : Layers} (earlier : Advances schedule ledger scope before middle)
      (effect : Effect) (right : effect.Quiet ledger middle.flatten) :
      Advances schedule ledger scope before (middle.perform effect)
  | record {scope wider : Address → Prop} {before middle : Layers} {address : Address}
      (earlier : Advances schedule ledger scope before middle) (outside : ¬scope address) (inside : wider address)
      (widens : ∀ other, scope other → wider other) (key value : Bytes) :
      Advances schedule ledger wider before
        (middle.modifyAccount address (·.record (middle.bill schedule ledger address key value) key value))

@[simp] theorem content_later (layers : Layers) (ledger : Ledger) :
    layers.content ledger.later = layers.content ledger := rfl

/-- The layers beneath have stayed as they were, and so has how the active one was opened. -/
def Framed (before after : Layers) : Prop :=
  after.saved = before.saved ∧ after.active.isolated = before.active.isolated

def nowhere : Address → Prop := fun _ => False

def only (address : Address) : Address → Prop := (· = address)

theorem content_touch (layers : Layers) (ledger : Ledger) (touched address : Address) (key : Bytes) :
    (layers.touch touched).content ledger address key = layers.content ledger address key := by
  have same : (layers.flatten.modifyAccount touched id).written? address key =
      layers.flatten.written? address key := by
    simp only [Output.written?, Output.account?_modifyAccount]
    split
    next equal =>
      subst equal
      simp only [id, Output.account]
      cases layers.flatten.account? address <;> rfl
    next => rfl
  have shown : (layers.touch touched).flatten = layers.flatten.modifyAccount touched id :=
    flatten_perform layers (.touch touched)
  rw [content, written?_eq, shown, same, ← written?_eq]
  rfl

theorem modifyAccount_modifyAccount (layers : Layers) (address : Address)
    (first second : AccountChange → AccountChange) :
    (layers.modifyAccount address first).modifyAccount address second =
      layers.modifyAccount address (second ∘ first) := by
  have accounts : ∀ output : Output,
      ((output.modifyAccount address first).modifyAccount address second).accounts =
        (output.modifyAccount address (second ∘ first)).accounts := by
    intro output
    apply SortedMap.ext_find?
    intro other
    change ((output.modifyAccount address first).modifyAccount address second).account? other =
      (output.modifyAccount address (second ∘ first)).account? other
    simp only [Output.account?_modifyAccount, Output.account]
    split <;> rfl
  have outputs : ∀ output : Output,
      (output.modifyAccount address first).modifyAccount address second =
        output.modifyAccount address (second ∘ first) := by
    intro output
    calc (output.modifyAccount address first).modifyAccount address second
        = { output with
            accounts := ((output.modifyAccount address first).modifyAccount address second).accounts } := rfl
      _ = output.modifyAccount address (second ∘ first) := by rw [accounts]; rfl
  simp only [modifyAccount, modifyOutput, Stacked.modify, outputs]

theorem record_eq (layers : Layers) (address : Address) (bill : StorageBill) (key value : Bytes) :
    layers.modifyAccount address (·.record bill key value) =
      (layers.perform (.count address bill.added bill.deleted)).perform (.write address key value) :=
  (modifyAccount_modifyAccount layers address
    (fun change => { change with
      bytesAdded := change.bytesAdded + bill.added, bytesDeleted := change.bytesDeleted + bill.deleted })
    (·.write key value)).symm

theorem updates_quiet {effect : Effect} {shown : Output} (quiet : effect.Quiet ledger shown) (layers : Layers)
    (address : Address) : (layers.perform effect).updates address = layers.updates address := by
  rw [updates_eq, flatten_perform, updates_eq]
  generalize layers.flatten = output
  have credited (output : Output) (account : Address) (amount : Int) :
      (output.credit account amount).updates address = output.updates address :=
    Output.updates_unchanged output account address (fun _ => rfl)
  cases effect with
  | touch changed => exact Output.updates_unchanged output changed address (fun _ => rfl)
  | note changed balance => exact Output.updates_unchanged output changed address (fun _ => rfl)
  | transfer sender receiver value =>
    simp only [Output.perform, Output.transfer]
    split
    next => rfl
    next => exact (credited _ receiver value).trans (credited output sender _)
  | finish data => rfl
  | log entry => rfl
  | write changed key data => exact quiet.elim
  | count changed added deleted => exact quiet.elim

theorem updates_touch (layers : Layers) (touched address : Address) :
    (layers.touch touched).updates address = layers.updates address :=
  updates_quiet (show (Effect.touch touched).Quiet {} {} from trivial) layers address

theorem updates_record (layers : Layers) (address other : Address) (bill : StorageBill) (key value : Bytes) :
    (layers.modifyAccount address (·.record bill key value)).updates other =
      if other = address then (layers.updates address).insert key ⟨key, value⟩ else layers.updates other := by
  rw [updates_eq, flatten_modifyAccount (AccountChange.trailing_record bill key value), Output.updates_modifyAccount,
    updates_eq, updates_eq]
  split
  next => rw [← Output.updates_account]; rfl
  next => rfl

theorem written?_updates (layers : Layers) (address : Address) (key : Bytes) :
    layers.written? address key = ((layers.updates address).find? key).map (·.data) := by
  rw [written?_eq, Output.written?_updates, updates_eq]

theorem written?_quiet {effect : Effect} {shown : Output} (quiet : effect.Quiet ledger shown) (layers : Layers)
    (address : Address) (key : Bytes) : (layers.perform effect).written? address key = layers.written? address key := by
  rw [written?_updates, updates_quiet quiet, written?_updates]

theorem written?_touch (layers : Layers) (touched address : Address) (key : Bytes) :
    (layers.touch touched).written? address key = layers.written? address key := by
  rw [written?_updates, updates_touch, written?_updates]

theorem written?_record (layers : Layers) (address other : Address) (bill : StorageBill) (key cell value : Bytes) :
    (layers.modifyAccount address (·.record bill key value)).written? other cell =
      if other = address ∧ cell = key then some value else layers.written? other cell := by
  rw [written?_updates, updates_record, written?_updates]
  by_cases mine : other = address
  · subst mine
    rw [if_pos rfl, SortedMap.find?_insert]
    by_cases same : cell = key
    · rw [if_pos same, if_pos ⟨rfl, same⟩]
      rfl
    · rw [if_neg same, if_neg (fun both => same both.2)]
  · rw [if_neg mine, if_neg (fun both => mine both.1)]

/-- Keeping the layer that continues another one commutes with what is done in it. -/
theorem perform_keep (layers : Layers) (continues : layers.active.isolated = false) (effect : Effect) :
    (layers.perform effect).keep = layers.keep.perform effect := by
  have modified : ∀ change : Output → Output,
      (layers.modifyOutput change).keep = layers.keep.modifyOutput change := by
    intro change
    obtain ⟨active, saved⟩ := layers
    cases saved <;> rfl
  cases effect with
  | transfer sender receiver value =>
    simp only [perform, transfer_eq, flatten_keep layers continues]
    split
    next => rfl
    next =>
      obtain ⟨active, saved⟩ := layers
      cases saved <;> rfl
  | _ => exact modified _

namespace Advances

variable {scope wider other : Address → Prop} {before middle after : Layers}

theorem widen (advances : Advances schedule ledger scope before after)
    (widens : ∀ address, scope address → wider address) : Advances schedule ledger wider before after := by
  induction advances with
  | stay => exact .stay
  | quiet earlier effect right ih => exact (ih widens).quiet effect right
  | record earlier outside inside narrower key value =>
    exact earlier.record outside (widens _ inside) (fun address member => widens _ (narrower _ member)) key value

theorem single (address : Address) (key value : Bytes) :
    Advances schedule ledger (only address) before
      (before.modifyAccount address (·.record (before.bill schedule ledger address key value) key value)) := by
  have start : Advances schedule ledger nowhere before before := .stay
  have inside : only address address := rfl
  exact start.record id inside (fun _ absurd => absurd.elim) key value

/-- Two runs of changes make one where no account is in the scope of both. -/
theorem trans (first : Advances schedule ledger scope before middle)
    (second : Advances schedule ledger other middle after) (apart : ∀ address, other address → ¬scope address) :
    Advances schedule ledger (fun address => scope address ∨ other address) before after := by
  induction second with
  | stay => exact first.widen (fun _ => .inl)
  | quiet earlier effect right ih => exact (ih first apart).quiet effect right
  | record earlier outside inside narrower key value ih =>
    have joined := ih first (fun address member => apart address (narrower address member))
    refine joined.record ?_ (.inr inside) (fun address => Or.imp_right (narrower address)) key value
    intro member
    cases member with
    | inl before => exact apart _ inside before
    | inr between => exact outside between

theorem then_quietly (first : Advances schedule ledger scope before middle)
    (second : Advances schedule ledger nowhere middle after) : Advances schedule ledger scope before after :=
  (first.trans second (fun _ absurd => absurd.elim)).widen (fun _ either => either.elim id False.elim)

theorem frame (advances : Advances schedule ledger scope before after) : before.Framed after := by
  induction advances with
  | stay => exact ⟨rfl, rfl⟩
  | @quiet _ before middle earlier effect right ih =>
    obtain ⟨saved, isolated⟩ := perform_frame middle effect
    exact ⟨saved.trans ih.1, isolated.trans ih.2⟩
  | record earlier outside inside narrower key value ih => exact ih

/-- What is done in a layer that continues another one could as well have been done in that one. -/
theorem keep (advances : Advances schedule ledger scope before after) (continues : before.active.isolated = false) :
    Advances schedule ledger scope before.keep after.keep := by
  induction advances with
  | stay => exact .stay
  | @quiet _ before middle earlier effect right ih =>
    have open_still : middle.active.isolated = false := earlier.frame.2.trans continues
    rw [perform_keep middle open_still]
    refine (ih continues).quiet effect ?_
    rwa [flatten_keep middle open_still]
  | @record scope wider before middle address earlier outside inside narrower key value ih =>
    have open_still : middle.active.isolated = false := earlier.frame.2.trans continues
    have same : middle.keep.bill schedule ledger address key value = middle.bill schedule ledger address key value := by
      simp only [bill, content, written?_eq, flatten_keep middle open_still]
    have recorded := (ih continues).record outside inside narrower key value
    have counted : (middle.perform (.count address (middle.bill schedule ledger address key value).added
        (middle.bill schedule ledger address key value).deleted)).active.isolated = false :=
      (perform_frame _ _).2.trans open_still
    rw [same, record_eq, ← perform_keep _ open_still, ← perform_keep _ counted, ← record_eq] at recorded
    exact recorded

end Advances

end Layers

namespace Context

def entering : Context → FrameStep
  | .same => .enter false
  | .destination => .enter true

def leaving (context : Context) (succeeded : Bool) : FrameStep :=
  if succeeded then
    match context with
    | .same => .keep
    | .destination => .merge
  else .revert

end Context

theorem Layers.flatten_entering (layers : Layers) (context : Context) :
    (layers.step context.entering).flatten = layers.flatten := by
  cases context <;> exact flatten_enter layers _

namespace Layers.Framed

theorem refl (layers : Layers) : layers.Framed layers := ⟨rfl, rfl⟩

theorem trans {before middle after : Layers} (first : before.Framed middle) (second : middle.Framed after) :
    before.Framed after :=
  ⟨second.1.trans first.1, second.2.trans first.2⟩

/-- Reverting what was done in a frame goes back to exactly what was there when it was opened. -/
theorem revert {before inside : Layers} {context : Context}
    (framed : (before.step context.entering).Framed inside) : inside.revert = before := by
  have saved : inside.saved = before.active :: before.saved := by
    rw [framed.1]
    cases context <;> rfl
  simp only [Layers.revert, Stacked.restore, saved]

theorem leave {before inside : Layers} {context : Context} (framed : (before.step context.entering).Framed inside)
    (succeeded : Bool) : before.Framed (inside.step (context.leaving succeeded)) := by
  have saved : inside.saved = before.active :: before.saved := by
    rw [framed.1]
    cases context <;> rfl
  cases succeeded with
  | false =>
    change before.Framed inside.revert
    rw [framed.revert]
    exact .refl before
  | true =>
    cases context with
    | same =>
      have continues : inside.active.isolated = false := framed.2
      change before.Framed inside.keep
      simp only [Framed, keep, saved, continues, Bool.false_or, and_self]
    | destination =>
      change before.Framed inside.merge
      simp only [Framed, merge, Stacked.restoreWith, saved, and_self]

/-- Closing the frame of a call that succeeded changes nothing of what shows. -/
theorem flatten_leaving {before inside : Layers} {context : Context}
    (framed : (before.step context.entering).Framed inside) :
    (inside.step (context.leaving true)).flatten = inside.flatten := by
  cases context with
  | same => exact flatten_keep inside framed.2
  | destination => exact flatten_merge inside

end Layers.Framed

/-- With no layer beneath, what has been written is what the one layer says. -/
theorem Layers.written?_bottom {layers : Layers} (bottom : Layers.start.Framed layers) (address : Address) (key : Bytes) :
    layers.written? address key = layers.output.written? address key := by
  obtain ⟨⟨output, isolated⟩, saved⟩ := layers
  obtain ⟨bottom, -⟩ := bottom
  change saved = [] at bottom
  subst bottom
  exact List.findSome?_singleton

end ContractHost
