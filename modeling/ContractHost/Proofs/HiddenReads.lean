import ContractHost.Proofs.OperationProgress

/-! What shows of an account's storage to those who cannot read it. Two ledgers that differ in nothing but the storage
of one account, which others may not read, answer alike to all that an operation asks them, as long as that account is
not the one in scope and no balance of tokens is asked of it. -/

namespace ContractHost

def LedgerAccount.blank (account : LedgerAccount) : LedgerAccount := { account with storage := .empty }

namespace Ledger

/-- The ledgers differ in nothing but the storage of one account. -/
structure AlikeBut (hidden : Address) (first second : Ledger) : Prop where
  storageFault : first.storageFault = second.storageFault
  accountFault : first.accountFault = second.accountFault
  lapse? : first.lapse? = second.lapse?
  others (address : Address) : address ≠ hidden → first.account? address = second.account? address
  own : (first.account? hidden).map LedgerAccount.blank = (second.account? hidden).map LedgerAccount.blank

/-- Others may not read the storage of the account, if it exists. -/
def Unreadable (ledger : Ledger) (hidden : Address) : Prop :=
  ∀ account, ledger.account? hidden = some account → account.metadata.readable = false

namespace AlikeBut

variable {hidden : Address} {first second : Ledger}

theorem symm (alike : first.AlikeBut hidden second) : second.AlikeBut hidden first where
  storageFault := alike.storageFault.symm
  accountFault := alike.accountFault.symm
  lapse? := alike.lapse?.symm
  others address apart := (alike.others address apart).symm
  own := alike.own.symm

private theorem later (alike : first.AlikeBut hidden second) : first.later.AlikeBut hidden second.later :=
  { alike with lapse? := funext fun number => congrFun alike.lapse? (number + 1) }

private theorem fault? (alike : first.AlikeBut hidden second) (request : LedgerRequest) :
    first.fault? request = second.fault? request := by
  simp only [Ledger.fault?, alike.storageFault, alike.accountFault, alike.lapse?]

/-- What does not look at the storage is the same of every account. -/
theorem view (alike : first.AlikeBut hidden second) {β : Type} (view : LedgerAccount → β)
    (blind : ∀ account, view account.blank = view account) (address : Address) :
    (first.account? address).map view = (second.account? address).map view := by
  by_cases here : address = hidden
  · have blanks := congrArg (Option.map view) alike.own
    simp only [Option.map_map, Function.comp_def, blind] at blanks
    rw [here, blanks]
  · rw [alike.others address here]

theorem unreadable (alike : first.AlikeBut hidden second) (unreadable : first.Unreadable hidden) :
    second.Unreadable hidden := by
  intro account held
  have views := alike.view (·.metadata.readable) (fun _ => rfl) hidden
  rw [held, Option.map_some] at views
  obtain ⟨other, there, same⟩ := Option.map_eq_some_iff.mp views
  exact same.symm.trans (unreadable other there)

private theorem readStorage (alike : first.AlikeBut hidden second) {address : Address} (apart : address ≠ hidden)
    (key : Bytes) : first.readStorage address key = second.readStorage address key := by
  simp only [Ledger.readStorage, stored, alike.fault?, alike.others address apart]

private theorem readAccount (alike : first.AlikeBut hidden second) {β γ : Type} (view : LedgerAccount → β)
    (blind : ∀ account, view account.blank = view account) (answer : Option β → γ) (address : Address) :
    (first.readAccount address).map (fun account => answer (account.map view)) =
      (second.readAccount address).map (fun account => answer (account.map view)) := by
  simp only [Ledger.readAccount, alike.fault?]
  cases second.fault? (.account address) with
  | some fault => rfl
  | none => exact congrArg (fun seen => Except.ok (answer seen)) (alike.view view blind address)

theorem readCode (alike : first.AlikeBut hidden second) (address : Address) :
    first.readCode address = second.readCode address := by
  simp only [Ledger.readCode, alike.fault?, alike.view (·.code) (fun _ => rfl) address]

private theorem isReadable (alike : first.AlikeBut hidden second) (address : Address) :
    Storage.isReadable first address = Storage.isReadable second address := by
  have read (ledger : Ledger) : Storage.isReadable ledger address =
      (ledger.readAccount address).map (fun account => (account.map (·.metadata.readable)).getD false) := by
    rw [Storage.isReadable]
    congr 1
    funext account
    cases account <;> rfl
  rw [read, read]
  exact alike.readAccount (·.metadata.readable) (fun _ => rfl) (fun readable => readable.getD false) address

/-- Writing to the storage of an account that exists leaves all else as it is. -/
theorem setStorage {ledger : Ledger} {account : LedgerAccount} (held : ledger.account? hidden = some account)
    (key value : Bytes) : ledger.AlikeBut hidden (ledger.setStorage hidden key value) where
  storageFault := rfl
  accountFault := rfl
  lapse? := rfl
  others address apart := ((SortedMap.find?_insert _ _ _ _).trans (if_neg apart)).symm
  own := by
    have stored : (ledger.setStorage hidden key value).account? hidden = some (account.store key value) := by
      refine (SortedMap.find?_insert _ _ _ _).trans ((if_pos rfl).trans ?_)
      rw [held]
      rfl
    rw [held, stored]
    rfl

end AlikeBut

private theorem Unreadable.refused {ledger : Ledger} {hidden : Address} (unreadable : ledger.Unreadable hidden) :
    Storage.isReadable ledger hidden ≠ .ok true := by
  intro shown
  simp only [Storage.isReadable, readAccount] at shown
  cases fault : ledger.fault? (.account hidden) with
  | some fault =>
    rw [fault] at shown
    cases shown
  | none =>
    rw [fault] at shown
    cases held : ledger.account? hidden with
    | none =>
      rw [held] at shown
      cases shown
    | some account =>
      rw [held] at shown
      have readable : account.metadata.readable = true := Except.ok.inj shown
      rw [unreadable account held] at readable
      cases readable

end Ledger

variable {hidden : Address} {first second : Ledger} {rules : Rules} {α β : Type}

/-- From every machine with another account in scope, the two actions do the same and leave that account in scope. -/
def Action.Concurs (hidden : Address) (one other : Action α) : Prop :=
  ∀ machine : Machine, machine.storageAddress ≠ hidden →
    one machine = other machine ∧ Leaves one machine (fun after => after.storageAddress = machine.storageAddress)

namespace Action.Concurs

variable {one other : Action α}

private theorem same
    (keeps : ∀ machine, Leaves one machine (fun after => after.storageAddress = machine.storageAddress)) :
    Concurs hidden one one :=
  fun machine _ => ⟨rfl, keeps machine⟩

private theorem bind {next following : α → Action β} (begins : Concurs hidden one other)
    (goes : ∀ value, Concurs hidden (next value) (following value)) :
    Concurs hidden (one >>= next) (other >>= following) := by
  intro machine apart
  obtain ⟨same, keeps⟩ := begins machine apart
  simp only [Leaves, Ensures] at keeps ⊢
  cases run : one machine with
  | ok value after =>
    rw [run] at keeps
    obtain ⟨on, kept⟩ := goes value after (keeps ▸ apart)
    rw [bind_of_ok run, bind_of_ok (same.symm.trans run)]
    exact ⟨on, kept.weaken (fun _ there => there.trans keeps)⟩
  | error failure after =>
    rw [run] at keeps
    rw [bind_of_error run, bind_of_error (same.symm.trans run)]
    exact ⟨rfl, keeps⟩

/-- What is looked up in the machine first is the same for both. -/
theorem get_bind {next following : Machine → Action β}
    (goes : ∀ machine, machine.storageAddress ≠ hidden → Concurs hidden (next machine) (following machine)) :
    Concurs hidden (get >>= next) (get >>= following) :=
  fun machine apart => goes machine apart machine apart

private theorem ite {condition : Prop} [Decidable condition] {first second third fourth : Action α}
    (positive : condition → Concurs hidden first second) (negative : ¬condition → Concurs hidden third fourth) :
    Concurs hidden (if condition then first else third) (if condition then second else fourth) := by
  split
  next holds => exact positive holds
  next fails => exact negative fails

private theorem pure (value : α) : Concurs hidden (Pure.pure value : Action α) (Pure.pure value) := same (fun _ => rfl)

private theorem throw (failure : Failure) :
    Concurs hidden (MonadExcept.throw failure : Action α) (MonadExcept.throw failure) :=
  same (fun _ => rfl)

private theorem charge (amount : UInt64) : Concurs hidden (Action.charge amount) (Action.charge amount) :=
  same (fun machine => (charge_leaves amount machine).reaching rfl)

end Action.Concurs

namespace Storage

open ContractHost.Action (Concurs)

private theorem readAt_concurs (alike : first.AlikeBut hidden second) {address : Address} (apart : address ≠ hidden)
    (key : Bytes) : Concurs hidden (readAt first address key) (readAt second address key) := by
  have same : readAt first address key = readAt second address key := by
    funext machine
    simp only [readAt, alike.readStorage apart]
  rw [← same]
  exact .same (fun machine => (readAt_leaves address key machine).reaching rfl)

private theorem read_concurs (alike : first.AlikeBut hidden second) (key : Bytes) :
    Concurs hidden (read first key) (read second key) :=
  .get_bind (fun _ apart => readAt_concurs alike apart key)

/-- Of an account that is not in scope nothing is read unless it is readable. -/
theorem readFrom_concurs (alike : first.AlikeBut hidden second) (unreadable : first.Unreadable hidden)
    (address : Address) (key : Bytes) : Concurs hidden (readFrom first address key) (readFrom second address key) := by
  refine .get_bind (fun machine apart => .ite (fun here => readAt_concurs alike (here ▸ apart) key) (fun _ => ?_))
  rw [← alike.isReadable address]
  cases readable : isReadable first address with
  | error fault => exact .throw _
  | ok shown =>
    cases shown with
    | false => exact .pure _
    | true =>
      refine readAt_concurs alike ?_ key
      rintro rfl
      exact unreadable.refused readable

private theorem replace_concurs (alike : first.AlikeBut hidden second) (key value : Bytes) :
    Concurs hidden (replace rules first key value) (replace rules second key value) := by
  refine .bind (read_concurs alike key) (fun read => ?_)
  obtain ⟨old, pending⟩ := read
  dsimp only
  have settling (bill : StorageBill) : Concurs hidden (settle bill key value) (settle bill key value) :=
    .same (fun machine => (settle_ensures bill key value machine).weaken
      (fun _ _ settled => by rw [settled.2]; rfl) (fun _ _ charged => by rw [charged]; rfl))
  cases StorageStatus.of old value with
  | unchanged => exact .pure _
  | _ => exact .bind (settling _) (fun _ => .pure _)

private theorem write_concurs (alike : first.AlikeBut hidden second) (readOnly : Bool) (key value : Bytes) :
    Concurs hidden (write rules first readOnly key value) (write rules second readOnly key value) := by
  have admitted : Concurs hidden (admitKey rules key >>= fun _ => replace rules first.later key value)
      (admitKey rules key >>= fun _ => replace rules second.later key value) := by
    refine .bind (.same (fun machine => ?_)) (fun _ => replace_concurs alike.later key value)
    exact (admitKey_ensures key machine).weaken (fun _ _ kept => by rw [kept.1]) (fun _ _ kept => by rw [kept])
  rw [write_eq, write_eq]
  refine .ite (fun _ => .bind ?_ (fun _ => admitted)) (fun _ => admitted)
  exact .bind (read_concurs alike key) (fun _ => .ite (fun _ => .pure _) (fun _ => .throw _))

private theorem unprotected_concurs {one other : Action α} (concurs : Concurs hidden one other) :
    Concurs hidden (unprotected one) (unprotected other) := by
  intro machine apart
  obtain ⟨same, keeps⟩ := concurs (machine.setProtection false) apart
  refine ⟨by simp only [unprotected, same], unprotected_ensures ?_⟩
  exact keeps

end Storage

namespace Operations

open ContractHost.Action (Concurs)

theorem store_concurs (alike : first.AlikeBut hidden second) (key value : Bytes) :
    Concurs hidden (store rules first key value) (store rules second key value) :=
  .bind (.charge _) (fun _ => .get_bind (fun _ _ => Storage.write_concurs alike _ key value))

theorem load_concurs (alike : first.AlikeBut hidden second) (key : Bytes) :
    Concurs hidden (load rules first key) (load rules second key) :=
  .bind (.charge _) (fun _ => .bind (Storage.read_concurs alike key) (fun _ => .pure _))

theorem loadFrom_concurs (alike : first.AlikeBut hidden second) (unreadable : first.Unreadable hidden)
    (address : Address) (key : Bytes) :
    Concurs hidden (loadFrom rules first address key) (loadFrom rules second address key) :=
  .bind (.charge _) (fun _ => .bind (Storage.readFrom_concurs alike unreadable address key) (fun _ => .pure _))

private theorem loadBalance_alike (alike : first.AlikeBut hidden second) (address : Address) :
    loadBalance first address = loadBalance second address := by
  have balances := alike.view (fun account => (account.balance : Int)) (fun _ => rfl) address
  funext machine
  simp only [loadBalance, Ledger.readAccount, alike.fault?]
  cases second.fault? (.account address) with
  | some fault => rfl
  | none => simp only [balances]

theorem transferCallValue_alike (alike : first.AlikeBut hidden second) (input : CallInput) :
    transferCallValue first input = transferCallValue second input := by
  simp only [transferCallValue, loadBalance_alike alike]

theorem transfer_alike (alike : first.AlikeBut hidden second) (destination : Address) (value : Nat) :
    transfer rules first destination value = transfer rules second destination value := by
  simp only [transfer, loadBalance_alike alike]

end Operations

namespace Token

open ContractHost.Action (Concurs)

theorem balance_concurs (alike : first.AlikeBut hidden second) {address : Address} (apart : address ≠ hidden)
    (token : Bytes) : Concurs hidden (balance rules first address token) (balance rules second address token) :=
  .bind (Storage.readAt_concurs alike apart _) (fun _ => .pure _)

private theorem setBalance_concurs (alike : first.AlikeBut hidden second) (token : Bytes) (amount : Nat) :
    Concurs hidden (setBalance rules first token amount) (setBalance rules second token amount) :=
  .get_bind (fun _ _ => .bind (Storage.unprotected_concurs (Storage.write_concurs alike _ _ _)) (fun _ => .pure _))

theorem mint_concurs (alike : first.AlikeBut hidden second) (token : Bytes) (amount : Nat) :
    Concurs hidden (mint rules first token amount) (mint rules second token amount) :=
  .bind (.charge _) (fun _ => .get_bind (fun _ apart =>
    .bind (balance_concurs alike apart token) (fun _ => setBalance_concurs alike.later token _)))

private theorem within_concurs {one other : Action α} {address : Address} (apart : address ≠ hidden)
    (concurs : Concurs hidden one other) : Concurs hidden (within address one) (within address other) := by
  intro machine _
  obtain ⟨same, -⟩ := concurs (machine.setStorageAddress address) apart
  refine ⟨by simp only [within, same], within_ensures ?_⟩
  simp only [Ensures]
  split <;> rfl

private theorem atomically_concurs {one other : Action α} (concurs : Concurs hidden one other) :
    Concurs hidden (atomically one) (atomically other) := by
  intro machine apart
  obtain ⟨same, keeps⟩ := concurs (machine.mapLayers Layers.continued) apart
  refine ⟨by simp only [atomically, same], atomically_ensures ?_⟩
  exact keeps

theorem transfer_concurs (alike : first.AlikeBut hidden second) (token : Bytes) {destination : Address}
    (apart : destination ≠ hidden) (amount : Nat) :
    Concurs hidden (transfer rules first token destination amount) (transfer rules second token destination amount) := by
  refine .bind (.charge _) (fun _ => .get_bind (fun machine elsewhere => ?_))
  refine .bind (balance_concurs alike elsewhere token) (fun held => ?_)
  refine .ite (fun _ => .throw _) (fun _ => .ite (fun _ => .pure _) (fun _ => ?_))
  refine .bind (balance_concurs alike.later apart token) (fun received => atomically_concurs ?_)
  have settling := alike.later.later
  refine .bind (setBalance_concurs settling token _) (fun _ => within_concurs apart ?_)
  exact setBalance_concurs settling.later.later token _

end Token

end ContractHost
