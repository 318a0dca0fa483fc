import ContractHost.Proofs.LayerContents
import ContractHost.Proofs.Solvency

/-! What is committed. A read resolves through the layers, a commit walks the one output that is left and files each
update by its own offset. They agree because whatever is entered in an output is entered under its own address and its
own offset, and because a transaction ends with no layer beneath the active one. -/

namespace ContractHost

variable {environment : Environment}

/-- The content of a cell in the ledger, where there is any: clearing a cell removes it. -/
def Bytes.cell? (data : Bytes) : Option Bytes := if data = [] then none else some data

/-- The change is kept under the address that it names, and so is each update under its offset. -/
structure AccountChange.FiledAt (address : Address) (change : AccountChange) : Prop where
  address : change.address = address
  offset {key : Bytes} {update : StorageUpdate} : change.updates.find? key = some update → update.offset = key

theorem AccountChange.FiledAt.merge {address : Address} {first second : AccountChange} (before : first.FiledAt address)
    (after : second.FiledAt address) : (first.merge second).FiledAt address where
  address := before.address
  offset {key update} found := by
    change (first.updates.union (fun _ later => later) second.updates).find? key = _ at found
    rw [SortedMap.find?_union] at found
    cases later : second.updates.find? key with
    | none =>
      rw [later, Option.merge_none_right] at found
      exact before.offset found
    | some next =>
      have last : next = update := by
        rw [later] at found
        cases earlier : first.updates.find? key <;> rw [earlier] at found <;> exact Option.some.inj found
      exact after.offset (later.trans (congrArg some last))

theorem AccountChange.FiledAt.insert {address : Address} {before after : AccountChange} {key data : Bytes}
    (held : before.FiledAt address) (named : after.address = before.address)
    (updates : after.updates = before.updates.insert key ⟨key, data⟩) : after.FiledAt address where
  address := named.trans held.address
  offset {other update} found := by
    rw [updates, SortedMap.find?_insert] at found
    split at found
    next same =>
      cases found
      exact same.symm
    next => exact held.offset found

def Footprint.everything : Footprint := fun _ _ _ => True

namespace Output

def Filed (output : Output) : Prop :=
  ∀ address change, output.account? address = some change → change.FiledAt address

private theorem Filed.account {output : Output} (filed : output.Filed) (address : Address) :
    (output.account address).FiledAt address := by
  rw [Output.account]
  cases found : output.account? address with
  | none =>
    refine ⟨rfl, fun absurd => ?_⟩
    cases absurd
  | some change => exact filed address change found

theorem Filed.modifyAccount {output : Output} (filed : output.Filed) (address : Address)
    {change : AccountChange → AccountChange}
    (kept : (output.account address).FiledAt address → (change (output.account address)).FiledAt address) :
    (output.modifyAccount address change).Filed := by
  intro other changed found
  rw [account?_modifyAccount] at found
  split at found
  next same =>
    subst same
    cases found
    exact kept (filed.account other)
  next => exact filed other changed found

theorem filed_lasting : Lasting .everything Filed where
  empty _ _ absurd := nomatch absurd
  same accounts filed address change found := by
    refine filed address change ?_
    rwa [account?, accounts] at found
  modify address change kept filed := by
    refine filed.modifyAccount address (fun held => ?_)
    obtain ⟨named, updates⟩ := kept (account _ address)
    refine ⟨named.trans held.address, fun found => held.offset ?_⟩
    rwa [updates] at found
  record bill _ filed := by
    exact filed.modifyAccount _ (fun held => held.insert rfl rfl)
  merge {earlier later} first second address change found := by
    rw [account?_merge] at found
    cases before : earlier.account? address with
    | none =>
      rw [before, Option.merge_none_left] at found
      exact second address change found
    | some held =>
      cases after : later.account? address with
      | none =>
        rw [before, after] at found
        cases found
        exact first address _ before
      | some next =>
        rw [before, after] at found
        cases found
        exact (first address held before).merge (second address next after)

end Output

namespace LedgerAccount

private theorem find?_store (account : LedgerAccount) (key value other : Bytes) :
    (account.store key value).storage.find? other =
      if other = key then value.cell? else account.storage.find? other := by
  rw [store, Bytes.cell?]
  cases value with
  | nil => exact SortedMap.find?_erase _ _ _
  | cons first rest => exact SortedMap.find?_insert _ _ _ _

/-- Updates that are filed by their own offsets each reach their own cell. -/
theorem find?_updated {entries : List (Bytes × StorageUpdate)}
    (ascending : entries.Pairwise (fun earlier later => compare earlier.1 later.1 = .lt))
    (filed : ∀ entry ∈ entries, entry.2.offset = entry.1) (account : LedgerAccount) (key : Bytes) :
    ((entries.map (·.2)).foldl (fun held update => held.store update.offset update.data) account).storage.find? key =
      (SortedMap.lookup key entries).elim (account.storage.find? key) (fun update => Bytes.cell? update.data) := by
  induction entries generalizing account with
  | nil => rfl
  | cons first rest ih =>
    obtain ⟨held, update⟩ := first
    rw [List.pairwise_cons] at ascending
    obtain ⟨own, others⟩ := List.forall_mem_cons.mp filed
    change update.offset = held at own
    rw [List.map_cons, List.foldl_cons, ih ascending.2 others, find?_store, own, SortedMap.lookup_cons]
    by_cases same : key = held
    · subst same
      rw [SortedMap.lookup_of_below ascending.1, if_pos rfl, if_pos rfl]
      rfl
    · rw [if_neg same, if_neg same]

theorem find?_apply {change : AccountChange} {address : Address} (filed : change.FiledAt address)
    (account : LedgerAccount) (key : Bytes) :
    (account.apply change).storage.find? key =
      (change.updates.find? key).elim (account.storage.find? key) (fun update => Bytes.cell? update.data) := by
  refine find?_updated change.updates.ascending ?_ _ key
  rintro ⟨offset, update⟩ member
  exact filed.offset (SortedMap.mem_entries_iff.mp member)

end LedgerAccount

namespace Ledger

variable {ledger : Ledger} {output : Output}

/-- The content of a cell, where it has any. -/
def cell? (ledger : Ledger) (address : Address) (key : Bytes) : Option Bytes :=
  (ledger.account? address).bind (fun account => account.storage.find? key)

private theorem cell?_apply (ok : output.code.isOk) (filed : output.Filed) (address : Address) (key : Bytes) :
    (ledger.apply output).cell? address key =
      (output.written? address key).elim (ledger.cell? address key) Bytes.cell? := by
  rw [cell?, account?_apply ledger ok, Output.written?]
  cases changed : output.account? address with
  | none => rfl
  | some change =>
    change (((ledger.account? address).getD {}).apply change).storage.find? key =
      ((change.updates.find? key).map _).elim _ _
    have held : ((ledger.account? address).getD {}).storage.find? key = ledger.cell? address key := by
      rw [cell?]
      cases ledger.account? address <;> rfl
    rw [LedgerAccount.find?_apply (filed address change changed), held]
    cases change.updates.find? key <;> rfl

private theorem stored_apply (ok : output.code.isOk) (filed : output.Filed) (address : Address) (key : Bytes) :
    (ledger.apply output).stored address key =
      (output.written? address key).getD (ledger.stored address key) := by
  change ((ledger.apply output).cell? address key).getD [] = _
  rw [cell?_apply ok filed]
  cases output.written? address key with
  | none => rfl
  | some data =>
    change (Bytes.cell? data).getD [] = data
    cases data <;> rfl

/-- A commit leaves code alone, and an account that it opens has none. -/
theorem code_apply (ok : output.code.isOk) (address : Address) :
    (((ledger.apply output).account? address).getD {}).code = ((ledger.account? address).getD {}).code ∧
      (((ledger.apply output).account? address).getD {}).metadata = ((ledger.account? address).getD {}).metadata := by
  rw [account?_apply ledger ok]
  cases output.account? address with
  | none => exact ⟨rfl, rfl⟩
  | some change =>
    change (LedgerAccount.apply _ change).code = _ ∧ (LedgerAccount.apply _ change).metadata = _
    rw [LedgerAccount.apply_rest]
    exact ⟨rfl, rfl⟩

end Ledger

namespace Storage

private theorem readAt_refused {ledger : Ledger} {address : Address} {key : Bytes} {machine after : Machine}
    {failure : Failure} (refused : readAt ledger address key machine = .error failure after) :
    ∃ fault, ledger.fault? (.cell address key) = some fault ∧ failure = .ledger fault := by
  simp only [readAt, Ledger.readStorage] at refused
  split at refused
  next => cases refused
  next =>
    cases faulty : ledger.fault? (.cell address key) with
    | none =>
      rw [faulty] at refused
      cases refused
    | some fault =>
      rw [faulty] at refused
      cases refused
      exact ⟨fault, rfl, rfl⟩

/-- A read answers with the content of its cell, unless it has to ask a ledger that refuses to answer. -/
theorem read_answers (ledger : Ledger) (key : Bytes) (machine : Machine) :
    Ensures (read ledger key) machine
      (fun read _ => read.1 = machine.layers.content ledger machine.storageAddress key)
      (fun failure _ => ∃ fault, ledger.fault? (.cell machine.storageAddress key) = some fault ∧
        failure = .ledger fault) := by
  have answered : Ensures (read ledger key) machine _ _ := read_ensures key machine
  simp only [Ensures] at answered ⊢
  cases run : read ledger key machine with
  | ok read after =>
    rw [run] at answered
    exact answered.2
  | error failure after => exact readAt_refused run

end Storage

namespace Host

variable (host : Host environment)

private theorem ending_bottom (input : CallInput) (world : World environment) :
    Layers.start.Framed (host.ending input world).machine.layers := by
  rcases host.ending_cases input world with refused | ⟨kept, -⟩
  · rw [refused]
    exact .refl _
  · exact kept.layers

private theorem run_ledger_steady {input : CallInput} {world : World environment}
    (steady : ∀ moment, host.Visits input world moment → moment.ledger = world.ledger) :
    (host.run input world).2.ledger = world.ledger := by
  rw [(host.run_settles input world).1]
  rcases host.ending_cases input world with refused | ⟨-, staged | ⟨moment, visited, ended⟩⟩
  · rw [refused]
  · exact staged.1
  · rw [← ended]
    exact steady moment visited

section Committed

variable {host} {input : CallInput} {world : World environment}

private theorem run_failed (notOk : (host.run input world).1.code ≠ .ok) :
    ∃ failure, (host.run input world).1 = .failed failure := by
  rcases (host.run_settles input world).2 with failed | result
  · exact failed
  · exact absurd (congrArg Output.code result) notOk

private theorem run_accounts (ok : (host.run input world).1.code = .ok) :
    (host.run input world).1.accounts = (host.ending input world).machine.layers.output.accounts := by
  rcases (host.run_settles input world).2 with ⟨failure, failed⟩ | result
  · rw [failed] at ok
    exact absurd ok failure.returnCode_ne_ok
  · rw [result]
    rfl

private theorem run_filed (ok : (host.run input world).1.code = .ok) : (host.run input world).1.Filed := by
  have every : (host.run input world).2.machine.layers.Every Output.Filed :=
    Output.filed_lasting.run (fun _ _ _ _ _ _ => trivial)
  rw [(host.run_settles input world).1] at every
  exact Output.filed_lasting.same (run_accounts ok) (Layers.every_iff.mp every).1

private theorem run_written (ok : (host.run input world).1.code = .ok) (address : Address) (key : Bytes) :
    (host.run input world).1.written? address key = (host.ending input world).machine.layers.written? address key := by
  rw [Layers.written?_bottom (host.ending_bottom input world), Output.written?, Output.account?, run_accounts ok]
  rfl

end Committed

/-- When a transaction succeeds, what a commit of its output leaves in every cell is what a read of the cell would have
answered at the end: what was written and not reverted, or else what the ledger held. Code and metadata stay. One that
fails commits nothing. -/
theorem run_commits_what_shows (input : CallInput) (world : World environment) :
    let last := (host.ending input world).machine
    let output := (host.run input world).1
    let ledger := (host.run input world).2.ledger
    let applied := ledger.apply output
    ((∀ moment, host.Visits input world moment → moment.ledger = world.ledger) → ledger = world.ledger) ∧
    (output.code = .ok →
      output.Filed ∧
      (∀ address key, applied.cell? address key =
        (last.layers.written? address key).elim (ledger.cell? address key) Bytes.cell?) ∧
      (∀ address key, Ensures (Storage.read ledger key) (last.setStorageAddress address)
        (fun read _ => read.1 = applied.stored address key)
        (fun failure _ => ∃ fault, ledger.fault? (.cell address key) = some fault ∧ failure = .ledger fault)) ∧
      ∀ address, ((applied.account? address).getD {}).code = ((ledger.account? address).getD {}).code ∧
        ((applied.account? address).getD {}).metadata = ((ledger.account? address).getD {}).metadata) ∧
    (output.code ≠ .ok → output.accounts = .empty ∧ output.data = [] ∧ output.logs = [] ∧ output.gasRemaining = 0 ∧
      output.gasRefund = 0 ∧ applied = ledger) := by
  intro last output ledger applied
  refine ⟨host.run_ledger_steady, fun ok => ?_, fun notOk => ?_⟩
  · have filed : output.Filed := run_filed ok
    have isOk : output.code.isOk := beq_iff_eq.mpr ok
    refine ⟨filed, fun address key => ?_, fun address key => ?_, fun address => Ledger.code_apply isOk address⟩
    · rw [← run_written ok]
      exact Ledger.cell?_apply isOk filed address key
    · refine (Storage.read_answers ledger key _).weaken ?_ (fun _ _ => id)
      intro read _ answered
      rw [answered, Ledger.stored_apply isOk filed, run_written ok]
      rfl
  · obtain ⟨failure, failed⟩ := run_failed notOk
    have stopped : output = .failed failure := failed
    have kept : applied = ledger := by
      simp only [applied, stopped, Ledger.apply_failed]
    rw [kept, stopped]
    exact ⟨rfl, rfl, rfl, rfl, rfl, rfl⟩

/-- One cell is written and another one is cleared. -/
def restocking : Host Environment.silent :=
  scripted .zero (.request (.store [7] [8]) fun _ => .request (.store [6] []) fun _ => .done ()) (.done ())

def stocked : World Environment.silent :=
  { World.scripted with ledger := World.scripted.ledger.setStorage .zero [6] [5] }

theorem restocking_commits :
    let ledger := (restocking.run {} stocked).2.ledger
    let applied := ledger.apply (restocking.run {} stocked).1
    ledger = stocked.ledger ∧ ledger.cell? .zero [6] = some [5] ∧ applied.cell? .zero [6] = none ∧
      applied.cell? .zero [7] = some [8] := by
  intro ledger applied
  obtain ⟨steady, commits, -⟩ := run_commits_what_shows restocking {} stocked
  have kept : ledger = stocked.ledger := steady (fun _ visited => restocking.visits_ledger visited)
  have cleared : (restocking.ending {} stocked).machine.layers.written? .zero [6] = some [] := by decide +kernel
  have written : (restocking.ending {} stocked).machine.layers.written? .zero [7] = some [8] := by decide +kernel
  obtain ⟨-, cells, -⟩ := commits (by decide +kernel)
  refine ⟨kept, ?_, ?_, ?_⟩
  · rw [kept]
    decide +kernel
  · exact (cells .zero [6]).trans (by rw [cleared]; rfl)
  · exact (cells .zero [7]).trans (by rw [written]; rfl)

end Host

end ContractHost
