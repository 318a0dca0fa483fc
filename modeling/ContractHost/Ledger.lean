import ContractHost.CodeMetadata
import ContractHost.Failure

/-! The ledger that transactions read from and that successful outputs are applied to. It may fail what it is asked
for, as a remote ledger may: always, once, or for a single account or cell. Between the operations of running code
all of it may change. -/

namespace ContractHost

structure LedgerAccount where
  nonce : UInt64 := 0
  balance : Nat := 0
  code : Bytes := []
  metadata : CodeMetadata := {}
  storage : SortedMap Bytes Bytes := .empty
  deriving DecidableEq

namespace LedgerAccount

/-- Empty content clears a cell. -/
def store (account : LedgerAccount) (key value : Bytes) : LedgerAccount :=
  { account with
    storage := if value.isEmpty then account.storage.erase key else account.storage.insert key value }

/-- Nonces only grow, and a balance stays at zero where a delta would take more than there is. -/
def apply (account : LedgerAccount) (change : AccountChange) : LedgerAccount :=
  let settled :=
    { account with
      nonce := max account.nonce change.nonce
      balance := ((account.balance : Int) + change.balanceDelta).toNat }
  change.updates.values.foldl (fun account update => account.store update.offset update.data) settled

end LedgerAccount

inductive LedgerRequest where
  | account (address : Address)
  | code (address : Address)
  | cell (address : Address) (key : Bytes)

/-- A fault of a kind of request lasts. Apart from that, the requests that an operation makes one after another are
numbered, and each of them may fail or be answered regardless of the others. -/
structure Ledger where
  accounts : SortedMap Address LedgerAccount := .empty
  storageFault : Option LedgerFault := none
  accountFault : Option LedgerFault := none
  lapse? : Nat → LedgerRequest → Option LedgerFault := fun _ _ => none

instance : Inhabited Ledger := ⟨{}⟩

namespace Ledger

/-- How the ledger fails a request, if it does. -/
def fault? (ledger : Ledger) (request : LedgerRequest) : Option LedgerFault :=
  let lasting :=
    match request with
    | .cell .. => ledger.storageFault
    | .account _ | .code _ => ledger.accountFault
  lasting.or (ledger.lapse? 0 request)

/-- The ledger as the next request of an operation finds it. -/
def later (ledger : Ledger) : Ledger := { ledger with lapse? := fun number => ledger.lapse? (number + 1) }

def account? (ledger : Ledger) (address : Address) : Option LedgerAccount := ledger.accounts.find? address

/-- The content of a storage cell; an absent cell is empty. -/
def stored (ledger : Ledger) (address : Address) (key : Bytes) : Bytes :=
  ((ledger.account? address).bind (fun account => account.storage.find? key)).getD []

/-- The balance of an account; one that does not exist has nothing. -/
def balance (ledger : Ledger) (address : Address) : Nat :=
  ((ledger.account? address).map (·.balance)).getD 0

def readStorage (ledger : Ledger) (address : Address) (key : Bytes) : Except LedgerFault Bytes :=
  match ledger.fault? (.cell address key) with
  | some fault => .error fault
  | none => .ok (ledger.stored address key)

def readAccount (ledger : Ledger) (address : Address) : Except LedgerFault (Option LedgerAccount) :=
  match ledger.fault? (.account address) with
  | some fault => .error fault
  | none => .ok (ledger.account? address)

def readCode (ledger : Ledger) (address : Address) : Except LedgerFault Bytes :=
  match ledger.fault? (.code address) with
  | some fault => .error fault
  | none => .ok (((ledger.account? address).map (·.code)).getD [])

def setAccount (ledger : Ledger) (address : Address) (account : LedgerAccount) : Ledger :=
  { ledger with accounts := ledger.accounts.insert address account }

def modifyAccount (ledger : Ledger) (address : Address) (change : LedgerAccount → LedgerAccount) : Ledger :=
  ledger.setAccount address (change ((ledger.account? address).getD {}))

def addAccount (ledger : Ledger) (address : Address) (balance : Nat) : Ledger :=
  ledger.setAccount address { balance }

def addContract (ledger : Ledger) (address : Address) (code : Bytes) (metadata : CodeMetadata) : Ledger :=
  ledger.setAccount address { code, metadata }

def setBalance (ledger : Ledger) (address : Address) (balance : Nat) : Ledger :=
  ledger.modifyAccount address (fun account => { account with balance })

def setStorage (ledger : Ledger) (address : Address) (key value : Bytes) : Ledger :=
  ledger.modifyAccount address (·.store key value)

/-- Commit a successful output; any other changes nothing. -/
def apply (ledger : Ledger) (output : Output) : Ledger :=
  if output.code.isOk then
    output.accounts.entries.foldl (fun ledger entry => ledger.modifyAccount entry.1 (·.apply entry.2)) ledger
  else ledger

end Ledger

end ContractHost
