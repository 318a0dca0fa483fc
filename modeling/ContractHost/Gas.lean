import ContractHost.Call
import ContractHost.Failure

/-! Gas: what each operation costs, and the tracker of one call's limit, use and refunds. Amounts are 64-bit
words; sums and products that do not fit are capped at the largest word. -/

namespace ContractHost

structure GasSchedule where
  storePerByte : UInt64 := 50
  persistPerByte : UInt64 := 10
  releasePerByte : UInt64 := 10
  compilePerByte : UInt64 := 4
  storageStore : UInt64 := 75
  storageLoad : UInt64 := 50
  getArgument : UInt64 := 10
  finish : UInt64 := 10
  transferValue : UInt64 := 100
  writeLog : UInt64 := 100
  tokenTransfer : UInt64 := 200
  executeOnSameContext : UInt64 := 100
  executeOnDestinationContext : UInt64 := 100
  callFinalCost : UInt64 := 20
  deriving DecidableEq, Repr, Inhabited

namespace Gas

def most : Nat := UInt64.size - 1

/-- The amount itself if it fits, the largest one otherwise. -/
def capped (amount : Nat) : UInt64 := UInt64.ofNat (min amount most)

def add (left right : UInt64) : UInt64 := capped (left.toNat + right.toNat)

def mul (left right : UInt64) : UInt64 := capped (left.toNat * right.toNat)

/-- What remains, nothing if more is taken than there is. -/
def sub (left right : UInt64) : UInt64 := UInt64.ofNat (left.toNat - right.toNat)

theorem toNat_capped (amount : Nat) : (capped amount).toNat = min amount most := by
  have : min amount most < 2 ^ 64 := by simp only [most, UInt64.size]; omega
  simp only [capped, UInt64.toNat_ofNat']
  omega

theorem toNat_add (left right : UInt64) : (add left right).toNat = min (left.toNat + right.toNat) most :=
  toNat_capped _

theorem toNat_mul (left right : UInt64) : (mul left right).toNat = min (left.toNat * right.toNat) most :=
  toNat_capped _

theorem toNat_sub (left right : UInt64) : (sub left right).toNat = left.toNat - right.toNat := by
  have : left.toNat < 2 ^ 64 := left.toNat_lt
  simp only [sub, UInt64.toNat_ofNat']
  omega

end Gas

namespace GasSchedule

def costNames : List String :=
  ["store_per_byte", "persist_per_byte", "release_per_byte", "compile_per_byte", "storage_store", "storage_load",
   "get_argument", "finish", "transfer_value", "write_log", "esdt_transfer", "execute_on_same_context",
   "execute_on_dest_context", "call_final_cost"]

def costs (schedule : GasSchedule) : List UInt64 :=
  [schedule.storePerByte, schedule.persistPerByte, schedule.releasePerByte, schedule.compilePerByte,
   schedule.storageStore, schedule.storageLoad, schedule.getArgument, schedule.finish, schedule.transferValue,
   schedule.writeLog, schedule.tokenTransfer, schedule.executeOnSameContext,
   schedule.executeOnDestinationContext, schedule.callFinalCost]

def ofCosts? : List UInt64 → Option GasSchedule
  | [storePerByte, persistPerByte, releasePerByte, compilePerByte, storageStore, storageLoad, getArgument, finish,
     transferValue, writeLog, tokenTransfer, executeOnSameContext, executeOnDestinationContext, callFinalCost] =>
    some { storePerByte, persistPerByte, releasePerByte, compilePerByte, storageStore, storageLoad, getArgument,
           finish, transferValue, writeLog, tokenTransfer, executeOnSameContext, executeOnDestinationContext,
           callFinalCost }
  | _ => none

def zero : GasSchedule := ⟨0, 0, 0, 0, 0, 0, 0, 0, 0, 0, 0, 0, 0, 0⟩

def compileCost (schedule : GasSchedule) (size : UInt64) : UInt64 := Gas.mul schedule.compilePerByte size

/-- The cost of making a nested call, apart from the gas handed to it. -/
def callCost (schedule : GasSchedule) : Context → UInt64
  | .same => schedule.executeOnSameContext
  | .destination => schedule.executeOnDestinationContext

end GasSchedule

structure GasTracker where
  limit : UInt64
  used : UInt64 := 0
  freed : UInt64 := 0
  deriving DecidableEq, Repr, Inhabited

namespace GasTracker

def gasLeft (tracker : GasTracker) : UInt64 := tracker.limit - tracker.used

def isOutOfGas (tracker : GasTracker) : Bool := tracker.limit ≤ tracker.used

/-- Use gas. A charge that exceeds the limit fails, reporting the attempted total, and uses up the rest. -/
def charge (tracker : GasTracker) (amount : UInt64) : Except Failure Unit × GasTracker :=
  let total := tracker.used.toNat + amount.toNat
  if total ≤ tracker.limit.toNat then
    (.ok (), { tracker with used := tracker.used + amount })
  else
    (.error (.outOfGas (Gas.capped total) tracker.limit), { tracker with used := tracker.limit })

/-- Note gas that released storage gives back at the end. -/
def free (tracker : GasTracker) (amount : UInt64) : GasTracker :=
  { tracker with freed := Gas.add tracker.freed amount }

/-- Give back gas charged before, such as the unused part of a reservation. -/
def restore (tracker : GasTracker) (amount : UInt64) : GasTracker :=
  { tracker with used := Gas.sub tracker.used amount }

/-- Take back what a finished call did not use, and its refunds. -/
def absorb (parent child : GasTracker) : GasTracker :=
  (parent.restore child.gasLeft).free child.freed

end GasTracker

end ContractHost
