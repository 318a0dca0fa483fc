import ContractHost.Address.Text
import ContractHost.Output

/-! Why a call fails, how each cause is worded, and which return code it ends a transaction with. -/

namespace ContractHost

inductive LedgerFault where
  | tooManyRequests
  | accountNotFound (address : Address)
  | unavailable (reason : String)
  deriving DecidableEq

def LedgerFault.message : LedgerFault → String
  | .tooManyRequests => "too many requests"
  | .accountNotFound address => "account not found: " ++ address.describe
  | .unavailable reason => "ledger unavailable: " ++ reason

inductive Failure where
  | outOfGas (used limit : UInt64)
  | writeOnReadOnly
  | storeReservedKey
  | writeProtectedKey
  | emptyReservedPrefix
  | emptyProtectedPrefix
  | callDepthExceeded (depth : Nat)
  | codeSizeExceeded (size limit : Nat)
  | contractNotFound (contract : String)
  | contractInvalid
  | invalidFunctionName (name : String)
  | nonvoidSignature (name : String)
  | functionNotFound (name : String)
  | memoryMissing
  | insufficientFunds (available required : String)
  | argumentOutOfRange (index : Nat)
  | userError (message : String)
  | executionFailed (reason : String)
  | invalidConfig (reason : String)
  | ledger (fault : LedgerFault)
  deriving DecidableEq

namespace Failure

def message : Failure → String
  | .outOfGas used limit => "Out of gas: used " ++ toString used ++ ", limit " ++ toString limit
  | .writeOnReadOnly => "Cannot write storage in read-only mode"
  | .storeReservedKey => "Cannot store under the reserved key prefix"
  | .writeProtectedKey => "Cannot write to protected key"
  | .emptyReservedPrefix => "Reserved key prefix must not be empty"
  | .emptyProtectedPrefix => "Protected key prefix must not be empty"
  | .callDepthExceeded depth => "Call depth exceeded: " ++ toString depth
  | .codeSizeExceeded size limit => "Code size exceeded: " ++ toString size ++ " > " ++ toString limit
  | .contractNotFound contract => "Contract not found: " ++ contract
  | .contractInvalid => "Contract invalid"
  | .invalidFunctionName name => "Invalid function name: " ++ name
  | .nonvoidSignature name => "Function has non-void signature: " ++ name
  | .functionNotFound name => "Function not found: " ++ name
  | .memoryMissing => "Memory declaration missing"
  | .insufficientFunds available required =>
    "Insufficient funds: available " ++ available ++ ", required " ++ required
  | .argumentOutOfRange index => "Argument index out of range: " ++ toString index
  | .userError message => "User error: " ++ message
  | .executionFailed reason => "Execution failed: " ++ reason
  | .invalidConfig reason => "Invalid configuration: " ++ reason
  | .ledger fault => fault.message

def returnCode : Failure → ReturnCode
  | .outOfGas .. => .outOfGas
  | .callDepthExceeded _ => .callStackOverflow
  | .contractNotFound _ => .contractNotFound
  | .contractInvalid | .invalidFunctionName _ | .memoryMissing | .codeSizeExceeded .. => .contractInvalid
  | .nonvoidSignature _ => .functionWrongSignature
  | .functionNotFound _ => .functionNotFound
  | .insufficientFunds .. => .outOfFunds
  | .writeOnReadOnly | .storeReservedKey | .writeProtectedKey | .argumentOutOfRange _ | .userError _ => .userError
  | .emptyReservedPrefix | .emptyProtectedPrefix | .executionFailed _ | .invalidConfig _ | .ledger _ =>
    .executionFailed

end Failure

/-- A failed transaction has no effects, and neither gas nor refund is left. -/
def Output.failed (failure : Failure) : Output :=
  { code := failure.returnCode, message := failure.message }

theorem Failure.returnCode_ne_ok (failure : Failure) : failure.returnCode ≠ .ok := by
  cases failure <;> simp [returnCode]

end ContractHost
