import ContractHost.Contract

/-! The gate that every contract passes before its code runs: it declares memory, all its exports have proper
names and take and return nothing, and none of them has a name that the host keeps for itself. -/

namespace ContractHost

/-- The names that no contract may export because the host answers to them. -/
structure Gate where
  reserved : List String

namespace Gate

/-- The one export that may take and return values. -/
def allocator : String := "alloc"

/-- Names that mark a contract as invalid. -/
def forbidden : List String :=
  ["internalVMErrors", "transferValueOnly", "writeLog", "signalError", "completedTxEvent"]

/-- A name is shorter than this, in bytes. -/
def nameLimit : Nat := 256

def hostNames : List String :=
  ["storageStore", "storageLoad", "storageLoadFromAddress", "getArgument", "getNumArguments", "getCaller",
   "getSCAddress", "getCallValue", "finish", "transferValue", "writeLog", "useGas", "getGasLeft", "signalError",
   "setReadOnly", "executeOnSameContext", "executeOnDestContext"]

def builtinNames : List String := ["ESDTTransfer", "ESDTLocalMint", "ESDTBalance"]

def standard : Gate := ⟨hostNames ++ builtinNames⟩

def isReserved (gate : Gate) (name : String) : Bool := gate.reserved.contains name

def isAscii (name : String) : Bool := name.toList.all (fun char => char.toNat < 128)

def verifyName (gate : Gate) (name : String) : Except Failure Unit :=
  if !name.isEmpty && name.utf8ByteSize < nameLimit && isAscii name && !gate.isReserved name then .ok ()
  else .error (.invalidFunctionName name)

def verifyVoid (interface : Interface) (name : String) : Except Failure Unit :=
  match interface.signature? name with
  | none => .error (.functionNotFound name)
  | some signature => if signature.isVoid then .ok () else .error (.nonvoidSignature name)

def verifyExport (gate : Gate) (interface : Interface) (name : String) : Except Failure Unit := do
  gate.verifyName name
  if name = allocator then return () else verifyVoid interface name

def verifyMemory (interface : Interface) : Except Failure Unit :=
  if interface.hasMemory then .ok () else .error .memoryMissing

/-- The first export at fault decides the failure. -/
def verifyFunctions (gate : Gate) (interface : Interface) : Except Failure Unit :=
  interface.exports.forM (gate.verifyExport interface)

def verifyForbidden (interface : Interface) : Except Failure Unit :=
  if interface.exports.any forbidden.contains then .error .contractInvalid else .ok ()

/-- The whole check, in the order in which its failures are reported. -/
def verify (gate : Gate) (interface : Interface) : Except Failure Unit := do
  verifyMemory interface
  gate.verifyFunctions interface
  verifyForbidden interface

end Gate

end ContractHost
