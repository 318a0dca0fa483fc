import ContractHost.Failure

/-! Contracts as the host sees them: the functions they export, what they tell about them, and the bodies that
run. Code bytes are turned into a contract by a builder. -/

namespace ContractHost

structure Signature where
  inputs : Nat := 0
  outputs : Nat := 0
  deriving DecidableEq, Repr, Inhabited

def Signature.isVoid (signature : Signature) : Bool := signature.inputs == 0 && signature.outputs == 0

/-- What a contract declares about itself before any of its code runs. -/
structure Interface where
  hasMemory : Bool
  exports : List String
  signature? : String → Option Signature

structure Instance (β : Type) where
  interface : Interface
  body? : String → Option β

structure Contract (β : Type) where
  functions : SortedMap String β := .empty
  signatures : SortedMap String Signature := .empty
  hasMemory : Bool := true

namespace Contract

variable {β : Type}

/-- Export a function; it takes and returns nothing unless a signature says otherwise. -/
def withFunction (contract : Contract β) (name : String) (body : β) : Contract β :=
  { contract with functions := contract.functions.insert name body }

/-- Report a signature for an export, which need not have a body. -/
def withSignature (contract : Contract β) (name : String) (signature : Signature) : Contract β :=
  { contract with signatures := contract.signatures.insert name signature }

def withoutMemory (contract : Contract β) : Contract β := { contract with hasMemory := false }

/-- The functions with a body, then the names that only have a signature, both in ascending order. -/
def exports (contract : Contract β) : List String :=
  contract.functions.keys ++ contract.signatures.keys.filter (fun name => !contract.functions.contains name)

def signature? (contract : Contract β) (name : String) : Option Signature :=
  (contract.signatures.find? name).or (if contract.functions.contains name then some {} else none)

def interface (contract : Contract β) : Interface :=
  { hasMemory := contract.hasMemory, exports := contract.exports, signature? := contract.signature? }

def instantiate (contract : Contract β) : Instance β :=
  { interface := contract.interface, body? := contract.functions.find? }

end Contract

abbrev Builder (β : Type) := Bytes → Except Failure (Instance β)

/-- A builder that knows contracts by their exact code. -/
def Builder.ofContracts {β : Type} (contracts : SortedMap Bytes (Contract β)) : Builder β := fun code =>
  match contracts.find? code with
  | some contract => .ok contract.instantiate
  | none => .error .contractInvalid

end ContractHost
