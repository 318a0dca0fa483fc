import ContractHost.Address.Text

/-! What a deployed contract permits, stored on the ledger as two bytes of flags. -/

namespace ContractHost

structure CodeMetadata where
  upgradeable : Bool := false
  readable : Bool := false
  payable : Bool := false
  payableByContract : Bool := false
  deriving DecidableEq, Repr, Inhabited

namespace CodeMetadata

def isSet (mask byte : UInt8) : Bool := byte &&& mask != 0

/-- No bytes mean that nothing is permitted; bits without a meaning are passed over. -/
def ofBytes : Bytes → Except Malformed CodeMetadata
  | [] => .ok {}
  | [first, second] => .ok
    { upgradeable := isSet 1 first, readable := isSet 4 first,
      payable := isSet 2 second, payableByContract := isSet 4 second }
  | bytes => .error (.metadataLength bytes.length)

def flag (mask : UInt8) (on : Bool) : UInt8 := if on then mask else 0

def toBytes (metadata : CodeMetadata) : Bytes :=
  [flag 1 metadata.upgradeable ||| flag 4 metadata.readable,
   flag 2 metadata.payable ||| flag 4 metadata.payableByContract]

/-- Nothing permitted but reading the storage from outside. -/
def readableOnly : CodeMetadata := { readable := true }

theorem ofBytes_toBytes (metadata : CodeMetadata) : ofBytes metadata.toBytes = .ok metadata := by
  obtain ⟨upgradeable, readable, payable, payableByContract⟩ := metadata
  cases upgradeable <;> cases readable <;> cases payable <;> cases payableByContract <;> rfl

end CodeMetadata

end ContractHost
