import ContractHost.Failure

/-! The namespaces of storage keys. Keys under the reserved prefix are never written; keys under the protected
prefix are written by the host's own operations only. -/

namespace ContractHost

/-- An empty prefix would cover every key, so both prefixes have at least one byte. -/
structure KeySpaces where
  reservedPrefix : Bytes
  protectedPrefix : Bytes
  reserved_ne : reservedPrefix ≠ []
  protected_ne : protectedPrefix ≠ []

namespace KeySpaces

/-- An empty reserved prefix is reported before an empty protected one. -/
def ofPrefixes (reservedPrefix protectedPrefix : Bytes) : Except Failure KeySpaces :=
  if reserved : reservedPrefix = [] then .error .emptyReservedPrefix
  else if guarded : protectedPrefix = [] then .error .emptyProtectedPrefix
  else .ok ⟨reservedPrefix, protectedPrefix, reserved, guarded⟩

def isReserved (spaces : KeySpaces) (key : Bytes) : Bool := spaces.reservedPrefix.isPrefixOf key

def isProtected (spaces : KeySpaces) (key : Bytes) : Bool := spaces.protectedPrefix.isPrefixOf key

end KeySpaces

end ContractHost
