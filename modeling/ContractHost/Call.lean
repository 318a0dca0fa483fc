import ContractHost.Address

/-! Calls into a contract: who calls whom, with what, and in which context the code runs. -/

namespace ContractHost

inductive CallKind where
  | direct
  | sameContext
  | destinationContext
  deriving DecidableEq, Repr, Inhabited

namespace CallKind

/-- The name under which files and messages carry the kind. -/
def name : CallKind → String
  | .direct => "DirectCall"
  | .sameContext => "ExecuteOnSameContext"
  | .destinationContext => "ExecuteOnDestContext"

def all : List CallKind := [.direct, .sameContext, .destinationContext]

def ofName? (name : String) : Option CallKind := all.find? (fun kind => kind.name == name)

end CallKind

/-- The two contexts a running contract can call into: its own storage and output, or the recipient's
storage behind an output of its own. -/
inductive Context where
  | same
  | destination
  deriving DecidableEq, Repr

def Context.kind : Context → CallKind
  | .same => .sameContext
  | .destination => .destinationContext

structure CallInput where
  caller : Address := .zero
  recipient : Address := .zero
  function : String := ""
  arguments : List Bytes := []
  value : Nat := 0
  kind : CallKind := .direct
  gas : UInt64 := 0
  deriving DecidableEq, Inhabited

end ContractHost
