import ContractHost.Storage

/-! Contract code as a program over the host's interface. Each request names an operation and goes on with the
reply, or with the failure, which the code may handle. Code may also consult its environment, which sees the
host's state and may change the ledger, but never the state itself. -/

namespace ContractHost

inductive Operation where
  | store (key value : Bytes)
  | load (key : Bytes)
  | loadFrom (address : Address) (key : Bytes)
  | argument (index : Nat)
  | arguments
  | caller
  | contract
  | callValue
  | finish (data : Bytes)
  | transfer (destination : Address) (value : Nat)
  | log (topics : List Bytes) (data : Bytes)
  | useGas (amount : UInt64)
  | gasLeft
  | isReadOnly
  | setReadOnly (on : Bool)
  | call (context : Context) (input : CallInput)
  | tokenBalance (address : Address) (token : Bytes)
  | tokenMint (token : Bytes) (amount : Nat)
  | tokenTransfer (token : Bytes) (destination : Address) (amount : Nat)

abbrev Operation.Reply : Operation → Type
  | .store .. => StorageStatus
  | .load _ | .loadFrom .. | .argument _ => Bytes
  | .arguments => List Bytes
  | .caller | .contract => Address
  | .callValue | .tokenBalance .. => Nat
  | .gasLeft => UInt64
  | .isReadOnly => Bool
  | _ => Unit

/-- What surrounds a host: questions that code may put besides the host's interface, answered from the state of
the host, the ledger and a memory of the environment's own. -/
structure Environment where
  Question : Type
  Answer : Question → Type
  Memory : Type
  respond : (question : Question) → Machine → Ledger → Memory → Answer question × Ledger × Memory

/-- No questions, nothing remembered. -/
def Environment.silent : Environment where
  Question := Empty
  Answer := fun _ => Unit
  Memory := Unit
  respond := fun question => nomatch question

/-- Code that ends with a value or a failure. -/
inductive Program (environment : Environment) (α : Type) : Type where
  | done (value : α)
  | fail (failure : Failure)
  | request (operation : Operation) (next : Except Failure operation.Reply → Program environment α)
  | consult (question : environment.Question) (next : environment.Answer question → Program environment α)

namespace Program

variable {environment : Environment} {α β : Type}

/-- Go on with `next` where the program ends with a value. -/
def bind (program : Program environment α) (next : α → Program environment β) : Program environment β :=
  match program with
  | .done value => next value
  | .fail failure => .fail failure
  | .request operation rest => .request operation (fun reply => (rest reply).bind next)
  | .consult question rest => .consult question (fun answer => (rest answer).bind next)

/-- Hand the outcome over as a value, so that a failure does not end the program. -/
def attempt (program : Program environment α) : Program environment (Except Failure α) :=
  match program with
  | .done value => .done (.ok value)
  | .fail failure => .done (.error failure)
  | .request operation rest => .request operation (fun reply => (rest reply).attempt)
  | .consult question rest => .consult question (fun answer => (rest answer).attempt)

def ofExcept : Except Failure α → Program environment α
  | .ok value => .done value
  | .error failure => .fail failure

def perform (operation : Operation) : Program environment operation.Reply := .request operation ofExcept

def ask (question : environment.Question) : Program environment (environment.Answer question) :=
  .consult question .done

instance : Monad (Program environment) where
  pure := .done
  bind := .bind

theorem bind_done (program : Program environment α) : program.bind .done = program := by
  induction program with
  | done value => rfl
  | fail failure => rfl
  | request operation rest ih => simp only [bind]; congr 1; funext reply; exact ih reply
  | consult question rest ih => simp only [bind]; congr 1; funext answer; exact ih answer

theorem bind_assoc {γ : Type} (program : Program environment α) (first : α → Program environment β)
    (second : β → Program environment γ) :
    (program.bind first).bind second = program.bind (fun value => (first value).bind second) := by
  induction program with
  | done value => rfl
  | fail failure => rfl
  | request operation rest ih => simp only [bind]; congr 1; funext reply; exact ih reply
  | consult question rest ih => simp only [bind]; congr 1; funext answer; exact ih answer

end Program

end ContractHost
