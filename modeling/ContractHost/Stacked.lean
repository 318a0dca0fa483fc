/-! A state in force together with the states it was entered from. Every context of a running call is kept
this way: entering a nested call saves the state, and leaving it either goes back or drops what was saved. -/

namespace ContractHost

structure Stacked (α : Type) where
  active : α
  /-- What was saved, latest first. -/
  saved : List α := []
  deriving DecidableEq

namespace Stacked

variable {α : Type}

def depth (stack : Stacked α) : Nat := stack.saved.length

def modify (stack : Stacked α) (change : α → α) : Stacked α := { stack with active := change stack.active }

/-- Save the active state and go on with a state made from it. -/
def push (stack : Stacked α) (enter : α → α) : Stacked α := ⟨enter stack.active, stack.active :: stack.saved⟩

/-- Go back to the latest saved state; with none saved, stay. -/
def restore (stack : Stacked α) : Stacked α :=
  match stack.saved with
  | [] => stack
  | latest :: older => ⟨latest, older⟩

/-- Keep the active state and forget the latest saved one. -/
def forget (stack : Stacked α) : Stacked α := { stack with saved := stack.saved.tail }

/-- Go back to the latest saved state, changed by what the state being left leaves behind. -/
def restoreWith (stack : Stacked α) (combine : α → α → α) : Stacked α :=
  match stack.saved with
  | [] => stack
  | latest :: older => ⟨combine latest stack.active, older⟩

def restoreFirst (stack : Stacked α) : Stacked α := ⟨stack.saved.getLastD stack.active, []⟩

@[simp] theorem restore_push (stack : Stacked α) (enter : α → α) : (stack.push enter).restore = stack := rfl

end Stacked

end ContractHost
