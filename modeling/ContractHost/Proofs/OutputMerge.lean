import ContractHost.Output
import ContractHost.Proofs.SortedMap

/-! Merging outputs: it may be grouped in any way, the empty output changes nothing, and a merged output answers
with what the later part says, or else with what the earlier one does. -/

namespace ContractHost

namespace AccountChange

private theorem toNat_max (left right : UInt64) : (max left right).toNat = max left.toNat right.toNat := by
  change (if left ≤ right then right else left).toNat = _
  split
  next below => rw [UInt64.le_iff_toNat_le] at below; omega
  next above => rw [UInt64.le_iff_toNat_le] at above; omega

theorem nonce_assoc (first second third : UInt64) : max (max first second) third = max first (max second third) := by
  apply UInt64.toNat.inj
  simp only [toNat_max]
  omega

private theorem merge_assoc (first second third : AccountChange) :
    (first.merge second).merge third = first.merge (second.merge third) := by
  have updates := SortedMap.union_assoc (fun _ later => later) (fun _ _ _ => rfl)
    first.updates second.updates third.updates
  simp only [merge, nonce_assoc, updates, UInt64.add_assoc, Int.add_assoc, Bool.or_assoc, Option.or_assoc]

private theorem merge_untouched (change : AccountChange) (address : Address) :
    change.merge { address } = change := by
  have nonce : max change.nonce 0 = change.nonce := by
    apply UInt64.toNat.inj
    rw [toNat_max]
    exact Nat.max_zero _
  simp only [merge, nonce, SortedMap.union_empty, Option.none_or, Int.add_zero, UInt64.add_zero, Bool.or_false]

/-- A change that comes to the same whether it is made before or after the earlier part is merged in. -/
def Trailing (change : AccountChange → AccountChange) : Prop :=
  ∀ earlier later : AccountChange, earlier.merge (change later) = change (earlier.merge later)

theorem trailing_id : Trailing id := fun _ _ => rfl

theorem trailing_write (key data : Bytes) : Trailing (·.write key data) := by
  intro earlier later
  have updates : earlier.updates.union (fun _ later => later) (later.updates.insert key ⟨key, data⟩) =
      (earlier.updates.union (fun _ later => later) later.updates).insert key ⟨key, data⟩ := by
    apply SortedMap.ext_find?
    intro other
    simp only [SortedMap.find?_union, SortedMap.find?_insert]
    split
    · cases earlier.updates.find? other <;> rfl
    · rfl
  simp only [write, merge, updates]

theorem trailing_count (added deleted : UInt64) :
    Trailing (fun change =>
      { change with bytesAdded := change.bytesAdded + added, bytesDeleted := change.bytesDeleted + deleted }) :=
  fun earlier later => by simp only [merge, UInt64.add_assoc]

theorem trailing_note (balance : Int) : Trailing (fun change => { change with balance := some balance }) :=
  fun earlier later => by simp only [merge, Option.some_or]

theorem trailing_credit (amount : Int) :
    Trailing (fun change => { change with balanceDelta := change.balanceDelta + amount }) :=
  fun earlier later => by simp only [merge, Int.add_assoc]

theorem Trailing.comp {first second : AccountChange → AccountChange} (last : Trailing second)
    (before : Trailing first) : Trailing (second ∘ first) :=
  fun earlier later => (last earlier (first later)).trans (congrArg second (before earlier later))

end AccountChange

namespace Output

theorem merge_assoc (first second third : Output) :
    (first.merge second).merge third = first.merge (second.merge third) := by
  have accounts := SortedMap.union_assoc _ AccountChange.merge_assoc
    first.accounts second.accounts third.accounts
  simp only [merge, accounts, List.append_assoc]

theorem merge_empty (output : Output) : output.merge {} = output := by
  simp only [merge, SortedMap.union_empty, List.append_nil]

theorem account?_merge (earlier later : Output) (address : Address) :
    (earlier.merge later).account? address =
      Option.merge AccountChange.merge (earlier.account? address) (later.account? address) :=
  SortedMap.find?_union _ _ _ _

theorem account?_modifyAccount (output : Output) (address other : Address)
    (change : AccountChange → AccountChange) :
    (output.modifyAccount address change).account? other =
      if other = address then some (change (output.account address)) else output.account? other :=
  SortedMap.find?_insert _ _ _ _

theorem merge_modifyAccount {change : AccountChange → AccountChange} (trailing : AccountChange.Trailing change)
    (earlier later : Output) (address : Address) :
    earlier.merge (later.modifyAccount address change) = (earlier.merge later).modifyAccount address change := by
  have accounts : (earlier.merge (later.modifyAccount address change)).accounts =
      ((earlier.merge later).modifyAccount address change).accounts := by
    apply SortedMap.ext_find?
    intro other
    change (earlier.merge (later.modifyAccount address change)).account? other =
      ((earlier.merge later).modifyAccount address change).account? other
    rw [account?_merge, account?_modifyAccount, account?_modifyAccount]
    split
    next same =>
      subst same
      simp only [account, account?_merge]
      cases earlier.account? other with
      | none => cases later.account? other <;> rfl
      | some before =>
        cases later.account? other with
        | none =>
          simp only [Option.merge, Option.getD_none, Option.getD_some]
          rw [trailing, AccountChange.merge_untouched]
        | some after =>
          simp only [Option.merge, Option.getD_some]
          rw [trailing]
    next => rw [account?_merge]
  calc earlier.merge (later.modifyAccount address change)
      = { earlier.merge later with accounts := (earlier.merge (later.modifyAccount address change)).accounts } := rfl
    _ = (earlier.merge later).modifyAccount address change := by rw [accounts]; rfl

theorem written?_merge (earlier later : Output) (address : Address) (key : Bytes) :
    (earlier.merge later).written? address key = (later.written? address key).or (earlier.written? address key) := by
  simp only [written?, account?_merge]
  cases earlier.account? address with
  | none => cases later.account? address <;> simp [Option.merge]
  | some before =>
    cases later.account? address with
    | none => simp [Option.merge]
    | some after =>
      simp only [Option.merge, Option.bind_some, AccountChange.merge, SortedMap.find?_union]
      cases before.updates.find? key <;> cases after.updates.find? key <;> rfl

end Output

end ContractHost
