import ContractHost.Proofs.Commit

/-! Committing in sequence. Two outputs may be merged before they are committed or committed one after the other: the
later one decides each cell that both wrote, the deltas add up as long as nothing is overdrawn on the way, and a nonce
is the largest that either asked for. -/

namespace ContractHost

namespace LedgerAccount

/-- Changes that are filed by their own offsets settle alike, merged or in sequence. -/
theorem apply_merge {first second : AccountChange} {address : Address} (before : first.FiledAt address)
    (after : second.FiledAt address) (account : LedgerAccount)
    (covered : 0 ≤ (account.balance : Int) + first.balanceDelta) :
    account.apply (first.merge second) = (account.apply first).apply second := by
  have nonce : max account.nonce (max first.nonce second.nonce) = max (account.apply first).nonce second.nonce := by
    rw [apply_rest account first, AccountChange.nonce_assoc]
  have balance : ((account.balance : Int) + (first.balanceDelta + second.balanceDelta)).toNat =
      (((account.apply first).balance : Int) + second.balanceDelta).toNat := by
    rw [balance_apply, Int.toNat_of_nonneg covered, Int.add_assoc]
  have storage : (account.apply (first.merge second)).storage = ((account.apply first).apply second).storage := by
    apply SortedMap.ext_find?
    intro key
    rw [find?_apply (before.merge after), find?_apply after, find?_apply before]
    change ((first.updates.union (fun _ later => later) second.updates).find? key).elim _ _ = _
    rw [SortedMap.find?_union]
    cases first.updates.find? key <;> cases second.updates.find? key <;> rfl
  rw [apply_rest account (first.merge second), apply_rest (account.apply first) second, ← storage, ← nonce, ← balance,
    apply_rest account first]
  rfl

end LedgerAccount

namespace Ledger

variable {ledger : Ledger} {earlier later : Output}

private theorem apply_rest (ledger : Ledger) (output : Output) :
    ledger.apply output = { ledger with accounts := (ledger.apply output).accounts } := by
  rw [apply]
  split
  next =>
    generalize output.accounts.entries = entries
    induction entries generalizing ledger with
    | nil => rfl
    | cons entry entries ih => exact ih _
  next => rfl

private theorem account_apply (ok : earlier.code.isOk) (address : Address) :
    ((ledger.apply earlier).account? address).getD {} =
      ((earlier.account? address).map (((ledger.account? address).getD {}).apply)).getD
        ((ledger.account? address).getD {}) := by
  rw [account?_apply ledger ok]
  cases earlier.account? address <;> rfl

private theorem account?_merge (ok : earlier.code.isOk) (okLater : later.code.isOk) (filed : earlier.Filed)
    (filedLater : later.Filed)
    (covered : ∀ address, 0 ≤ (ledger.balance address : Int) + earlier.balanceDelta address) (address : Address) :
    (ledger.apply (earlier.merge later)).account? address = ((ledger.apply earlier).apply later).account? address := by
  have okMerged : (earlier.merge later).code.isOk := ok
  rw [account?_apply ledger okMerged, account?_apply _ okLater, account_apply ok, account?_apply ledger ok,
    Output.account?_merge]
  cases before : earlier.account? address with
  | none => cases later.account? address <;> rfl
  | some first =>
    cases after : later.account? address with
    | none => rfl
    | some second =>
      have held : 0 ≤ (((ledger.account? address).getD {}).balance : Int) + first.balanceDelta := by
        have covers := covered address
        rw [balance, Output.balanceDelta, before] at covers
        cases found : ledger.account? address <;> rw [found] at covers <;> exact covers
      exact congrArg some (LedgerAccount.apply_merge (filed address first before) (filedLater address second after) _ held)

/-- Committing two outputs merged leaves the ledger that committing them in sequence leaves. -/
theorem merge_commits_in_sequence (ledger : Ledger) {earlier later : Output} (ok : earlier.code = .ok)
    (okLater : later.code = .ok) (filed : earlier.Filed) (filedLater : later.Filed)
    (covered : ∀ address, 0 ≤ (ledger.balance address : Int) + earlier.balanceDelta address) :
    ledger.apply (earlier.merge later) = (ledger.apply earlier).apply later := by
  have accounts : (ledger.apply (earlier.merge later)).accounts = ((ledger.apply earlier).apply later).accounts := by
    apply SortedMap.ext_find?
    exact account?_merge (beq_iff_eq.mpr ok) (beq_iff_eq.mpr okLater) filed filedLater covered
  rw [apply_rest ledger (earlier.merge later), accounts, apply_rest (ledger.apply earlier) later,
    apply_rest ledger earlier]

def purchase : Output :=
  (({} : Output).modifyAccount .zero (fun change => { change.write [7] [8] with nonce := 2, balanceDelta := -3 })).modifyAccount
    .second (fun change => { change with balanceDelta := 3 })

def clearance : Output :=
  ({} : Output).modifyAccount .zero
    (fun change => { (change.write [7] []).write [6] [9] with nonce := 1, balanceDelta := -2 })

def stockroom : Ledger := (Ledger.addAccount {} .zero 5).setStorage .zero [6] [5]

theorem clearance_commits_in_sequence :
    let applied := stockroom.apply (purchase.merge clearance)
    applied = (stockroom.apply purchase).apply clearance ∧ applied.balance .zero = 0 ∧ applied.balance .second = 3 ∧
      applied.cell? .zero [7] = none ∧ applied.cell? .zero [6] = some [9] := by
  have untouched : ({} : Output).Filed := Output.filed_lasting.empty
  have filed : purchase.Filed := by
    refine Output.Filed.modifyAccount (untouched.modifyAccount _ (fun held => ?_)) _ (fun held => ?_)
    · exact held.insert rfl rfl
    · exact ⟨held.address, held.offset⟩
  have filedLater : clearance.Filed := by
    refine untouched.modifyAccount _ (fun held => ?_)
    have cleared : ((({} : Output).account .zero).write [7] []).FiledAt .zero := held.insert rfl rfl
    exact cleared.insert rfl rfl
  have covered (address : Address) : 0 ≤ (stockroom.balance address : Int) + purchase.balanceDelta address := by
    rw [purchase, Output.balanceDelta_modifyAccount, Output.balanceDelta_modifyAccount]
    by_cases payer : address = .zero
    · rw [payer]
      decide +kernel
    · rw [if_neg payer]
      split
      next => exact Int.natCast_nonneg _ |>.trans (Int.le_add_of_nonneg_right (by decide +kernel))
      next => exact Int.natCast_nonneg _
  exact ⟨merge_commits_in_sequence stockroom rfl rfl filed filedLater covered, by decide +kernel⟩

end Ledger

end ContractHost
