import ContractHost.Proofs.LayerContents

/-! Where the pending cells come from. Each was written by a request that has been answered, under the policy and for the
account that were in force then. However the namespaces overlap, no pending key is under the reserved prefix, a pending
key under the protected prefix is that of a token's balance, and an account for which nothing was asked has no pending
cell at all. -/

namespace ContractHost

variable {environment : Environment}

namespace Output

def Within (writes : Footprint) (output : Output) : Prop :=
  ∀ address key data, output.written? address key = some data → writes address key data

private theorem written?_record (output : Output) (address other : Address) (bill : StorageBill)
    (key cell value : Bytes) :
    (output.modifyAccount address (·.record bill key value)).written? other cell =
      if other = address ∧ cell = key then some value else output.written? other cell := by
  rw [written?_updates, written?_updates, updates_modifyAccount]
  by_cases mine : other = address
  · subst mine
    rw [if_pos rfl, ← updates_account]
    change ((SortedMap.insert (output.account other).updates key (.mk key value)).find? cell).map _ = _
    rw [SortedMap.find?_insert]
    by_cases same : cell = key
    · rw [if_pos same, if_pos ⟨rfl, same⟩]
      rfl
    · rw [if_neg same, if_neg (fun both => same both.2)]
  · rw [if_neg mine, if_neg (fun both => mine both.1)]

private theorem within_lasting (writes : Footprint) : Lasting writes (Within writes) where
  empty _ _ _ absurd := nomatch absurd
  same accounts within address key data found := by
    refine within address key data ?_
    rwa [written?, account?, accounts] at found
  modify address change kept within other key data found := by
    rw [written?_updates, updates_unchanged _ _ _ (fun account => (kept account).2), ← written?_updates] at found
    exact within other key data found
  record bill written within other cell data found := by
    rw [written?_record] at found
    split at found
    next mine =>
      obtain ⟨rfl, rfl⟩ := mine
      cases found
      exact written
    next => exact within other cell data found
  merge first second address key data found := by
    rw [written?_merge] at found
    rcases Option.or_eq_some_iff.mp found with found | ⟨-, found⟩
    · exact second address key data found
    · exact first address key data found

end Output

namespace Moment

/-- The storage of an account is in scope, or tokens are about to be sent to it. -/
def Involves (moment : Moment environment) (address : Address) : Prop :=
  moment.world.machine.storageAddress = address ∨
    match moment.program with
    | .request (.tokenTransfer _ destination _) _ => destination = address
    | _ => False

def Books (moment : Moment environment) (token : Bytes) : Prop :=
  match moment.program with
  | .request (.tokenMint booked _) _ | .request (.tokenTransfer booked _ _) _ => booked = token
  | _ => False

variable {host : Host environment} {moment : Moment environment} {address : Address} {key data : Bytes}

/-- What a request has written is for an account that it involves and outside of the reserved namespace. Where the
protected keys are closed, one of these is written as the balance of a token only. -/
theorem writes_admitted (closed : moment.world.machine.isProtected = true)
    (wrote : moment.writes host address key data) :
    moment.Involves address ∧ host.rules.spaces.isReserved key = false ∧
      (host.rules.spaces.isProtected key = true → data.head? ≠ some 0 ∧
        ∃ token, key = Token.key host.rules.spaces.protectedPrefix token ∧ moment.Books token) := by
  obtain ⟨depthLeft, program, world⟩ := moment
  cases program with
  | done | fail | consult => exact wrote.elim
  | request operation next =>
    simp only [writes] at wrote
    split at wrote
    next =>
      cases operation with
      | store cell value =>
        obtain ⟨⟨mine, rfl, rfl⟩, -, open_, unprotected⟩ := wrote
        refine ⟨.inl mine.symm, open_, fun guarded => ?_⟩
        rw [unprotected closed] at guarded
        cases guarded
      | tokenMint token amount =>
        obtain ⟨⟨mine, rfl, rfl⟩, -, open_⟩ := wrote
        exact ⟨.inl mine.symm, open_, fun _ => ⟨Bytes.head?_ofNat _, token, rfl, rfl⟩⟩
      | tokenTransfer token destination amount =>
        rcases wrote with ⟨⟨mine, rfl, rfl⟩, -, open_⟩ | ⟨⟨theirs, rfl, rfl⟩, -, open_⟩
        · exact ⟨.inl mine.symm, open_, fun _ => ⟨Bytes.head?_ofNat _, token, rfl, rfl⟩⟩
        · exact ⟨.inr theirs.symm, open_, fun _ => ⟨Bytes.head?_ofNat _, token, rfl, rfl⟩⟩
      | _ => exact wrote.elim
    next => exact wrote.elim

end Moment

namespace Host

variable (host : Host environment)

/-- What was written at the moments that are past. -/
def history (past : Moment environment → Prop) : Footprint := fun address key data =>
  ∃ writer, past writer ∧ writer.writes host address key data

/-- The namespaces hold in an output, and its cells come from moments that are past. -/
structure Namespaced (past : Moment environment → Prop) (output : Output) : Prop where
  reserved {address : Address} {key data : Bytes} :
    output.written? address key = some data → host.rules.spaces.isReserved key = false
  tokens {address : Address} {key data : Bytes} :
    output.written? address key = some data → host.rules.spaces.isProtected key = true →
      data.head? ≠ some 0 ∧ ∃ token writer, key = Token.key host.rules.spaces.protectedPrefix token ∧
        past writer ∧ writer.Books token ∧ writer.Involves address ∧ writer.writes host address key data
  uninvolved {address : Address} :
    (∀ earlier, past earlier → ¬earlier.Involves address) → output.updates address = .empty

private theorem namespaced_of_within {past : Moment environment → Prop} {output : Output}
    (closed : ∀ earlier, past earlier → earlier.world.machine.isProtected = true)
    (within : output.Within (host.history past)) : host.Namespaced past output where
  reserved found := by
    obtain ⟨writer, before, wrote⟩ := within _ _ _ found
    exact (Moment.writes_admitted (closed writer before) wrote).2.1
  tokens found guarded := by
    obtain ⟨writer, before, wrote⟩ := within _ _ _ found
    obtain ⟨involved, -, booked⟩ := Moment.writes_admitted (closed writer before) wrote
    obtain ⟨shortest, token, same, books⟩ := booked guarded
    exact ⟨shortest, token, writer, same, before, books, involved, wrote⟩
  uninvolved {address} absent := by
    apply SortedMap.ext_find?
    intro key
    cases found : (output.updates address).find? key with
    | none => rfl
    | some update =>
      have written : output.written? address key = some update.data := by
        rw [Output.written?_updates, found]
        rfl
      obtain ⟨writer, before, wrote⟩ := within _ _ _ written
      exact absurd (Moment.writes_admitted (closed writer before) wrote).1 (absent writer before)

/-- Whatever the prefixes are, at every moment of a transaction and in every layer, no pending key is under the reserved
prefix, one under the protected prefix is that of a token, written by a request that sets its balance, and an account
that was never in scope and never sent tokens has no pending cells. So it is with what the transaction leaves. -/
theorem namespaces_hold (input : CallInput) (world : World environment) :
    (∀ moment, host.Visits input world moment → moment.layers.Every
      (host.Namespaced fun earlier => host.Visits input world earlier ∧ earlier.Past host moment)) ∧
    (host.run input world).2.machine.layers.Every (host.Namespaced (host.Visits input world)) := by
  refine ⟨fun moment visited layer member => ?_, fun layer member => ?_⟩
  · refine host.namespaced_of_within (fun _ before => visits_closed before.1) ?_
    refine (Output.within_lasting _).visits visited ?_ layer member
    exact fun earlier before past _ _ _ wrote => ⟨earlier, ⟨before, past⟩, wrote⟩
  · refine host.namespaced_of_within (fun _ before => visits_closed before) ?_
    refine (Output.within_lasting _).run ?_ layer member
    exact fun earlier before _ _ _ wrote => ⟨earlier, before, wrote⟩

def rebrand : Program Environment.silent Unit := .request (.store [4, 9] [1]) fun _ => .done ()

def granting : Host Environment.silent := scripted .zero (.request (.tokenMint [9] 5) fun _ => rebrand) (.done ())

def granted : World Environment.silent :=
  (outcome (granting.serve (granting.callWithin 63) (.tokenMint [9] 5)) (.begun 0)).2

def denied : Moment Environment.silent :=
  ⟨63, .done (), (outcome (granting.serve (granting.callWithin 63) (.store [4, 9] [1])) granted).2⟩

private theorem denied_visited : granting.Visits {} .scripted denied := by
  have opened : granting.opening {} { World.scripted with machine := World.scripted.machine.begin {} } =
      .ok (.request (.tokenMint [9] 5) fun _ => rebrand) (.begun 0) := rfl
  have mints : Moment.Over granting ⟨63, .request (.tokenMint [9] 5) fun _ => rebrand, .begun 0⟩ ⟨63, rebrand, granted⟩ :=
    .request rfl
  have stores : Moment.Over granting ⟨63, rebrand, granted⟩ denied := .request rfl
  exact ⟨_, _, opened, .tail (.single (.inl mints)) (.inl stores)⟩

theorem granted_balance_is_traced :
    denied.layers.output.written? .zero [4, 9] = none ∧
      denied.layers.output.written? .zero (Token.key [4] [9]) = some [5] ∧
      ∃ token writer, Token.key [4] [9] = Token.key [4] token ∧
        (granting.Visits {} .scripted writer ∧ writer.Past granting denied) ∧ writer.Books token ∧
        writer.Involves .zero ∧ writer.writes granting .zero (Token.key [4] [9]) [5] := by
  have found : denied.layers.output.written? .zero (Token.key [4] [9]) = some [5] := by decide +kernel
  have guarded : granting.rules.spaces.isProtected (Token.key [4] [9]) = true := by decide +kernel
  obtain ⟨moments, -⟩ := namespaces_hold granting {} .scripted
  have held := moments denied denied_visited denied.layers.active List.mem_cons_self
  exact ⟨by decide +kernel, found, (held.tokens found guarded).2⟩

end Host

end ContractHost
