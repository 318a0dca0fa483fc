import ContractHost.Proofs.AccountSums
import ContractHost.Proofs.ByteAccounting
import ContractHost.Proofs.RunTally

/-! Token balances. A transfer takes from one account what it gives to another, a mint adds to one account, and nothing
else reaches the cells of the balances, which lie under the protected prefix. All that the accounts hold of a token
therefore grows by what is minted and kept, and stays otherwise, over a whole transaction. -/

namespace ContractHost

variable {environment : Environment} {rules : Rules} {ledger : Ledger}

namespace Token

private theorem key_injective {protectedPrefix first second : Bytes}
    (same : key protectedPrefix first = key protectedPrefix second) : first = second :=
  List.append_cancel_left same

private theorem isProtected_key (spaces : KeySpaces) (token : Bytes) :
    spaces.isProtected (key spaces.protectedPrefix token) = true := by
  rw [KeySpaces.isProtected, key, List.append_assoc, List.isPrefixOf_iff_prefix]
  exact List.prefix_append _ _

def shown (rules : Rules) (ledger : Ledger) (output : Output) (address : Address) (token : Bytes) : Nat :=
  ((output.written? address (key rules.spaces.protectedPrefix token)).getD
    (ledger.stored address (key rules.spaces.protectedPrefix token))).toNat

/-- What all accounts hold of a token together. -/
noncomputable def supply (rules : Rules) (ledger : Ledger) (output : Output) (token : Bytes) : Nat :=
  ∑ᶠ address, shown rules ledger output address token

private theorem held_eq (layers : Layers) : held rules ledger layers = shown rules ledger layers.flatten := by
  funext address token
  rw [held, Layers.content, Layers.written?_eq, shown]

private theorem shown_congr {first second : Ledger} (same : second.accounts = first.accounts) (output : Output) :
    shown rules second output = shown rules first output := by
  funext address token
  simp only [shown, Ledger.stored, Ledger.account?, same]

private theorem supply_congr {first second : Output}
    (same : ∀ address key, second.written? address key = first.written? address key) (token : Bytes) :
    supply rules ledger second token = supply rules ledger first token :=
  finsum_congr (fun address => by rw [shown, shown, same])

private theorem finite_shown (rules : Rules) (ledger : Ledger) (output : Output) (token : Bytes) :
    (Function.support (fun address => shown rules ledger output address token)).Finite := by
  refine (ledger.accounts.finite_keys.union output.accounts.finite_keys).subset ?_
  intro address contributes
  by_cases stored : (ledger.accounts.find? address).isSome
  · exact .inl stored
  by_cases changed : (output.accounts.find? address).isSome
  · exact .inr changed
  have absent : ledger.account? address = none := Option.not_isSome_iff_eq_none.mp stored
  have untouched : output.account? address = none := Option.not_isSome_iff_eq_none.mp changed
  simp only [Function.mem_support, shown, Output.written?, untouched, Ledger.stored, absent] at contributes
  exact absurd rfl contributes

private theorem held_outside {footprint : Footprint} {before after : Machine}
    (works : before.Works rules ledger footprint after) {address : Address} {token : Bytes}
    (outside : ∀ value, ¬footprint address (key rules.spaces.protectedPrefix token) value) :
    held rules ledger after.layers address token = held rules ledger before.layers address token :=
  congrArg Bytes.toNat (works.content outside ledger)

end Token

namespace Operation

/-- What an answered operation does to the balances, asked for with an account in scope. What a transfer takes from one
account it gives to another, which may be the same. -/
def Rebalances (operation : Operation) (reply : Except Failure operation.Reply) (account : Address)
    (before after : Address → Bytes → Nat) : Prop :=
  match operation, reply with
  | .tokenTransfer token destination amount, .ok _ =>
    amount ≤ before account token ∧ ∀ address other,
      after address other + (if address = account ∧ other = token then amount else 0) =
        before address other + (if address = destination ∧ other = token then amount else 0)
  | .tokenMint token amount, .ok _ =>
    ∀ address other,
      after address other = before address other + (if address = account ∧ other = token then amount else 0)
  | _, _ => ∀ address other, after address other = before address other

private theorem rebalances_error {operation : Operation} {failure : Failure} {account : Address}
    {before after : Address → Bytes → Nat} (same : ∀ address token, after address token = before address token) :
    operation.Rebalances (.error failure) account before after := by
  cases operation <;> exact same

end Operation

namespace Token

private theorem minted_rebalances {token : Bytes} {amount : Nat} {before after : Machine}
    (works : before.Works rules ledger (footprint rules before before.storageAddress token
      (held rules ledger before.layers before.storageAddress token + amount)) after)
    (minted : held rules ledger after.layers before.storageAddress token =
      held rules ledger before.layers before.storageAddress token + amount)
    (address : Address) (other : Bytes) :
    held rules ledger after.layers address other = held rules ledger before.layers address other +
      (if address = before.storageAddress ∧ other = token then amount else 0) := by
  by_cases mine : address = before.storageAddress ∧ other = token
  · rw [if_pos mine, mine.1, mine.2, minted]
  · rw [if_neg mine]
    refine held_outside works (fun value written => mine ?_)
    exact ⟨written.1.1, key_injective written.1.2.1⟩

private theorem transferred_rebalances {token : Bytes} {destination : Address} {amount : Nat} {before after : Machine}
    (apart : destination ≠ before.storageAddress)
    (covered : amount ≤ held rules ledger before.layers before.storageAddress token)
    (works : before.Works rules ledger (transferFootprint rules before token destination
      (held rules ledger before.layers before.storageAddress token - amount)
      (held rules ledger before.layers destination token + amount)) after)
    (debited : held rules ledger after.layers before.storageAddress token =
      held rules ledger before.layers before.storageAddress token - amount)
    (credited : held rules ledger after.layers destination token =
      held rules ledger before.layers destination token + amount)
    (address : Address) (other : Bytes) :
    held rules ledger after.layers address other +
        (if address = before.storageAddress ∧ other = token then amount else 0) =
      held rules ledger before.layers address other +
        (if address = destination ∧ other = token then amount else 0) := by
  by_cases mine : other = token
  · subst mine
    by_cases sends : address = before.storageAddress
    · subst sends
      rw [if_pos ⟨rfl, rfl⟩, if_neg (fun receives => apart receives.1.symm), debited]
      omega
    · by_cases receives : address = destination
      · subst receives
        rw [if_neg (fun sender => sends sender.1), if_pos ⟨rfl, rfl⟩, credited, Nat.add_zero]
      · rw [if_neg (fun sender => sends sender.1), if_neg (fun receiver => receives receiver.1)]
        refine held_outside works (fun value written => ?_)
        rcases written with ⟨⟨sender, -⟩, -⟩ | ⟨⟨receiver, -⟩, -⟩
        · exact sends sender
        · exact receives receiver
  · rw [if_neg (fun sender => mine sender.2), if_neg (fun receiver => mine receiver.2)]
    refine held_outside works (fun value written => mine ?_)
    rcases written with ⟨⟨-, same, -⟩, -⟩ | ⟨⟨-, same, -⟩, -⟩
    · exact key_injective same
    · exact key_injective same

end Token

namespace Host

variable {host : Host environment}

private theorem serve_rebalances {nested : Context → CallInput → Run environment Unit} {operation : Operation}
    {world after : World environment} {reply : Except Failure operation.Reply}
    (elementary : ∀ context input, operation ≠ .call context input) (closed : world.machine.isProtected = true)
    (served : outcome (host.serve nested operation) world = (reply, after)) :
    after.ledger = world.ledger ∧ operation.Rebalances reply world.machine.storageAddress
      (Token.held host.rules world.ledger world.machine.layers)
      (Token.held host.rules after.ledger after.machine.layers) := by
  cases reply with
  | error failure =>
    rw [outcome_eq_error] at served
    obtain ⟨ledger, undone⟩ := host.serve_undone elementary served
    obtain ⟨middle, works, layers⟩ := undone.layers
    refine ⟨ledger, Operation.rebalances_error (fun address token => ?_)⟩
    rw [ledger, layers]
    exact Token.held_outside works (fun _ => id)
  | ok value =>
    rw [outcome_eq_ok] at served
    have spared (moded : ∀ on, operation ≠ .setReadOnly on)
        (outside : ∀ address token value, ¬operation.footprint host.rules world.ledger world.machine address
          (Token.key host.rules.spaces.protectedPrefix token) value) :
        after.ledger = world.ledger ∧ ∀ address token,
          Token.held host.rules after.ledger after.machine.layers address token =
            Token.held host.rules world.ledger world.machine.layers address token := by
      obtain ⟨ledger, works⟩ := (host.serve_works nested operation elementary moded world).of_ok served
      refine ⟨ledger, fun address token => ?_⟩
      rw [ledger]
      exact Token.held_outside works (outside address token)
    cases operation with
    | setReadOnly on =>
      rw [host.serve_setReadOnly] at served
      cases served
      exact ⟨rfl, fun _ _ => rfl⟩
    | call context input => exact absurd rfl (elementary context input)
    | store key content =>
      -- The policy would have refused a key under the protected prefix.
      refine spared (by rintro on ⟨⟩) (fun address token value written => ?_)
      obtain ⟨⟨-, same, -⟩, -, -, unprotected⟩ := written
      have open_ := unprotected closed
      rw [← same, Token.isProtected_key] at open_
      cases open_
    | tokenMint token amount =>
      simp only [serve] at served
      obtain ⟨ledger, works, minted⟩ := (Run.onMachine_ensures (Token.mint_ensures token amount _)).of_ok served
      refine ⟨ledger, ?_⟩
      rw [ledger]
      exact Token.minted_rebalances works minted
    | tokenTransfer token destination amount =>
      simp only [serve] at served
      obtain ⟨ledger, covered, moved⟩ :=
        (Run.onMachine_ensures (Token.transfer_ensures token destination amount _)).of_ok served
      refine ⟨ledger, covered, ?_⟩
      rw [ledger]
      rcases moved with ⟨same, works⟩ | ⟨apart, works, debited, credited⟩
      · intro address other
        rw [same, Token.held_outside works (fun _ => id)]
      · exact Token.transferred_rebalances apart covered works debited credited
    | _ => exact spared (by rintro on ⟨⟩) (fun _ _ _ => id)

/-- A nested call leaves the balances to its callee, and goes back to those before where the callee has failed. -/
theorem call_balances {depthLeft : Nat} {context : Context} {call : CallInput}
    {next : Except Failure Unit → Program environment Unit} {before : World environment} {after : Moment environment}
    (step : Moment.Over host ⟨depthLeft, .request (.call context call) next, before⟩ after) :
    let held := Token.held host.rules
    ((∀ start, ¬Moment.Into host ⟨depthLeft, .request (.call context call) next, before⟩ start) ∧
        after.ledger = before.ledger ∧ held after.ledger after.layers = held before.ledger before.machine.layers) ∨
      ∃ start, Moment.Into host ⟨depthLeft, .request (.call context call) next, before⟩ start ∧
        held start.ledger start.layers = held before.ledger before.machine.layers ∧
        after.ledger = (start.ended host).2.ledger ∧
        held after.ledger after.layers = held after.ledger
          (if (start.ended host).1.isOk then (start.ended host).2.machine.layers else before.machine.layers) := by
  intro held
  rcases step.call with ⟨spent, shut⟩ | ⟨start, entering, returned⟩
  · obtain ⟨ledger, layers⟩ := spent.unmoved
    refine .inl ⟨shut, ledger, ?_⟩
    change held after.world.ledger after.world.machine.layers = _
    rw [ledger, layers]
  · refine .inr ⟨start, entering, ?_, returned.ledger, ?_⟩
    · funext address token
      have written := (entering.sameBytes address).written? (Token.key host.rules.spaces.protectedPrefix token)
      have ledger : start.ledger = before.ledger := by
        cases entering with
        | call descends => exact (host.descend_advances descends).1
      simp only [held, Token.held, Layers.content, ledger, written]
      rfl
    · simp only [held, Token.held_eq]
      exact congrArg (Token.shown host.rules after.ledger) (entering.shows returned)

def mintedBy (token : Bytes) : Weight environment
  | .tokenMint other amount, .ok _, _, _ => if other = token then amount else 0
  | _, _, _, _ => 0

/-- What the mints of a transaction add to the supply of a token altogether, where they are kept. -/
def minted (host : Host environment) (token : Bytes) (input : CallInput) (world : World environment) : Nat :=
  host.tally (mintedBy token) input world

end Host

private theorem Operation.Rebalances.supply {operation : Operation} {reply : Except Failure operation.Reply}
    {account : Address}
    {before after : Address → Bytes → Nat} (rebalances : operation.Rebalances reply account before after)
    (token : Bytes) (first : (Function.support (before · token)).Finite)
    (last : (Function.support (after · token)).Finite) (world left : World environment) :
    ∑ᶠ address, after address token =
      ∑ᶠ address, before address token + Host.mintedBy token operation reply world left := by
  have unchanged (same : ∀ address other, after address other = before address other) :
      ∑ᶠ address, after address token = ∑ᶠ address, before address token + 0 :=
    finsum_congr (same · token)
  cases reply with
  | error failure => cases operation <;> exact unchanged rebalances
  | ok value =>
    cases operation with
    | tokenMint other amount =>
      simp only [Host.mintedBy]
      by_cases mine : other = token
      · subst mine
        rw [if_pos rfl]
        refine finsum_add_at first account amount (fun address => ?_)
        simpa using rebalances address other
      · rw [if_neg mine]
        refine finsum_congr (fun address => ?_)
        rw [rebalances address token, if_neg (fun both => mine both.2.symm), Nat.add_zero]
    | tokenTransfer other destination amount =>
      obtain ⟨-, moves⟩ := rebalances
      change _ = _ + 0
      by_cases mine : other = token
      · subst mine
        refine finsum_move first last account destination amount (fun address => ?_)
        simpa using moves address other
      · refine finsum_congr (fun address => ?_)
        have same := moves address token
        rwa [if_neg (fun both => mine both.2.symm), if_neg (fun both => mine both.2.symm)] at same
    | _ => exact unchanged rebalances

namespace Host

private theorem elementary_supplies {host : Host environment} {depthLeft : Nat} {operation : Operation}
    {world after : World environment} {reply : Except Failure operation.Reply} (token : Bytes)
    (elementary : ∀ context input, operation ≠ .call context input)
    (served : outcome (host.serve (host.callWithin depthLeft) operation) world = (reply, after))
    (closed : world.machine.isProtected = true) (accounts : world.ledger.accounts = ledger.accounts) :
    Token.supply host.rules ledger after.machine.layers.flatten token =
      Token.supply host.rules ledger world.machine.layers.flatten token + mintedBy token operation reply world after := by
  obtain ⟨same, rebalances⟩ := serve_rebalances elementary closed served
  rw [same, Token.held_eq, Token.held_eq, Token.shown_congr accounts, Token.shown_congr accounts] at rebalances
  exact rebalances.supply token (Token.finite_shown ..) (Token.finite_shown ..) world after

/-- On a ledger that stays, the supply of a token grows by what is minted and kept. -/
theorem supplying (host : Host environment) (ledger : Ledger) (token : Bytes) :
    RunRelation host (mintedBy token)
      (fun before _ => before.world.machine.isProtected = true ∧ before.ledger.accounts = ledger.accounts)
      (fun amount before after => Token.supply host.rules ledger after.machine.layers.flatten token =
        Token.supply host.rules ledger before.machine.layers.flatten token + amount) where
  refl _ := rfl
  trans first second := by rw [second, first, Nat.add_assoc]
  consult _ := rfl
  elementary elementary served steady := elementary_supplies token elementary served steady.1 steady.2
  spent spent := by rw [spent.machine.layers, Nat.add_zero]
  returned entering returned _ inside := by
    rw [entering.shows returned]
    split
    next =>
      refine inside.trans (congrArg (· + _) (Token.supply_congr (fun address key => ?_) token))
      rw [← Layers.written?_eq, ← Layers.written?_eq]
      exact (entering.sameBytes address).written? key
    next => rfl

/-- A token transfer takes from the account in scope exactly what it gives to its destination, and no more than is
there; a mint adds exactly its amount; when they fail, whatever it was that the ledger did not answer, they change no
balance, and neither does any other operation. A nested call changes balances by what its callee does, provided that
this succeeds. Over a transaction on a ledger that stays as it is, the supply of a token grows by what its code mints
and keeps, and by nothing else. -/
theorem token_supply_conserved (host : Host environment) (input : CallInput) (world : World environment) :
    (∀ depthLeft operation next before reply after,
      host.Visits input world ⟨depthLeft, .request operation next, before⟩ →
      (∀ context call, operation ≠ .call context call) →
      outcome (host.serve (host.callWithin depthLeft) operation) before = (reply, after) →
      operation.Rebalances reply before.machine.storageAddress
        (Token.held host.rules before.ledger before.machine.layers)
        (Token.held host.rules after.ledger after.machine.layers)) ∧
    (∀ depthLeft context call next before after,
      Moment.Over host ⟨depthLeft, .request (.call context call) next, before⟩ after →
      let held := Token.held host.rules
      ((∀ start, ¬Moment.Into host ⟨depthLeft, .request (.call context call) next, before⟩ start) ∧
          after.ledger = before.ledger ∧ held after.ledger after.layers = held before.ledger before.machine.layers) ∨
        ∃ start, Moment.Into host ⟨depthLeft, .request (.call context call) next, before⟩ start ∧
          held start.ledger start.layers = held before.ledger before.machine.layers ∧
          after.ledger = (start.ended host).2.ledger ∧
          held after.ledger after.layers = held after.ledger
            (if (start.ended host).1.isOk then (start.ended host).2.machine.layers else before.machine.layers)) ∧
    ((∀ moment, host.Visits input world moment → moment.ledger.accounts = world.ledger.accounts) → ∀ token,
      Token.supply host.rules world.ledger (host.run input world).1 token =
        Token.supply host.rules world.ledger {} token + host.minted token input world) := by
  refine ⟨?_, fun _ _ _ _ _ _ => call_balances, fun steady token => ?_⟩
  · intro depthLeft operation next before reply after visited elementary served
    exact (serve_rebalances elementary (visits_closed visited) served).2
  · have fitting (before after : Moment environment) (visited : host.Visits input world before)
        (_ : Moment.Over host before after) :
        before.world.machine.isProtected = true ∧ before.ledger.accounts = world.ledger.accounts :=
      ⟨visits_closed visited, steady before visited⟩
    rcases (host.supplying world.ledger token).run fitting with
      ⟨failure, failed, none⟩ | ⟨body, inside, last, opens, grown, bottom, result⟩
    · rw [failed, minted, none]
      rfl
    · have start : Token.supply host.rules world.ledger inside.machine.layers.flatten token =
          Token.supply host.rules world.ledger {} token := by
        refine Token.supply_congr (fun address key => ?_) token
        rw [← Layers.written?_eq]
        exact ((host.opening_advances opens).2.outside id).written? key
      rw [result, ← start, minted, ← grown]
      refine Token.supply_congr (fun address key => ?_) token
      rw [← Layers.written?_eq, Layers.written?_bottom bottom]
      rfl

def issuing : Host Environment.silent :=
  scripted .zero
    (.request (.tokenMint [9] 5) fun _ => .request (.tokenTransfer [9] .second 2) fun _ => .done ()) (.done ())

def issued (world : World Environment.silent) : World Environment.silent :=
  (outcome (issuing.serve (issuing.callWithin 63) (.tokenMint [9] 5))
    { world with machine := (World.begun 0).machine }).2

private theorem issued_visited {world : World Environment.silent}
    (opened : issuing.opening { gas := 0 } { world with machine := world.machine.begin { gas := 0 } } =
      .ok (.request (.tokenMint [9] 5) fun _ => .request (.tokenTransfer [9] .second 2) fun _ => .done ())
        { world with machine := (World.begun 0).machine }) :
    issuing.Visits { gas := 0 } world
      ⟨63, .request (.tokenTransfer [9] .second 2) fun _ => .done (), issued world⟩ :=
  ⟨_, _, opened, .single (.inl (.request rfl))⟩

/-- Here the ledger fails the last read of a transfer, when the sender's balance has been written already. -/
def faltering : World Environment.silent :=
  { World.scripted with ledger :=
    { World.scripted.ledger with lapse? := fun number _ => if number = 5 then some .tooManyRequests else none } }

theorem issuing_conserves_tokens :
    let transferred (world : World Environment.silent) :=
      outcome (issuing.serve (issuing.callWithin 63) (.tokenTransfer [9] .second 2)) (issued world)
    let held (world : World Environment.silent) := Token.held issuing.rules world.ledger world.machine.layers
    let after := (transferred .scripted).2
    held (issued .scripted) .zero [9] = 5 ∧ held after .zero [9] + 2 = held (issued .scripted) .zero [9] ∧
      held after .second [9] = held (issued .scripted) .second [9] + 2 ∧
      Token.supply issuing.rules World.scripted.ledger (issuing.run { gas := 0 } .scripted).1 [9] =
        Token.supply issuing.rules World.scripted.ledger {} [9] + 5 ∧
      (transferred faltering).1 = .error (.ledger .tooManyRequests) ∧ held (issued faltering) .zero [9] = 5 ∧
      ∀ address token, held (transferred faltering).2 address token = held (issued faltering) address token := by
  intro transferred held after
  obtain ⟨operations, -, runs⟩ := token_supply_conserved issuing { gas := 0 } .scripted
  obtain ⟨failing, -⟩ := token_supply_conserved issuing { gas := 0 } faltering
  have moves (context : Context) (input : CallInput) :
      Operation.tokenTransfer [9] .second 2 ≠ .call context input := nofun
  have succeeds : (transferred .scripted).1.isOk = true := by decide +kernel
  have served : transferred .scripted = (.ok (), after) := Prod.ext (eq_ok_of_isOk succeeds) rfl
  have sender : (issued .scripted).machine.storageAddress = .zero := by decide +kernel
  obtain ⟨-, moved⟩ :
      Operation.Rebalances (.tokenTransfer [9] .second 2) (.ok ()) .zero (held (issued .scripted)) (held after) := by
    rw [← sender]
    exact operations _ _ _ _ _ _ (issued_visited rfl) moves served
  have fails : (transferred faltering).1 = .error (.ledger .tooManyRequests) := by decide +kernel
  have refused : transferred faltering = (.error (.ledger .tooManyRequests), (transferred faltering).2) :=
    Prod.ext fails rfl
  have kept : Operation.Rebalances (.tokenTransfer [9] .second 2) (.error _) _ _ _ :=
    failing _ _ _ _ _ _ (issued_visited rfl) moves refused
  have apart : Address.zero ≠ .second := by decide +kernel
  have steady (moment : Moment Environment.silent) (visited : issuing.Visits { gas := 0 } .scripted moment) :
      moment.ledger.accounts = World.scripted.ledger.accounts :=
    congrArg Ledger.accounts (issuing.visits_ledger visited)
  have five : issuing.minted [9] { gas := 0 } .scripted = 5 := by decide +kernel
  refine ⟨by decide +kernel, ?_, ?_, ?_, fails, by decide +kernel, kept⟩
  · have debited := moved .zero [9]
    rwa [if_pos ⟨rfl, rfl⟩, if_neg (fun both => apart both.1), Nat.add_zero] at debited
  · have credited := moved .second [9]
    rwa [if_neg (fun both => apart both.1.symm), if_pos ⟨rfl, rfl⟩, Nat.add_zero] at credited
  · rw [← five]
    exact runs steady [9]

end Host

end ContractHost
