import ContractHost.Proofs.WriteRefusal

/-! Scopes in which the protected keys are open. Guards open them, a frame is entered with them closed, and both end in
the order opposite to that in which they began. One flag stands for all of this. It goes by the guard that was opened
last in the frame, and has forgotten about that guard once another one, opened within it, has been dropped. -/

namespace ContractHost

namespace Storage

structure WriteRequest where
  ledger : Ledger
  layers : Layers
  gas : Stacked GasTracker
  readOnly : Bool
  key : Bytes
  value : Bytes

namespace WriteRequest

def supply (request : WriteRequest) (machine : Machine) : Machine :=
  { machine with layers := request.layers, gas := request.gas }

def act (rules : Rules) (request : WriteRequest) : Action StorageStatus := fun machine =>
  write rules request.ledger request.readOnly request.key request.value (request.supply machine)

end WriteRequest

/-- What privileged code does to the storage scope: guards and frames within each other, with writes among them. It may
fail at any place, and whoever opened the guard or the frame around it goes on from there. -/
inductive Script where
  | done
  | fail (failure : Failure)
  | write (request : WriteRequest) (rest : Script)
  | moveTo (address : Address) (rest : Script)
  | guarded (body rest : Script)
  | framed (body rest : Script)

/-- A guard that has not been dropped. It is spent once a guard that was opened within it, in the same frame, has been
dropped. -/
structure Guard where
  spent : Bool := false
  deriving DecidableEq

/-- Of the guards that stand in a frame, latest first, the one opened last is there and not spent. -/
def unlocks (guards : List Guard) : Bool := guards.head?.any (!·.spent)

def dropped (outer : List Guard) : List Guard := outer.modifyHead (fun _ => { spent := true })

private theorem unlocks_dropped (outer : List Guard) : unlocks (dropped outer) = false := by
  cases outer <;> rfl

namespace Script

variable (rules : Rules)

def act : Script → Action Unit
  | .done => pure ()
  | .fail failure => throw failure
  | .write request rest => do
    let _ ← Action.attempt (request.act rules)
    rest.act
  | .moveTo address rest => do
    modify (·.setStorageAddress address)
    rest.act
  | .guarded body rest => do
    let _ ← Action.attempt (unprotected body.act)
    rest.act
  | .framed body rest => do
    modify Machine.pushScope
    let _ ← Action.attempt body.act
    modify Machine.restoreScope
    rest.act

/-- The points that a script comes to, each with the guards that then stand in the frame in force. -/
inductive Meets : Script → List Guard → Machine → List Guard → Machine → Prop where
  | here {script : Script} {guards : List Guard} {machine : Machine} : Meets script guards machine guards machine
  | written {request : WriteRequest} {rest : Script} {guards standing : List Guard} {machine point : Machine}
      (later : Meets rest guards (outcome (request.act rules) machine).2 standing point) :
      Meets (.write request rest) guards machine standing point
  | moved {address : Address} {rest : Script} {guards standing : List Guard} {machine point : Machine}
      (later : Meets rest guards (machine.setStorageAddress address) standing point) :
      Meets (.moveTo address rest) guards machine standing point
  | guarding {body rest : Script} {guards standing : List Guard} {machine point : Machine}
      (inside : Meets body ({} :: guards) (machine.setProtection false) standing point) :
      Meets (.guarded body rest) guards machine standing point
  | guarded {body rest : Script} {guards standing : List Guard} {machine point : Machine}
      (later : Meets rest (dropped guards) (outcome (unprotected (body.act rules)) machine).2 standing point) :
      Meets (.guarded body rest) guards machine standing point
  | framing {body rest : Script} {guards standing : List Guard} {machine point : Machine}
      (inside : Meets body [] machine.pushScope standing point) :
      Meets (.framed body rest) guards machine standing point
  | framed {body rest : Script} {guards standing : List Guard} {machine point : Machine}
      (later : Meets rest guards (outcome (body.act rules) machine.pushScope).2.restoreScope standing point) :
      Meets (.framed body rest) guards machine standing point

/-- No guard is opened where one of the same frame stands. -/
def Apart (standing : Bool) : Script → Prop
  | .done | .fail _ => True
  | .write _ rest | .moveTo _ rest => rest.Apart standing
  | .guarded body rest => standing = false ∧ body.Apart true ∧ rest.Apart standing
  | .framed body rest => body.Apart false ∧ rest.Apart standing

end Script

variable {rules : Rules}

private theorem write_local (ledger : Ledger) (readOnly : Bool) (key value : Bytes) (machine : Machine) :
    Leaves (write rules ledger readOnly key value) machine (Local machine) := by
  have returns : Ensures (write rules ledger readOnly key value) machine _ _ := write_wrote readOnly key value machine
  have refuses : Ensures (write rules ledger readOnly key value) machine _ _ := write_weighs readOnly key value machine
  simp only [Leaves, Ensures]
  cases ended : write rules ledger readOnly key value machine with
  | ok status after => exact (returns.of_ok ended).2.local
  | error failure after => exact (refuses.of_error ended).2.rest

private theorem WriteRequest.scopes_act (request : WriteRequest) (machine : Machine) :
    (outcome (request.act rules) machine).2.scopes = machine.scopes := by
  have written : Leaves (request.act rules) machine (Local (request.supply machine)) :=
    write_local request.ledger request.readOnly request.key request.value (request.supply machine)
  rw [written.state.machine]
  rfl

private theorem scopes_unprotected {α : Type} (action : Action α) (machine : Machine) :
    (outcome (unprotected action) machine).2.scopes =
      ((outcome action (machine.setProtection false)).2.setProtection true).scopes := by
  simp only [outcome, unprotected]
  cases action (machine.setProtection false) <;> rfl

private theorem attempt_bind {α β : Type} (action : Action α) (next : Except Failure α → Action β) (machine : Machine) :
    outcome (Action.attempt action >>= next) machine =
      outcome (next (outcome action machine).1) (outcome action machine).2 := by
  simp only [outcome, Action.attempt, Bind.bind, EStateM.bind]
  cases action machine <;> rfl

namespace Script

private theorem saved_act (script : Script) (machine : Machine) :
    (outcome (script.act rules) machine).2.scopes.saved = machine.scopes.saved := by
  induction script generalizing machine with
  | done | fail => rfl
  | write request rest ih =>
    rw [act, attempt_bind, ih, request.scopes_act]
  | moveTo address rest ih => exact ih (machine.setStorageAddress address)
  | guarded body rest inside after =>
    rw [act, attempt_bind, after, scopes_unprotected]
    exact inside (machine.setProtection false)
  | framed body rest inside after =>
    change (outcome (Action.attempt (body.act rules) >>= _) machine.pushScope).2.scopes.saved = _
    rw [attempt_bind]
    refine (after (outcome (body.act rules) machine.pushScope).2.restoreScope).trans ?_
    rw [Machine.restoreScope, Stacked.restore, inside]
    rfl

private theorem scopes_framed (body : Script) (machine : Machine) :
    (outcome (body.act rules) machine.pushScope).2.restoreScope.scopes = machine.scopes := by
  rw [Machine.restoreScope, Stacked.restore, saved_act]
  rfl

/-- At every point the flag shows whether the guard opened last still opens the keys to the frame in force. -/
theorem Meets.isProtected {script : Script} {guards standing : List Guard} {machine point : Machine}
    (meets : Meets rules script guards machine standing point) (shown : machine.isProtected = !unlocks guards) :
    point.isProtected = !unlocks standing := by
  induction meets with
  | here => exact shown
  | @written request rest guards standing machine point later ih =>
    apply ih
    rw [Machine.isProtected, request.scopes_act]
    exact shown
  | moved later ih => exact ih shown
  | guarding inside ih => exact ih rfl
  | @guarded body rest guards standing machine point later ih =>
    apply ih
    rw [Machine.isProtected, scopes_unprotected, unlocks_dropped]
    rfl
  | framing inside ih => exact ih rfl
  | @framed body rest guards standing machine point later ih =>
    apply ih
    rw [Machine.isProtected, body.scopes_framed]
    exact shown

private theorem Meets.apart {script : Script} {guards standing : List Guard} {machine point : Machine}
    (meets : Meets rules script guards machine standing point) {alone : Bool} (apart : script.Apart alone)
    (single : guards = if alone then [{}] else []) : standing = [] ∨ standing = [{}] := by
  induction meets generalizing alone with
  | here =>
    cases alone with
    | false => exact .inl single
    | true => exact .inr single
  | written later ih | moved later ih => exact ih apart single
  | guarding inside ih =>
    obtain ⟨rfl, within, -⟩ := apart
    cases single
    exact ih within rfl
  | guarded later ih =>
    obtain ⟨rfl, -, rest⟩ := apart
    cases single
    exact ih rest rfl
  | framing inside ih => exact ih apart.1 rfl
  | framed later ih => exact ih apart.2 single

end Script

private theorem grounds_protected (rules : Rules) (ledger : Ledger) (readOnly : Bool) (key value : Bytes)
    (machine : Machine) :
    some .writeProtectedKey ∉
      modeGrounds ledger readOnly key value machine ++ changeGrounds rules ledger key value machine := by
  have unread : unread? ledger key machine ≠ some .writeProtectedKey := by
    simp only [unread?]
    split <;> simp
  have unpaid (old : Bytes) : unpaid? rules.schedule old value machine.gas.active ≠ some .writeProtectedKey := by
    simp only [unpaid?]
    split <;> simp
  intro listed
  simp only [modeGrounds, changeGrounds, List.cons_append, List.nil_append, List.mem_cons, List.not_mem_nil,
    or_false] at listed
  rcases listed with looked | mode | looked | paid
  · split at looked
    · exact unread looked.symm
    · cases looked
  · split at mode <;> cases mode
  · exact unread looked.symm
  · exact unpaid _ paid.symm

private theorem WriteRequest.fails_iff (request : WriteRequest) (machine : Machine) (failure : Failure) :
    (outcome (request.act rules) machine).1 = .error failure ↔
      (grounds rules request.ledger request.readOnly request.key request.value (request.supply machine)).findSome? id =
        some failure := by
  have weighed : Ensures (request.act rules) machine _ _ :=
    write_weighs request.readOnly request.key request.value (request.supply machine)
  rw [outcome]
  cases ended : request.act rules machine with
  | ok status after => simp only [(weighed.of_ok ended).1, reduceCtorEq]
  | error found after => simp only [(weighed.of_error ended).1, Except.error.injEq, Option.some.injEq]

private theorem WriteRequest.refused_protected (request : WriteRequest) (machine : Machine)
    (guarded : rules.spaces.isProtected request.key = true) (free : rules.spaces.isReserved request.key = false) :
    (outcome (request.act rules) machine).1 = .error .writeProtectedKey ↔
      (modeGrounds request.ledger request.readOnly request.key request.value (request.supply machine)).findSome? id =
        none ∧ machine.isProtected = true := by
  have closed : keyGrounds rules request.key (request.supply machine) =
      [none, if machine.isProtected then some .writeProtectedKey else none] := by
    simp only [keyGrounds, free, guarded, Bool.false_eq_true, ↓reduceIte, and_true]
    rfl
  rw [request.fails_iff, grounds, List.findSome?_append, List.findSome?_append, closed]
  cases mode : (modeGrounds request.ledger request.readOnly request.key request.value
      (request.supply machine)).findSome? id with
  | some failure =>
    obtain ⟨ground, listed, rfl⟩ := List.exists_of_findSome?_eq_some mode
    refine ⟨fun found => ?_, fun passed => absurd passed.1 (Option.some_ne_none _)⟩
    cases found
    exact absurd (List.mem_append_left _ listed) (grounds_protected rules _ _ _ _ _)
  | none =>
    cases on : machine.isProtected with
    | true => simp
    | false =>
      refine ⟨fun found => ?_, fun passed => absurd passed.2 Bool.false_ne_true⟩
      obtain ⟨ground, listed, rfl⟩ := List.exists_of_findSome?_eq_some found
      exact absurd (List.mem_append_right _ listed) (grounds_protected rules _ request.readOnly _ _ _)

/-- Privileged code that starts with its keys protected finds them open where the guard opened last in the frame in force
still stands and no guard has been opened and dropped within it, and nowhere else. With no guard opened within another
this is wherever a guard stands. A frame knows nothing of the guards around it and leaves them as they were; a guard
leaves the keys protected, whatever stood before. -/
theorem protection_goes_by_guards (rules : Rules) :
    (∀ script machine guards point, machine.isProtected = true → Script.Meets rules script [] machine guards point →
      (point.isProtected = false ↔ unlocks guards = true) ∧
      (script.Apart false → (point.isProtected = false ↔ guards ≠ [])) ∧
      ∀ request : WriteRequest, rules.spaces.isProtected request.key = true →
        rules.spaces.isReserved request.key = false →
        ((outcome (request.act rules) point).1 = .error .writeProtectedKey ↔
          (modeGrounds request.ledger request.readOnly request.key request.value (request.supply point)).findSome? id =
            none ∧ unlocks guards = false)) ∧
    (∀ body machine,
      (∀ guards point, Script.Meets rules body [] machine.pushScope guards point →
        (point.isProtected = false ↔ unlocks guards = true)) ∧
      (outcome ((Script.framed body .done).act rules) machine).2.scopes = machine.scopes) ∧
    ∀ body machine, (outcome ((Script.guarded body .done).act rules) machine).2.isProtected = true ∧
      (outcome ((Script.guarded body .done).act rules) machine).2.scopes.saved = machine.scopes.saved := by
  refine ⟨?_, ?_, ?_⟩
  · intro script machine guards point closed meets
    have shown := meets.isProtected closed
    refine ⟨by rw [shown, Bool.not_eq_false'], fun apart => ?_, ?_⟩
    · rw [shown]
      rcases meets.apart apart rfl with rfl | rfl
      · exact ⟨nofun, fun stands => absurd rfl stands⟩
      · exact ⟨fun _ => List.cons_ne_nil _ _, fun _ => rfl⟩
    · intro request guarded free
      rw [request.refused_protected point guarded free, shown, Bool.not_eq_true']
  · intro body machine
    refine ⟨fun guards point meets => ?_, ?_⟩
    · rw [meets.isProtected rfl, Bool.not_eq_false']
    · change (outcome (Action.attempt (body.act rules) >>= _) machine.pushScope).2.scopes = _
      rw [attempt_bind]
      exact body.scopes_framed machine
  · intro body machine
    refine ⟨?_, Script.saved_act _ machine⟩
    rw [Script.act, attempt_bind]
    change (outcome (unprotected (body.act rules)) machine).2.isProtected = true
    rw [Machine.isProtected, scopes_unprotected]
    rfl

def framedWithin : Script := .guarded (.framed (.guarded .done .done) .done) .done

def protectedWrite : WriteRequest where
  ledger := {}
  layers := .start
  gas := ⟨{ limit := 100 }, []⟩
  readOnly := false
  key := [7]
  value := [1]

theorem frame_leaves_guard_standing :
    ∃ point, Script.Meets priced framedWithin [] {} [{}] point ∧ point.isProtected = false ∧
      (outcome (protectedWrite.act priced) point).1 ≠ .error .writeProtectedKey := by
  have meets : Script.Meets priced framedWithin [] {} [{}] _ := .guarding (.framed .here)
  obtain ⟨-, open_where_standing, refuses⟩ := (protection_goes_by_guards priced).1 _ _ _ _ rfl meets
  refine ⟨_, meets, (open_where_standing ⟨rfl, ⟨⟨rfl, trivial, trivial⟩, trivial⟩, trivial⟩).mpr nofun, ?_⟩
  intro refused
  obtain ⟨-, locked⟩ := (refuses protectedWrite rfl rfl).mp refused
  cases locked

/-- Within a guard another guard is opened and dropped, and the first one, which still stands, no longer lets a
protected key be written. -/
theorem inner_guard_closes_outer :
    (∃ point, Script.Meets priced (.guarded (.guarded .done .done) .done) [] {} [{ spent := true }] point ∧
      point.isProtected = true ∧ (outcome (protectedWrite.act priced) point).1 = .error .writeProtectedKey) ∧
    ¬∀ script guards point, Script.Meets priced script [] {} guards point →
      (point.isProtected = false ↔ guards ≠ []) := by
  have meets : Script.Meets priced (.guarded (.guarded .done .done) .done) [] {} [{ spent := true }] _ :=
    .guarding (.guarded .here)
  refine ⟨⟨_, meets, rfl, rfl⟩, fun claimed => ?_⟩
  have opened := (claimed _ _ _ meets).mpr (List.cons_ne_nil _ _)
  cases opened

end Storage

end ContractHost
