import ContractHost.Proofs.Moments

/-! Admission. The gate lets in exactly the contracts whose exports are all proper, in whatever order and however often
they are listed. No code runs but that of contracts it has let in, at any depth: the bodies of all others might as well
not be there. -/

namespace ContractHost

namespace Gate

variable (gate : Gate) (interface : Interface)

/-- What the gate asks of the name and the signature of an export. -/
structure Proper (name : String) : Prop where
  nonempty : name ≠ ""
  short : name.utf8ByteSize < 256
  ascii : ∀ char ∈ name.toList, char.toNat < 128
  unreserved : name ∉ gate.reserved
  unmarked : name ∉ ["internalVMErrors", "transferValueOnly", "writeLog", "signalError", "completedTxEvent"]
  void : name = "alloc" ∨ interface.signature? name = some { inputs := 0, outputs := 0 }

private theorem bind_eq_ok {first second : Except Failure Unit} :
    (first >>= fun _ => second) = .ok () ↔ first = .ok () ∧ second = .ok () := by
  cases first with
  | error failure => exact ⟨nofun, fun both => (nomatch both.1)⟩
  | ok _ => exact ⟨fun passed => ⟨rfl, passed⟩, And.right⟩

private theorem forM_eq_ok {names : List String} {check : String → Except Failure Unit} :
    names.forM check = .ok () ↔ ∀ name ∈ names, check name = .ok () := by
  induction names with
  | nil => exact ⟨fun _ _ absurd => (nomatch absurd), fun _ => rfl⟩
  | cons name names ih =>
    rw [List.forall_mem_cons, ← ih]
    exact bind_eq_ok

private theorem verifyName_eq_ok {name : String} :
    gate.verifyName name = .ok () ↔
      name ≠ "" ∧ name.utf8ByteSize < 256 ∧ (∀ char ∈ name.toList, char.toNat < 128) ∧ name ∉ gate.reserved := by
  have conditions : (!name.isEmpty && name.utf8ByteSize < nameLimit && isAscii name && !gate.isReserved name) = true ↔
      name ≠ "" ∧ name.utf8ByteSize < nameLimit ∧ (∀ char ∈ name.toList, char.toNat < 128) ∧ name ∉ gate.reserved := by
    simp [isAscii, isReserved, and_assoc]
  refine Iff.trans ?_ conditions
  rw [verifyName]
  split
  next holds => exact ⟨fun _ => holds, fun _ => rfl⟩
  next fails => exact ⟨nofun, fun holds => absurd holds fails⟩

private theorem verifyVoid_eq_ok {name : String} :
    verifyVoid interface name = .ok () ↔ interface.signature? name = some { inputs := 0, outputs := 0 } := by
  rw [verifyVoid]
  cases interface.signature? name with
  | none => exact ⟨nofun, nofun⟩
  | some signature =>
    obtain ⟨inputs, outputs⟩ := signature
    simp [Signature.isVoid]

private theorem verifyExport_eq_ok {name : String} :
    gate.verifyExport interface name = .ok () ↔
      gate.verifyName name = .ok () ∧
        (name = "alloc" ∨ interface.signature? name = some { inputs := 0, outputs := 0 }) := by
  rw [verifyExport, bind_eq_ok, ← verifyVoid_eq_ok, allocator]
  split
  next exempt => exact and_congr_right (fun _ => ⟨fun _ => .inl exempt, fun _ => rfl⟩)
  next other => exact and_congr_right (fun _ => (or_iff_right other).symm)

private theorem verifyForbidden_eq_ok :
    verifyForbidden interface = .ok () ↔ ∀ name ∈ interface.exports, name ∉ forbidden := by
  have marked : interface.exports.any forbidden.contains = true ↔ ∃ name ∈ interface.exports, name ∈ forbidden := by
    simp only [List.any_eq_true, List.contains_iff_mem]
  rw [verifyForbidden]
  split
  next found =>
    obtain ⟨name, exported, listed⟩ := marked.mp found
    exact ⟨nofun, fun absent => absurd listed (absent name exported)⟩
  next clear => exact ⟨fun _ name exported listed => clear (marked.mpr ⟨name, exported, listed⟩), fun _ => rfl⟩

private theorem verify_eq_ok :
    gate.verify interface = .ok () ↔
      interface.hasMemory = true ∧ ∀ name ∈ interface.exports, gate.Proper interface name := by
  have memory : verifyMemory interface = .ok () ↔ interface.hasMemory = true := by
    rw [verifyMemory]
    split <;> simp_all
  rw [verify, bind_eq_ok, bind_eq_ok, memory, verifyFunctions, forM_eq_ok, verifyForbidden_eq_ok, ← forall₂_and]
  refine and_congr_right (fun _ => forall₂_congr (fun name _ => ?_))
  rw [verifyExport_eq_ok, verifyName_eq_ok]
  refine ⟨fun checks => ?_, fun proper => ?_⟩
  · obtain ⟨⟨⟨nonempty, short, ascii, unreserved⟩, void⟩, unmarked⟩ := checks
    exact ⟨nonempty, short, ascii, unreserved, unmarked, void⟩
  · exact ⟨⟨⟨proper.nonempty, proper.short, proper.ascii, proper.unreserved⟩, proper.void⟩, proper.unmarked⟩

end Gate

variable {environment : Environment}

private theorem Operations.transferCallValue_gas (ledger : Ledger) (input : CallInput) (machine : Machine) :
    Leaves (transferCallValue ledger input) machine (fun after => after.gas = machine.gas) := by
  have loaded : Leaves (loadBalance ledger input.caller) machine (fun after => after.gas = machine.gas) := by
    refine (loadBalance_ensures input.caller machine).weaken (fun _ after loading => ?_) (fun _ after same => ?_)
    · rcases loading.1 with same | noted
      · rw [same]
      · rw [noted]
        rfl
    · rw [same]
  refine Ensures.ite (fun _ => Ensures.pure _ rfl) (fun _ => ?_)
  refine Leaves.bind loaded (fun _ => id) (fun _ after loading => ?_)
  refine (Action.transfer_ensures _ _ _ after).weaken (fun _ _ moved => ?_) (fun _ _ same => ?_)
  · rw [moved]
    exact loading
  · rw [same]
    exact loading

namespace Host

variable (host : Host environment)

/-- All that the code of a call's recipient has passed before the body runs: what its compilation costs has been charged
to the tracker of the call. -/
structure Passed (ledger : Ledger) (input : CallInput) (tracker paid : GasTracker) (body : Program environment Unit)
    (code : Bytes) (contract : Instance (Program environment Unit)) : Prop where
  loaded : ledger.readCode input.recipient = .ok code
  nonempty : code ≠ []
  bounded : code.length ≤ host.rules.maxCodeSize
  charged : tracker.charge (host.rules.schedule.compileCost code.size) = (.ok (), paid)
  built : host.builder code = .ok contract
  verified : host.gate.verify contract.interface = .ok ()
  body : contract.body? input.function = some body

private theorem prepare_passes (ledger : Ledger) (input : CallInput) (machine : Machine) :
    Ensures (host.prepare ledger input) machine
      (fun body after => ∃ code contract,
        host.Passed ledger input machine.gas.active after.gas.active body code contract)
      (fun _ _ => True) := by
  refine Ensures.bind ((Action.ofExcept_ensures _ machine).weaken (fun _ _ => id) (fun _ _ _ => trivial)) ?_
  rintro code _ ⟨read, rfl⟩
  refine Ensures.ite (fun _ => Ensures.throw _ trivial) (fun nonempty => ?_)
  refine Ensures.ite (fun _ => Ensures.throw _ trivial) (fun bounded => ?_)
  refine Ensures.bind ((Action.charge_covers _ _).weaken (fun _ _ => id) (fun _ _ _ => trivial)) ?_
  rintro _ _ ⟨covered, rfl⟩
  refine Ensures.bind ((Action.ofExcept_ensures _ _).weaken (fun _ _ => id) (fun _ _ _ => trivial)) ?_
  rintro contract _ ⟨built, rfl⟩
  refine Ensures.bind ((Action.ofExcept_ensures _ _).weaken (fun _ _ => id) (fun _ _ _ => trivial)) ?_
  rintro _ _ ⟨verified, rfl⟩
  split
  next body found =>
    refine Ensures.pure _ ⟨code, contract, ?_⟩
    exact {
      loaded := by
        cases loads : ledger.readCode input.recipient with
        | error fault =>
          rw [loads] at read
          cases read
        | ok loaded =>
          rw [loads] at read
          cases read
          rfl
      nonempty := fun empty => nonempty (List.isEmpty_iff.mpr empty)
      bounded := Nat.le_of_not_lt bounded
      charged := by
        rw [GasTracker.charge_covered covered]
        rfl
      built := built
      verified := verified
      body := found }
  next => exact Ensures.throw _ trivial

private theorem stage_passes (input : CallInput) {world inside : World environment} {body : Program environment Unit}
    (stages : host.stage input world = .ok body inside) :
    ∃ code contract,
      host.Passed inside.ledger input world.machine.gas.active inside.machine.gas.active body code contract := by
  have passes : Ensures (host.stage input) world (fun body inside => ∃ code contract,
      host.Passed world.ledger input world.machine.gas.active inside.machine.gas.active body code contract)
      (fun _ _ => True) := by
    let uncharged (after : Machine) : Prop := after.gas = world.machine.gas
    have moved : Leaves (Run.onMachine (fun ledger => Operations.transferCallValue ledger input)) world
        (fun after => after.ledger = world.ledger ∧ uncharged after.machine) :=
      Run.onMachine_leaves (Operations.transferCallValue_gas world.ledger input world.machine)
    refine Ensures.bind (Ensures.weaken moved (fun _ _ => id) (fun _ _ _ => trivial)) ?_
    rintro _ after ⟨ledger, gas⟩
    have prepared := host.prepare_passes after.ledger input after.machine
    refine (Run.onMachine_ensures prepared).weaken ?_ (fun _ _ _ => trivial)
    rintro _ _ ⟨-, passed⟩
    rwa [ledger, gas] at passed
  rw [((host.stage_staged input world).of_ok stages).1]
  exact passes.of_ok stages

/-- A call of a transaction, and the moment at which the code of its recipient starts: the call that the transaction
begins with, or one that running code has made. -/
inductive Starts (input : CallInput) (world : World environment) : CallInput → Moment environment → Prop where
  | transaction {body : Program environment Unit} {inside : World environment}
      (opens : host.opening input { world with machine := world.machine.begin input } = .ok body inside) :
      Starts input world input ⟨host.rules.maxCallDepth - 1, body, inside⟩
  | nested {depthLeft : Nat} {context : Context} {call : CallInput}
      {next : Except Failure Unit → Program environment Unit} {before : World environment} {start : Moment environment}
      (visited : host.Visits input world ⟨depthLeft, .request (.call context call) next, before⟩)
      (enters : Moment.Into host ⟨depthLeft, .request (.call context call) next, before⟩ start) :
      Starts input world (addressed context call before) start

variable {host} {input call : CallInput} {world : World environment} {start moment : Moment environment}

/-- Whatever runs belongs to the code of some call. -/
theorem visits_started (visited : host.Visits input world moment) :
    ∃ call start, host.Starts input world call start ∧ Relation.ReflTransGen (Moment.Over host) start moment := by
  obtain ⟨body, inside, opens, reached⟩ := visited
  induction reached with
  | refl => exact ⟨_, _, .transaction opens, .refl⟩
  | tail reached step ih =>
    rcases step with across | within
    · obtain ⟨call, start, starts, runs⟩ := ih
      exact ⟨call, start, starts, runs.tail across⟩
    · cases within with
      | call descends => exact ⟨_, _, .nested ⟨body, inside, opens, reached⟩ (.call descends), .refl⟩

private theorem starts_passed (starts : host.Starts input world call start) :
    ∃ code contract, host.Passed start.ledger call { limit := call.gas } start.world.machine.gas.active start.program
      code contract := by
  cases starts with
  | transaction opens =>
    rcases host.opening_cases input world with ⟨failure, refused⟩ | ⟨-, staging⟩
    · cases refused.symm.trans opens
    · exact host.stage_passes input (staging.symm.trans opens)
  | nested visited enters =>
    cases enters with
    | call descends =>
      obtain ⟨-, -, stages⟩ := host.descend_iff.mp descends
      have passed := host.stage_passes _ stages
      rw [entered_gas] at passed
      exact passed

variable (host)

/-- Whether the gate is open to the contract of a code. -/
def opensTo (code : Bytes) (contract : Instance (Program environment Unit)) : Bool :=
  !code.isEmpty && code.length ≤ host.rules.maxCodeSize && (host.gate.verify contract.interface).isOk

/-- The host without the bodies of the contracts that it does not let in. -/
def sealed : Host environment :=
  { host with
    builder := fun code => (host.builder code).map (fun contract =>
      if host.opensTo code contract then contract else { contract with body? := fun _ => none }) }

/-- The last step before a body runs: the gate, and the choice of the body. -/
def bodyOf (function : String) (contract : Instance (Program environment Unit)) : Action (Program environment Unit) := do
  Action.ofExcept (host.gate.verify contract.interface)
  match contract.body? function with
  | some body => return body
  | none => throw (.functionNotFound function)

/-- What bodies a refused contract has makes no difference. -/
theorem bodyOf_refused (function : String) {first second : Instance (Program environment Unit)}
    (same : first.interface = second.interface) (refused : (host.gate.verify second.interface).isOk = false) :
    host.bodyOf function first = host.bodyOf function second := by
  rw [bodyOf, bodyOf, same]
  cases verified : host.gate.verify second.interface with
  | error failure => rfl
  | ok _ =>
    rw [verified] at refused
    cases refused

private theorem built_sealed (function : String) {code : Bytes} (nonempty : code.isEmpty = false)
    (short : code.length ≤ host.rules.maxCodeSize) :
    (Action.ofExcept (host.sealed.builder code) >>= host.bodyOf function) =
      (Action.ofExcept (host.builder code) >>= host.bodyOf function) := by
  simp only [sealed]
  cases built : host.builder code with
  | error failure => rfl
  | ok contract =>
    change host.bodyOf function (if host.opensTo code contract then contract else _) = host.bodyOf function contract
    split
    next => rfl
    next shut =>
      refine host.bodyOf_refused function rfl ?_
      simpa [opensTo, nonempty, short] using shut

private theorem prepare_sealed (ledger : Ledger) (input : CallInput) :
    host.sealed.prepare ledger input = host.prepare ledger input := by
  refine congrArg (_ >>= ·) (funext fun code => ?_)
  refine ite_congr rfl (fun _ => rfl) (fun nonempty => ?_)
  refine ite_congr rfl (fun _ => rfl) (fun short => ?_)
  refine congrArg (Action.charge (host.rules.schedule.compileCost code.size) >>= ·) (funext fun _ => ?_)
  exact host.built_sealed input.function (Bool.eq_false_iff.mpr nonempty) (Nat.le_of_not_lt short)

private theorem serve_sealed (nested : Context → CallInput → Run environment Unit) :
    host.sealed.serve nested = host.serve nested := by
  funext operation
  cases operation <;> rfl

private theorem execute_sealed (nested : Context → CallInput → Run environment Unit) :
    host.sealed.execute nested = host.execute nested := by
  funext input
  simp only [execute, prepare_sealed, serve_sealed]

private theorem callWithin_sealed (depthLeft : Nat) : host.sealed.callWithin depthLeft = host.callWithin depthLeft := by
  induction depthLeft with
  | zero => rfl
  | succ depthLeft ih =>
    change host.call (host.sealed.execute (host.sealed.callWithin depthLeft)) = _
    rw [ih, execute_sealed]
    rfl

private theorem run_sealed : host.sealed.run = host.run := by
  have topLevel : host.sealed.executeTopLevel = host.executeTopLevel := by
    funext input
    change (_ >>= fun _ => _ >>= fun _ =>
      host.sealed.execute (host.sealed.callWithin (host.rules.maxCallDepth - 1)) input) = _
    rw [callWithin_sealed, execute_sealed]
    rfl
  funext input world
  simp only [run, topLevel]

/-- Whatever runs in a transaction, at any depth, is the body of a contract that the gate has let in after its compilation
was paid for, and the host answers as if there were no other bodies. What the gate lets in is a matter of what the
exports are, not of where they stand. -/
theorem no_code_runs_unadmitted :
    (∀ (input : CallInput) (world : World environment),
      (∀ moment, host.Visits input world moment →
        ∃ call start, host.Starts input world call start ∧ Relation.ReflTransGen (Moment.Over host) start moment) ∧
      ∀ call start, host.Starts input world call start →
        ∃ code contract, host.Passed start.ledger call { limit := call.gas } start.world.machine.gas.active start.program
          code contract) ∧
    host.sealed.run = host.run ∧
    (∀ (gate : Gate) (interface : Interface), gate.verify interface = .ok () ↔
      interface.hasMemory = true ∧ ∀ name ∈ interface.exports, gate.Proper interface name) ∧
    ∀ (gate : Gate) (first second : Interface), first.hasMemory = second.hasMemory →
      first.signature? = second.signature? → (∀ name, name ∈ first.exports ↔ name ∈ second.exports) →
      (gate.verify first = .ok () ↔ gate.verify second = .ok ()) := by
  refine ⟨fun _ _ => ⟨fun _ => visits_started, fun _ _ => starts_passed⟩, host.run_sealed, Gate.verify_eq_ok, ?_⟩
  intro gate first second memory signatures exports
  have proper (name : String) : gate.Proper first name ↔ gate.Proper second name := by
    constructor <;> rintro ⟨nonempty, short, ascii, unreserved, unmarked, void⟩
    · exact ⟨nonempty, short, ascii, unreserved, unmarked, signatures ▸ void⟩
    · exact ⟨nonempty, short, ascii, unreserved, unmarked, signatures ▸ void⟩
  simp only [Gate.verify_eq_ok, memory, exports, proper]

/-- Compiling costs three units a byte, and the first contract leaves five units to the second. -/
def compiling : Host Environment.silent :=
  scripted { GasSchedule.zero with compilePerByte := 3 }
    (.request (.call .destination { recipient := .second, gas := 5 }) fun _ => .done ()) (.done ())

def compiled : Moment Environment.silent :=
  let call : CallInput := { recipient := .second, gas := 5 }
  let first := (outcome (compiling.opening { gas := 10 })
    { World.scripted with machine := World.scripted.machine.begin { gas := 10 } }).2
  ⟨62, .done (), (outcome (compiling.descend .destination call) first).2⟩

theorem compiled_admitted :
    ∃ call code contract, compiling.Starts { gas := 10 } .scripted call compiled ∧
      compiling.Passed compiled.ledger call { limit := 5 } compiled.world.machine.gas.active (.done ()) code contract ∧
      compiled.world.machine.gas.active = { limit := 5, used := 3 } := by
  obtain ⟨moments, -⟩ := no_code_runs_unadmitted compiling
  obtain ⟨-, passed⟩ := moments { gas := 10 } .scripted
  have opened : compiling.opening { gas := 10 }
      { World.scripted with machine := World.scripted.machine.begin { gas := 10 } } = .ok _ _ := rfl
  have starts : compiling.Starts { gas := 10 } .scripted _ compiled := .nested ⟨_, _, opened, .refl⟩ (.call rfl)
  obtain ⟨code, contract, through⟩ := passed _ compiled starts
  exact ⟨_, code, contract, starts, through, by decide +kernel⟩

end Host

end ContractHost
