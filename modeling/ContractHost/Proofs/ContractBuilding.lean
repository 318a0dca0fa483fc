import ContractHost.Proofs.Admission
import ContractHost.Proofs.SortedMap
import Mathlib.Data.List.Basic
import Mathlib.Data.List.Induction

/-! Contracts that are put together step by step. What a contract exports and what it tells about its exports come from
two maps that may share keys or not, and the two agree: every export has a signature, and no other name has one. -/

namespace ContractHost

variable {β : Type}

/-- One step in putting a contract together. -/
inductive BuildStep (β : Type) where
  | function (name : String) (body : β)
  | signature (name : String) (given : Signature)
  | noMemory

namespace BuildStep

def add : BuildStep β → Contract β → Contract β
  | function name body, contract => contract.withFunction name body
  | signature name given, contract => contract.withSignature name given
  | noMemory, contract => contract.withoutMemory

/-- The name that the step touches. -/
def name? : BuildStep β → Option String
  | function name _ => some name
  | signature name _ => some name
  | noMemory => none

def body? (name : String) : BuildStep β → Option β
  | function held body => if name = held then some body else none
  | _ => none

def signature? (name : String) : BuildStep β → Option Signature
  | signature held given => if name = held then some given else none
  | _ => none

variable (step : BuildStep β)

section

variable (contract : Contract β) (name : String)

private theorem functions_add :
    (step.add contract).functions.find? name = (step.body? name).or (contract.functions.find? name) := by
  cases step with
  | function held body =>
    apply (SortedMap.find?_insert contract.functions held name body).trans
    rw [body?]
    split <;> rfl
  | signature held given => rfl
  | noMemory => rfl

private theorem signatures_add :
    (step.add contract).signatures.find? name = (step.signature? name).or (contract.signatures.find? name) := by
  cases step with
  | function held body => rfl
  | signature held given =>
    apply (SortedMap.find?_insert contract.signatures held name given).trans
    rw [signature?]
    split <;> rfl
  | noMemory => rfl

private theorem hasMemory_add : (step.add contract).hasMemory = (step.name?.isSome && contract.hasMemory) := by
  cases step <;> rfl

end

variable {step} {name : String}

private theorem body?_eq_some {body : β} : step.body? name = some body ↔ step = .function name body := by
  cases step with
  | function held other => simp [body?, eq_comm]
  | _ => exact ⟨nofun, nofun⟩

private theorem signature?_eq_some {given : Signature} :
    step.signature? name = some given ↔ step = .signature name given := by
  cases step with
  | signature held other => simp [signature?, eq_comm]
  | _ => exact ⟨nofun, nofun⟩

private theorem name?_of_body? {body : β} (given : step.body? name = some body) : step.name? = some name := by
  rw [body?_eq_some.mp given, name?]

private theorem name?_of_signature? {signature : Signature} (given : step.signature? name = some signature) :
    step.name? = some name := by
  rw [signature?_eq_some.mp given, name?]

end BuildStep

namespace Contract

def build (steps : List (BuildStep β)) : Contract β := steps.foldl (fun contract step => step.add contract) {}

variable (steps : List (BuildStep β)) (name : String)

private theorem build_concat (step : BuildStep β) : build (steps ++ [step]) = step.add (build steps) :=
  List.foldl_append

private theorem last_concat {α γ : Type} (give : α → Option γ) (items : List α) (item : α) :
    ((items ++ [item]).filterMap give).getLast? = (give item).or (items.filterMap give).getLast? := by
  rw [List.filterMap_append, List.getLast?_append]
  cases given : give item <;> simp [given]

/-- Of several bodies given to a name the last one counts. -/
theorem functions_build : (build steps).functions.find? name = (steps.filterMap (·.body? name)).getLast? := by
  -- From the end, as what the last step gives goes before all that was given earlier.
  induction steps using List.reverseRecOn with
  | nil => rfl
  | append_singleton steps step ih =>
    rw [build_concat, step.functions_add, ih, last_concat]

private theorem signatures_build :
    (build steps).signatures.find? name = (steps.filterMap (·.signature? name)).getLast? := by
  induction steps using List.reverseRecOn with
  | nil => rfl
  | append_singleton steps step ih =>
    rw [build_concat, step.signatures_add, ih, last_concat]

private theorem hasMemory_build : (build steps).hasMemory = (steps.filter (·.name? = none)).isEmpty := by
  induction steps using List.reverseRecOn with
  | nil => rfl
  | append_singleton steps step ih =>
    rw [build_concat, step.hasMemory_add, ih, List.filter_append]
    cases touched : step.name? <;> simp [touched]

end Contract

namespace SortedMap

variable {α : Type} (map : SortedMap String α)

private theorem keys_ascending : map.keys.Pairwise (· < ·) := by
  apply List.pairwise_map.mpr
  exact map.ascending.imp compareOfLessAndEq_eq_lt.mp

private theorem mem_keys_iff {key : String} : key ∈ map.keys ↔ (map.find? key).isSome := by
  rw [keys, List.mem_map, Option.isSome_iff_exists]
  constructor
  · rintro ⟨⟨held, value⟩, member, rfl⟩
    exact ⟨value, mem_entries_iff.mp member⟩
  · rintro ⟨value, found⟩
    exact ⟨(key, value), mem_entries_iff.mpr found, rfl⟩

end SortedMap

namespace Gate

private theorem bind_eq_error {first second : Except Failure Unit} {failure : Failure}
    (failed : (first >>= fun _ => second) = .error failure) : first = .error failure ∨ second = .error failure := by
  cases first with
  | error other => exact .inl failed
  | ok _ => exact .inr failed

private theorem forM_eq_error {names : List String} {check : String → Except Failure Unit} {failure : Failure}
    (failed : names.forM check = .error failure) : ∃ name ∈ names, check name = .error failure := by
  induction names with
  | nil => cases failed
  | cons name names ih =>
    rcases bind_eq_error failed with here | there
    · exact ⟨name, List.mem_cons_self, here⟩
    · obtain ⟨other, member, fails⟩ := ih there
      exact ⟨other, List.mem_cons_of_mem _ member, fails⟩

variable {gate : Gate} {interface : Interface} {name : String}

private theorem verifyExport_not_found {other : String}
    (failed : gate.verifyExport interface name = .error (.functionNotFound other)) :
    interface.signature? name = none := by
  rcases bind_eq_error failed with misnamed | missing
  · rw [verifyName] at misnamed
    split at misnamed <;> cases misnamed
  · split at missing
    · cases missing
    · rw [verifyVoid] at missing
      split at missing
      next unknown => exact unknown
      next => split at missing <;> cases missing

/-- Only an export without a signature is answered in this way. -/
theorem verify_not_found (failed : gate.verify interface = .error (.functionNotFound name)) :
    ∃ other ∈ interface.exports, interface.signature? other = none := by
  rcases bind_eq_error failed with memory | rest
  · rw [verifyMemory] at memory
    split at memory <;> cases memory
  · rcases bind_eq_error rest with functions | marked
    · obtain ⟨other, exported, fails⟩ := forM_eq_error functions
      exact ⟨other, exported, verifyExport_not_found fails⟩
    · rw [verifyForbidden] at marked
      split at marked <;> cases marked

end Gate

namespace Contract

section

variable (contract : Contract β) {name : String}

private theorem mem_others : name ∈ contract.signatures.keys.filter (fun name => !contract.functions.contains name) ↔
    name ∈ contract.signatures.keys ∧ name ∉ contract.functions.keys := by
  rw [List.mem_filter, SortedMap.mem_keys_iff contract.functions, SortedMap.contains, Bool.not_eq_eq_eq_not,
    Bool.not_true, Bool.not_eq_true]

private theorem mem_exports :
    name ∈ contract.exports ↔ name ∈ contract.functions.keys ∨ name ∈ contract.signatures.keys := by
  rw [exports, List.mem_append, mem_others]
  by_cases bodied : name ∈ contract.functions.keys
  · exact ⟨fun _ => .inl bodied, fun _ => .inl bodied⟩
  · exact or_congr_right (and_iff_left bodied)

private theorem exports_nodup : contract.exports.Nodup := by
  have distinct {first second : String} (below : first < second) : first ≠ second := by
    rintro rfl
    exact String.lt_irrefl first below
  rw [exports, List.nodup_append]
  refine ⟨contract.functions.keys_ascending.imp distinct, ?_, ?_⟩
  · exact (contract.signatures.keys_ascending.imp distinct).filter _
  · rintro name bodied _ other rfl
    exact (contract.mem_others.mp other).2 bodied

/-- The signature of an export is the one it has been given, or else the void one. -/
theorem signature?_eq (name : String) : contract.signature? name =
    if name ∈ contract.exports then some ((contract.signatures.find? name).getD { inputs := 0, outputs := 0 })
    else none := by
  have exported : name ∈ contract.exports ↔ _ := contract.mem_exports
  rw [SortedMap.mem_keys_iff, SortedMap.mem_keys_iff] at exported
  rw [signature?, SortedMap.contains, if_congr exported rfl rfl]
  cases contract.functions.find? name <;> cases contract.signatures.find? name <;> rfl

private theorem verify_finds (gate : Gate) (name : String) :
    gate.verify contract.interface ≠ .error (.functionNotFound name) := by
  intro failed
  obtain ⟨other, exported, unknown⟩ := Gate.verify_not_found failed
  have known : contract.signature? other = _ := (contract.signature?_eq other).trans (if_pos exported)
  rw [show contract.signature? other = none from unknown] at known
  cases known

end

variable (steps : List (BuildStep β)) {name : String}

private theorem isSome_last {γ : Type} (give : BuildStep β → Option γ) :
    (steps.filterMap give).getLast?.isSome ↔ ∃ given, ∃ step ∈ steps, give step = some given := by
  rw [List.getLast?_isSome]
  constructor
  · intro nonempty
    obtain ⟨given, member⟩ := List.exists_mem_of_ne_nil _ nonempty
    exact ⟨given, List.mem_filterMap.mp member⟩
  · rintro ⟨given, found⟩
    exact List.ne_nil_of_mem (List.mem_filterMap.mpr found)

private theorem mem_functions_build : name ∈ (build steps).functions.keys ↔ ∃ body, .function name body ∈ steps := by
  rw [SortedMap.mem_keys_iff, functions_build, isSome_last]
  simp only [BuildStep.body?_eq_some, exists_eq_right]

private theorem mem_signatures_build :
    name ∈ (build steps).signatures.keys ↔ ∃ given, .signature name given ∈ steps := by
  rw [SortedMap.mem_keys_iff, signatures_build, isSome_last]
  simp only [BuildStep.signature?_eq_some, exists_eq_right]

private theorem mem_exports_build : name ∈ (build steps).exports ↔ ∃ step ∈ steps, step.name? = some name := by
  rw [mem_exports, mem_functions_build, mem_signatures_build]
  constructor
  · rintro (⟨body, member⟩ | ⟨given, member⟩)
    · exact ⟨_, member, rfl⟩
    · exact ⟨_, member, rfl⟩
  · rintro ⟨step, member, named⟩
    cases step with
    | function held body => cases named; exact .inl ⟨body, member⟩
    | signature held given => cases named; exact .inr ⟨given, member⟩
    | noMemory => cases named

/-- What steps give to a name is given by those that touch it. -/
theorem filterMap_alike {first second : List (BuildStep β)} {γ : Type} {give : BuildStep β → Option γ}
    (touches : ∀ {step given}, give step = some given → step.name? = some name)
    (alike : first.filter (·.name? = some name) = second.filter (·.name? = some name)) :
    first.filterMap give = second.filterMap give := by
  have touching (steps : List (BuildStep β)) :
      (steps.filter (·.name? = some name)).filterMap give = steps.filterMap give := by
    rw [List.filterMap_filter]
    apply List.filterMap_congr
    intro step _
    split
    next => rfl
    next elsewhere =>
      cases given : give step with
      | none => rfl
      | some value => exact absurd (decide_eq_true (touches given)) elsewhere
  rw [← touching first, alike, touching second]

/-- Steps may change places as long as those that touch one name stay in order. -/
theorem build_reordered {first second : List (BuildStep β)}
    (alike : ∀ touched, first.filter (·.name? = touched) = second.filter (·.name? = touched)) :
    build first = build second := by
  have functions : (build first).functions = (build second).functions := by
    apply SortedMap.ext_find?
    intro name
    rw [functions_build, functions_build, filterMap_alike BuildStep.name?_of_body? (alike (some name))]
  have signatures : (build first).signatures = (build second).signatures := by
    apply SortedMap.ext_find?
    intro name
    rw [signatures_build, signatures_build, filterMap_alike BuildStep.name?_of_signature? (alike (some name))]
  have hasMemory : (build first).hasMemory = (build second).hasMemory := by
    rw [hasMemory_build, hasMemory_build, alike]
  calc build first = ⟨(build first).functions, (build first).signatures, (build first).hasMemory⟩ := rfl
    _ = ⟨(build second).functions, (build second).signatures, (build second).hasMemory⟩ := by
      rw [functions, signatures, hasMemory]
    _ = build second := rfl

/-- Neighbours that touch different names may change places. -/
theorem filter_swap {one two : BuildStep β} (apart : one.name? ≠ two.name?) (earlier later : List (BuildStep β))
    (touched : Option String) :
    (earlier ++ one :: two :: later).filter (·.name? = touched) =
      (earlier ++ two :: one :: later).filter (·.name? = touched) := by
  rw [List.filter_append, List.filter_append]
  by_cases first : one.name? = touched
  · have second : two.name? ≠ touched := fun same => apart (first.trans same.symm)
    simp [first, second]
  · simp [first, List.filter_cons]

/-- Whatever was put together in whatever order, the exports are told apart and each has the signature given to it last,
or the void one. Steps that touch different names may change places. -/
theorem built_coherent :
    let contract := build steps
    (∃ bodied others, contract.exports = bodied ++ others ∧ bodied.Pairwise (· < ·) ∧ others.Pairwise (· < ·) ∧
      (∀ name, name ∈ bodied ↔ ∃ body, .function name body ∈ steps) ∧
      ∀ name, name ∈ others ↔ (∃ given, .signature name given ∈ steps) ∧ ∀ body, .function name body ∉ steps) ∧
    contract.exports.Nodup ∧
    (∀ name, name ∈ contract.exports ↔ ∃ step ∈ steps, step.name? = some name) ∧
    (∀ name, contract.signature? name =
      if name ∈ contract.exports then
        some ((steps.filterMap (·.signature? name)).getLast?.getD { inputs := 0, outputs := 0 })
      else none) ∧
    (∀ (gate : Gate) name, gate.verify contract.interface ≠ .error (.functionNotFound name)) ∧
    ∀ reordered : List (BuildStep β),
      (∀ touched, reordered.filter (·.name? = touched) = steps.filter (·.name? = touched)) →
      build reordered = contract ∧
        ∀ gate : Gate, gate.verify (build reordered).interface = gate.verify contract.interface := by
  intro contract
  refine ⟨⟨_, _, rfl, contract.functions.keys_ascending, contract.signatures.keys_ascending.filter _, ?_, ?_⟩,
    contract.exports_nodup, fun name => mem_exports_build steps, ?_, contract.verify_finds, ?_⟩
  · exact fun name => mem_functions_build steps
  · intro name
    rw [mem_others, mem_functions_build, mem_signatures_build, not_exists]
  · intro name
    rw [signature?_eq, signatures_build]
  · intro reordered alike
    have same : build reordered = contract := build_reordered alike
    exact ⟨same, fun gate => same ▸ rfl⟩

/-- A contract with two bodies for `greet` and none for `wave`. -/
def greeter (middle : List (BuildStep Nat)) : List (BuildStep Nat) :=
  .signature "wave" ⟨0, 1⟩ :: .function "greet" 1 :: middle ++ [.function "greet" 3]

theorem greeter_coherent :
    let built := build (greeter [.signature "greet" ⟨1, 0⟩, .function "ask" 2])
    let again := build (greeter [.function "ask" 2, .signature "greet" ⟨1, 0⟩])
    built.exports = ["ask", "greet", "wave"] ∧ built.exports.Nodup ∧
      built.signature? "ask" = some { inputs := 0, outputs := 0 } ∧ again = built ∧
      Gate.standard.verify again.interface = .error (.nonvoidSignature "greet") := by
  intro built again
  obtain ⟨-, distinct, -, signatures, -, reorder⟩ :=
    built_coherent (greeter [.signature "greet" ⟨1, 0⟩, .function "ask" 2])
  obtain ⟨same, verdicts⟩ := reorder (greeter [.function "ask" 2, .signature "greet" ⟨1, 0⟩])
    (filter_swap (by decide) [.signature "wave" ⟨0, 1⟩, .function "greet" 1] [.function "greet" 3])
  exact ⟨by decide +kernel, distinct, (signatures "ask").trans (by decide +kernel), same,
    (verdicts .standard).trans (by decide +kernel)⟩

end Contract

end ContractHost
