import Mathlib.Logic.Function.Iterate
import ContractHost.Proofs.LayerView

/-! Merging in any grouping. Calls that run on outputs of their own are merged into their callers' one after another as
they come back, the innermost first. What comes of it depends on the order of the outputs in time alone, not on which
of them are merged first. -/

namespace ContractHost

/-- A way to merge a sequence of outputs, two neighbours at a time. -/
inductive Grouping where
  | single (output : Output)
  | pair (earlier later : Grouping)

namespace Grouping

def outputs : Grouping → List Output
  | single output => [output]
  | pair earlier later => earlier.outputs ++ later.outputs

def merged : Grouping → Output
  | single output => output
  | pair earlier later => earlier.merged.merge later.merged

private theorem merge_merged (grouping : Grouping) (base : Output) :
    base.merge grouping.merged = grouping.outputs.foldl Output.merge base := by
  induction grouping generalizing base with
  | single output => rfl
  | pair earlier later before after =>
    calc base.merge (earlier.merged.merge later.merged)
        = (base.merge earlier.merged).merge later.merged := (Output.merge_assoc _ _ _).symm
      _ = later.outputs.foldl Output.merge (earlier.outputs.foldl Output.merge base) := by rw [after, before]
      _ = (earlier.outputs ++ later.outputs).foldl Output.merge base := List.foldl_append.symm

/-- Every grouping comes to merging the later outputs into the first one, one by one. -/
theorem merged_eq (grouping : Grouping) :
    ∃ first rest, grouping.outputs = first :: rest ∧ grouping.merged = rest.foldl Output.merge first := by
  induction grouping with
  | single output => exact ⟨output, [], rfl, rfl⟩
  | pair earlier later before after =>
    obtain ⟨first, rest, outputs, merged⟩ := before
    refine ⟨first, rest ++ later.outputs, ?_, ?_⟩
    · rw [Grouping.outputs, outputs, List.cons_append]
    · rw [Grouping.merged, merge_merged, merged, List.foldl_append]

private theorem merged_congr {left right : Grouping} (same : left.outputs = right.outputs) :
    left.merged = right.merged := by
  obtain ⟨first, rest, leftOutputs, leftMerged⟩ := left.merged_eq
  obtain ⟨other, others, rightOutputs, rightMerged⟩ := right.merged_eq
  rw [leftOutputs, rightOutputs] at same
  obtain ⟨rfl, rfl⟩ := List.cons.inj same
  rw [leftMerged, rightMerged]

end Grouping

namespace Output

private theorem merge_blank (output : Output) {blank : Output} (accounts : blank.accounts = .empty)
    (data : blank.data = []) (logs : blank.logs = []) : output.merge blank = output := by
  rw [merge, accounts, data, logs]
  exact merge_empty output

private theorem blank_merge (output : Output) {blank : Output} (accounts : blank.accounts = .empty)
    (data : blank.data = []) (logs : blank.logs = []) :
    blank.merge output = { blank with accounts := output.accounts, data := output.data, logs := output.logs } := by
  rw [merge, accounts, data, logs, SortedMap.empty_union, List.nil_append, List.nil_append]

end Output

namespace Layers

private theorem merge_isolated {top : Layer} (isolated : top.isolated = true) (beneath : Layer) (older : List Layer) :
    merge ⟨top, beneath :: older⟩ = ⟨{ beneath with output := beneath.output.merge top.output }, older⟩ := by
  simp only [merge, Stacked.restoreWith, isolated, if_true]

/-- Closing a chain of isolated layers, the topmost first, merges each into the one that stands beneath them all. -/
theorem merge_chain (top base : Layer) (between older : List Layer)
    (isolated : ∀ layer ∈ top :: between, layer.isolated = true) :
    merge^[between.length + 1] ⟨top, between ++ base :: older⟩ =
      ⟨{ base with output := ((top :: between).map (·.output)).foldr (fun later earlier => earlier.merge later) base.output },
        older⟩ := by
  -- The first merge makes one layer of the two topmost ones: the chain is one shorter then, and still isolated.
  induction between generalizing top with
  | nil => exact merge_isolated (isolated top List.mem_cons_self) base older
  | cons next between ih =>
    obtain ⟨first, rest⟩ := List.forall_mem_cons.mp isolated
    let joined : Layer := { next with output := next.output.merge top.output }
    have still : ∀ layer ∈ joined :: between, layer.isolated = true :=
      List.forall_mem_cons.mpr (List.forall_mem_cons.mp rest)
    rw [List.length_cons, Function.iterate_succ_apply, List.cons_append, merge_isolated first, ih joined still]
    simp only [List.map_cons, List.foldr_cons, joined, Output.merge_assoc]

/-- Merging is associative, an output without effects changes nothing, and any two ways to group the merges of a
sequence of outputs come to the same, the way in which a chain of isolated layers is closed being one of them. -/
theorem merges_in_any_grouping :
    (∀ first second third : Output, (first.merge second).merge third = first.merge (second.merge third)) ∧
    (∀ output blank : Output, blank.accounts = .empty → blank.data = [] → blank.logs = [] →
      output.merge blank = output ∧
        blank.merge output = { blank with accounts := output.accounts, data := output.data, logs := output.logs }) ∧
    (∀ left right : Grouping, left.outputs = right.outputs → left.merged = right.merged) ∧
    ∀ (top base : Layer) (between older : List Layer) (grouping : Grouping),
      (∀ layer ∈ top :: between, layer.isolated = true) →
      grouping.outputs = ((top :: between ++ [base]).map (·.output)).reverse →
      merge^[between.length + 1] ⟨top, between ++ base :: older⟩ =
        ⟨{ base with output := grouping.merged }, older⟩ := by
  refine ⟨Output.merge_assoc, fun output blank accounts data logs => ?_, fun _ _ => Grouping.merged_congr, ?_⟩
  · exact ⟨output.merge_blank accounts data logs, output.blank_merge accounts data logs⟩
  · intro top base between older grouping isolated outputs
    obtain ⟨first, rest, listed, merged⟩ := grouping.merged_eq
    rw [listed, List.map_append, List.reverse_append, List.map_singleton, List.reverse_singleton,
      List.singleton_append] at outputs
    obtain ⟨rfl, rfl⟩ := List.cons.inj outputs
    rw [merge_chain top base between older isolated, merged, List.foldl_reverse]

def overwriting (value : UInt8) (delta : Int) (isolated : Bool) : Layer where
  output := ({} : Output).modifyAccount .zero (fun change => { change.write [7] [value] with balanceDelta := delta })
  isolated := isolated

theorem three_layers_merge :
    let first := overwriting 1 2 false
    let second := overwriting 2 4 true
    let third := overwriting 3 (-5) true
    let closed := merge^[2] ⟨third, [second, first]⟩
    closed = ⟨{ output := (first.output.merge second.output).merge third.output }, []⟩ ∧
      closed.written? .zero [7] = some [3] ∧ closed.balanceDelta .zero = 1 := by
  intro first second third closed
  let grouping : Grouping := .pair (.pair (.single first.output) (.single second.output)) (.single third.output)
  obtain ⟨-, -, -, chain⟩ := merges_in_any_grouping
  exact ⟨chain third first [second] [] grouping (by decide) rfl, by decide +kernel, by decide +kernel⟩

end Layers

end ContractHost
