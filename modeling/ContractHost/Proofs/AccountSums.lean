import Mathlib.Algebra.BigOperators.Finprod
import ContractHost.Proofs.SortedMap

/-! Sums over all accounts. There are more addresses than can be listed, but only those that a map has an entry for
contribute to a sum. -/

namespace ContractHost

universe u v

namespace SortedMap

variable {κ : Type u} {α : Type v} [Ord κ]

/-- The measure of the value of a key, nothing where there is none. -/
def measured (measure : α → Nat) (map : SortedMap κ α) (key : κ) : Nat := ((map.find? key).map measure).getD 0

variable [Std.LawfulEqOrd κ]

private theorem keys_nodup (map : SortedMap κ α) : map.keys.Nodup := by
  refine List.pairwise_map.mpr (map.ascending.imp ?_)
  exact fun below => ne_of_compare_lt below

variable [DecidableEq κ]

theorem finite_keys (map : SortedMap κ α) : {key | (map.find? key).isSome}.Finite := by
  refine (List.finite_toSet map.keys).subset ?_
  intro key some
  obtain ⟨value, found⟩ := Option.isSome_iff_exists.mp some
  exact List.mem_map.mpr ⟨(key, value), mem_entries_iff.mpr found, rfl⟩

theorem finsum_measured (measure : α → Nat) (map : SortedMap κ α) :
    ∑ᶠ key, map.measured measure key = (map.values.map measure).sum := by
  have supported : Function.support (map.measured measure) ⊆ ↑map.keys.toFinset := by
    intro key contributes
    rw [Function.mem_support, measured] at contributes
    cases found : map.find? key with
    | none =>
      rw [found] at contributes
      exact absurd rfl contributes
    | some value =>
      rw [List.coe_toFinset]
      exact List.mem_map.mpr ⟨(key, value), mem_entries_iff.mpr found, rfl⟩
  rw [finsum_eq_sum_of_support_subset _ supported, List.sum_toFinset _ map.keys_nodup, keys, values, List.map_map,
    List.map_map]
  refine congrArg List.sum (List.map_congr_left ?_)
  intro entry member
  simp only [Function.comp, measured, mem_entries_iff.mp member]
  rfl

end SortedMap

variable {ι : Type u} [DecidableEq ι]

theorem finsum_add_at {before after : ι → Nat} (finite : (Function.support before).Finite) (place : ι) (amount : Nat)
    (adds : ∀ other, after other = before other + if other = place then amount else 0) :
    ∑ᶠ other, after other = ∑ᶠ other, before other + amount := by
  have single : (Function.support (fun other => if other = place then amount else 0)).Finite := by
    refine (Set.finite_singleton place).subset ?_
    intro other contributes
    by_contra apart
    exact contributes (if_neg apart)
  have alone : ∑ᶠ other, (if other = place then amount else 0) = amount := by
    rw [finsum_eq_single _ place (fun other apart => if_neg apart), if_pos rfl]
  rw [finsum_congr adds, finsum_add_distrib finite single, alone]

/-- What is taken from one term and added to one stays in the sum. -/
theorem finsum_move {before after : ι → Nat} (first : (Function.support before).Finite)
    (last : (Function.support after).Finite) (source destination : ι) (amount : Nat)
    (moves : ∀ other, after other + (if other = source then amount else 0) =
      before other + (if other = destination then amount else 0)) :
    ∑ᶠ other, after other = ∑ᶠ other, before other := by
  let between (other : ι) := before other + if other = destination then amount else 0
  have taken : ∑ᶠ other, between other = ∑ᶠ other, after other + amount :=
    finsum_add_at last source amount (fun other => (moves other).symm)
  have given : ∑ᶠ other, between other = ∑ᶠ other, before other + amount :=
    finsum_add_at first destination amount (fun _ => rfl)
  exact Nat.add_right_cancel (taken.symm.trans given)

end ContractHost
