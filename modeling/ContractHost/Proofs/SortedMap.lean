import Mathlib.Algebra.Order.Ring.Int
import ContractHost.SortedMap

/-! What a map holds once the entries of another one have been brought in, and sums over all of its entries. -/

namespace ContractHost.SortedMap

universe u v w

variable {κ : Type u} {α : Type v} {β : Type w} [Ord κ]

/-- Bring entries in one after another, each combined with what its key held. -/
def absorb [Std.TransOrd κ] (combine : Option α → β → α) (map : SortedMap κ α) (entries : List (κ × β)) :
    SortedMap κ α :=
  entries.foldl (fun map entry => map.insert entry.1 (combine (map.find? entry.1) entry.2)) map

def total (measure : κ → α → Int) (map : SortedMap κ α) : Int :=
  (map.entries.map (fun entry => measure entry.1 entry.2)).sum

private theorem union_eq_absorb [Std.TransOrd κ] (join : α → α → α) (left right : SortedMap κ α) :
    left.union join right =
      left.absorb (fun held value => match held with | some held => join held value | none => value)
        right.entries :=
  rfl

@[simp] theorem union_empty [Std.TransOrd κ] (join : α → α → α) (map : SortedMap κ α) :
    map.union join .empty = map :=
  rfl

theorem lookup_of_below {key : κ} {entries : List (κ × α)}
    (below : ∀ entry ∈ entries, compare key entry.1 = .lt) : lookup key entries = none :=
  lookup_eq_none (fun entry member => by rw [below entry member]; decide)

theorem isEmpty_iff {map : SortedMap κ α} : map.isEmpty = true ↔ map = .empty := by
  obtain ⟨entries, ascending⟩ := map
  cases entries <;> simp [isEmpty, empty]

variable [Std.LawfulEqOrd κ]

theorem ne_of_compare_lt {key other : κ} (below : compare key other = .lt) : key ≠ other := by
  intro same
  rw [Std.LawfulEqOrd.compare_eq_iff_eq.mpr same] at below
  cases below

variable [DecidableEq κ]

theorem lookup_cons (key held : κ) (value : α) (rest : List (κ × α)) :
    lookup key ((held, value) :: rest) = if key = held then some value else lookup key rest := by
  simp only [lookup, Std.LawfulEqOrd.compare_eq_iff_eq]

private theorem mem_of_lookup {key : κ} {value : α} {entries : List (κ × α)} (found : lookup key entries = some value) :
    (key, value) ∈ entries := by
  induction entries with
  | nil => cases found
  | cons first rest ih =>
    obtain ⟨held, old⟩ := first
    rw [lookup_cons] at found
    split at found
    next same => cases found; subst same; exact List.mem_cons_self
    next => exact List.mem_cons_of_mem _ (ih found)

private theorem lookup_of_mem {key : κ} {value : α} {entries : List (κ × α)}
    (ascending : entries.Pairwise (fun earlier later => compare earlier.1 later.1 = .lt))
    (member : (key, value) ∈ entries) : lookup key entries = some value := by
  induction entries with
  | nil => cases member
  | cons first rest ih =>
    obtain ⟨held, old⟩ := first
    rw [List.pairwise_cons] at ascending
    rw [lookup_cons]
    rcases List.mem_cons.mp member with same | later
    · cases same
      rw [if_pos rfl]
    · rw [if_neg (ne_of_compare_lt (ascending.1 _ later)).symm]
      exact ih ascending.2 later

/-- The entries of a map are what it answers. -/
theorem mem_entries_iff {map : SortedMap κ α} {key : κ} {value : α} :
    (key, value) ∈ map.entries ↔ map.find? key = some value :=
  ⟨lookup_of_mem map.ascending, mem_of_lookup⟩

variable [Std.TransOrd κ]

theorem find?_absorb (combine : Option α → β → α) (map : SortedMap κ α) {entries : List (κ × β)}
    (ascending : entries.Pairwise (fun earlier later => compare earlier.1 later.1 = .lt)) (key : κ) :
    (map.absorb combine entries).find? key =
      ((lookup key entries).map (combine (map.find? key))).or (map.find? key) := by
  induction entries generalizing map with
  | nil => rfl
  | cons first rest ih =>
    obtain ⟨held, value⟩ := first
    rw [List.pairwise_cons] at ascending
    have step : map.absorb combine ((held, value) :: rest) =
        (map.insert held (combine (map.find? held) value)).absorb combine rest := rfl
    rw [step, ih _ ascending.2, find?_insert, lookup_cons]
    by_cases same : key = held
    · subst same
      rw [lookup_of_below ascending.1]
      simp
    · simp [same]

theorem ofList_entries (map : SortedMap κ α) : ofList map.entries = map := by
  apply ext_find?
  intro key
  have absorbed : ofList map.entries = empty.absorb (fun _ value => value) map.entries := rfl
  rw [absorbed, find?_absorb _ _ map.ascending, find?_empty, Option.or_none]
  exact Option.map_id'

/-- A key that both maps hold has the joined value, any other what the one map that holds it has. -/
theorem find?_union (join : α → α → α) (left right : SortedMap κ α) (key : κ) :
    (left.union join right).find? key = Option.merge join (left.find? key) (right.find? key) := by
  rw [union_eq_absorb, find?_absorb _ _ right.ascending]
  change ((right.find? key).map _).or _ = _
  cases left.find? key <;> cases right.find? key <;> rfl

theorem empty_union (join : α → α → α) (map : SortedMap κ α) : empty.union join map = map := by
  apply ext_find?
  intro key
  rw [find?_union, find?_empty]
  cases map.find? key <;> rfl

theorem union_assoc (join : α → α → α)
    (assoc : ∀ first second third, join (join first second) third = join first (join second third))
    (first second third : SortedMap κ α) :
    (first.union join second).union join third = first.union join (second.union join third) := by
  apply ext_find?
  intro key
  simp only [find?_union]
  cases first.find? key <;> cases second.find? key <;> cases third.find? key <;>
    simp [Option.merge, assoc]

-- What a key contributes is its measure, nothing if it is absent.
theorem total_insert (measure : κ → α → Int) (map : SortedMap κ α) (key : κ) (value : α) :
    (map.insert key value).total measure =
      map.total measure + measure key value - ((map.find? key).map (measure key)).getD 0 := by
  obtain ⟨entries, ascending⟩ := map
  simp only [total, insert, find?]
  induction entries with
  | nil => simp [place, lookup]
  | cons first rest ih =>
    obtain ⟨held, old⟩ := first
    rw [List.pairwise_cons] at ascending
    have rest_total := ih ascending.2
    simp only [place]
    split
    case h_1 below =>
      have absent : lookup key ((held, old) :: rest) = none := by
        apply lookup_of_below
        intro entry member
        rcases List.mem_cons.mp member with rfl | later
        · exact below
        · exact Std.TransCmp.lt_trans below (ascending.1 entry later)
      rw [absent]
      simp only [List.map_cons, List.sum_cons, Option.map_none, Option.getD_none]
      omega
    case h_2 same =>
      rw [Std.LawfulEqOrd.compare_eq_iff_eq] at same
      subst same
      rw [lookup_cons, if_pos rfl]
      simp only [List.map_cons, List.sum_cons, Option.map_some, Option.getD_some]
      omega
    case h_3 above =>
      rw [lookup_cons, if_neg (ne_of_compare_lt (Std.OrientedCmp.lt_of_gt above)).symm]
      simp only [List.map_cons, List.sum_cons]
      omega

theorem total_absorb (measure : κ → α → Int) (combine : Option α → β → α) (map : SortedMap κ α)
    {entries : List (κ × β)}
    (ascending : entries.Pairwise (fun earlier later => compare earlier.1 later.1 = .lt))
    (gain : κ → β → Int)
    (gained : ∀ key held value, map.find? key = held → (key, value) ∈ entries →
      measure key (combine held value) = (held.map (measure key)).getD 0 + gain key value) :
    (map.absorb combine entries).total measure =
      map.total measure + (entries.map (fun entry => gain entry.1 entry.2)).sum := by
  induction entries generalizing map with
  | nil => simp [absorb]
  | cons first rest ih =>
    obtain ⟨key, value⟩ := first
    rw [List.pairwise_cons] at ascending
    have step : map.absorb combine ((key, value) :: rest) =
        (map.insert key (combine (map.find? key) value)).absorb combine rest := rfl
    have first_gain := gained key _ value rfl List.mem_cons_self
    rw [step, ih _ ascending.2, total_insert, first_gain]
    · simp only [List.map_cons, List.sum_cons]
      omega
    · intro other held content found member
      refine gained other held content ?_ (List.mem_cons_of_mem _ member)
      rwa [find?_insert, if_neg (ne_of_compare_lt (ascending.1 _ member)).symm] at found

/-- Where joining adds the measures up, so does the union. -/
theorem total_union (measure : κ → α → Int) {join : α → α → α}
    (additive : ∀ key first second, measure key (join first second) = measure key first + measure key second)
    (left right : SortedMap κ α) :
    (left.union join right).total measure = left.total measure + right.total measure := by
  rw [union_eq_absorb]
  refine total_absorb measure _ left right.ascending measure ?_
  intro key held value _ _
  cases held with
  | none => simp
  | some held => simp [additive]

end ContractHost.SortedMap
