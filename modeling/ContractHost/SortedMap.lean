/-! Finite maps kept as lists of entries in strictly ascending key order. The order is part of the type, so
two maps that answer every lookup alike are the same value. -/

namespace ContractHost

universe u v

variable {κ : Type u} {α : Type v} [Ord κ]

/-- A finite map from keys to values; `entries` lists each key once, smallest first. -/
structure SortedMap (κ : Type u) (α : Type v) [Ord κ] where
  entries : List (κ × α)
  ascending : entries.Pairwise (fun earlier later => compare earlier.1 later.1 = .lt)

namespace SortedMap

def lookup (key : κ) : List (κ × α) → Option α
  | [] => none
  | (held, value) :: rest => if compare key held = .eq then some value else lookup key rest

/-- Put an entry at its place, replacing the one with the same key. -/
def place (key : κ) (value : α) : List (κ × α) → List (κ × α)
  | [] => [(key, value)]
  | (held, old) :: rest =>
    match compare key held with
    | .lt => (key, value) :: (held, old) :: rest
    | .eq => (key, value) :: rest
    | .gt => (held, old) :: place key value rest

def remove (key : κ) (entries : List (κ × α)) : List (κ × α) :=
  entries.filter (fun entry => compare key entry.1 != .eq)

theorem mem_place {key : κ} {value : α} {entries : List (κ × α)} {entry : κ × α}
    (member : entry ∈ place key value entries) : entry = (key, value) ∨ entry ∈ entries := by
  induction entries with
  | nil => simpa [place] using member
  | cons first rest ih =>
    obtain ⟨held, old⟩ := first
    simp only [place] at member
    split at member <;> grind

theorem place_ascending [Std.TransOrd κ] (key : κ) (value : α) {entries : List (κ × α)}
    (ordered : entries.Pairwise (fun earlier later => compare earlier.1 later.1 = .lt)) :
    (place key value entries).Pairwise (fun earlier later => compare earlier.1 later.1 = .lt) := by
  induction entries with
  | nil => simp [place]
  | cons first rest ih =>
    obtain ⟨held, old⟩ := first
    rw [List.pairwise_cons] at ordered
    simp only [place]
    split
    case h_1 below =>
      refine List.pairwise_cons.mpr ⟨fun entry member => ?_, List.pairwise_cons.mpr ordered⟩
      rcases List.mem_cons.mp member with rfl | later
      · exact below
      · exact Std.TransCmp.lt_trans below (ordered.1 entry later)
    case h_2 same =>
      refine List.pairwise_cons.mpr ⟨fun entry member => ?_, ordered.2⟩
      exact Std.TransCmp.lt_of_eq_of_lt same (ordered.1 entry member)
    case h_3 above =>
      refine List.pairwise_cons.mpr ⟨fun entry member => ?_, ih ordered.2⟩
      rcases mem_place member with rfl | later
      · exact Std.OrientedCmp.lt_of_gt above
      · exact ordered.1 entry later

def empty : SortedMap κ α := ⟨[], .nil⟩

instance : EmptyCollection (SortedMap κ α) := ⟨empty⟩

instance : Inhabited (SortedMap κ α) := ⟨empty⟩

instance [DecidableEq κ] [DecidableEq α] : DecidableEq (SortedMap κ α) := fun left right =>
  if same : left.entries = right.entries then
    isTrue (by cases left; cases right; simp_all)
  else
    isFalse (fun equal => same (congrArg entries equal))

def find? (map : SortedMap κ α) (key : κ) : Option α := lookup key map.entries

def contains (map : SortedMap κ α) (key : κ) : Bool := (map.find? key).isSome

def insert [Std.TransOrd κ] (map : SortedMap κ α) (key : κ) (value : α) : SortedMap κ α :=
  ⟨place key value map.entries, place_ascending key value map.ascending⟩

def erase (map : SortedMap κ α) (key : κ) : SortedMap κ α :=
  ⟨remove key map.entries, map.ascending.filter _⟩

/-- Insert the entries one after another, so that of two with one key the later stays. -/
def ofList [Std.TransOrd κ] (entries : List (κ × α)) : SortedMap κ α :=
  entries.foldl (fun map entry => map.insert entry.1 entry.2) empty

def isEmpty (map : SortedMap κ α) : Bool := map.entries.isEmpty

def keys (map : SortedMap κ α) : List κ := map.entries.map (·.1)

def values (map : SortedMap κ α) : List α := map.entries.map (·.2)

/-- Bring the entries of `right` into `left`; a key that both hold gets `join` of the two values, the left
one first. -/
def union [Std.TransOrd κ] (join : α → α → α) (left right : SortedMap κ α) : SortedMap κ α :=
  right.entries.foldl
    (fun map entry =>
      map.insert entry.1 (match map.find? entry.1 with
        | some held => join held entry.2
        | none => entry.2))
    left

theorem lookup_eq_none {key : κ} {entries : List (κ × α)}
    (absent : ∀ entry ∈ entries, compare key entry.1 ≠ .eq) : lookup key entries = none := by
  induction entries with
  | nil => rfl
  | cons first rest ih =>
    obtain ⟨held, value⟩ := first
    rw [lookup, if_neg (absent (held, value) List.mem_cons_self)]
    exact ih (fun entry member => absent entry (List.mem_cons_of_mem _ member))

theorem lookup_place [DecidableEq κ] [Std.TransOrd κ] [Std.LawfulEqOrd κ] (key other : κ) (value : α)
    (entries : List (κ × α)) :
    lookup other (place key value entries) = if other = key then some value else lookup other entries := by
  have same : ∀ first second : κ, compare first second = .eq ↔ first = second :=
    fun first second => Std.LawfulEqOrd.compare_eq_iff_eq
  induction entries with
  | nil => simp [place, lookup, same]
  | cons first rest ih =>
    obtain ⟨held, old⟩ := first
    rw [place]
    split
    · simp only [lookup, same]
    · next equal =>
      rw [same] at equal
      subst equal
      simp only [lookup, same]
      split <;> rfl
    · next above =>
      have distinct : key ≠ held := fun equal => by
        rw [(same key held).mpr equal] at above
        cases above
      simp only [lookup, same, ih]
      grind

@[simp] theorem find?_empty (key : κ) : (empty : SortedMap κ α).find? key = none := rfl

theorem find?_insert [DecidableEq κ] [Std.TransOrd κ] [Std.LawfulEqOrd κ] (map : SortedMap κ α)
    (key other : κ) (value : α) :
    (map.insert key value).find? other = if other = key then some value else map.find? other :=
  lookup_place key other value map.entries

theorem find?_erase [DecidableEq κ] [Std.TransOrd κ] [Std.LawfulEqOrd κ] (map : SortedMap κ α) (key other : κ) :
    (map.erase key).find? other = if other = key then none else map.find? other := by
  have same : ∀ first second : κ, compare first second = .eq ↔ first = second :=
    fun first second => Std.LawfulEqOrd.compare_eq_iff_eq
  obtain ⟨entries, ascending⟩ := map
  simp only [erase, find?]
  clear ascending
  induction entries with
  | nil => simp [remove, lookup]
  | cons first rest ih =>
    obtain ⟨held, value⟩ := first
    by_cases equal : key = held
    · subst equal
      simp only [remove, List.filter_cons, lookup, same] at ih ⊢
      simp only [(same key key).mpr rfl]
      grind
    · have kept : (compare key held != .eq) = true := by simp [same, equal]
      simp only [remove, List.filter_cons, kept, if_true, lookup, same] at ih ⊢
      grind

/-- A map is determined by what it answers. -/
theorem ext_find? [Std.TransOrd κ] [Std.LawfulEqOrd κ] {left right : SortedMap κ α}
    (alike : ∀ key, left.find? key = right.find? key) : left = right := by
  have same : ∀ first second : κ, compare first second = .eq ↔ first = second :=
    fun first second => Std.LawfulEqOrd.compare_eq_iff_eq
  obtain ⟨leftEntries, leftAscending⟩ := left
  obtain ⟨rightEntries, rightAscending⟩ := right
  simp only [find?] at alike
  congr
  induction leftEntries generalizing rightEntries with
  | nil =>
    cases rightEntries with
    | nil => rfl
    | cons first rest =>
      have found := alike first.1
      simp [lookup] at found
  | cons first rest ih =>
    cases rightEntries with
    | nil =>
      have found := alike first.1
      simp [lookup] at found
    | cons other others =>
      rw [List.pairwise_cons] at leftAscending rightAscending
      have missing : ∀ {key : κ} {entries : List (κ × α)},
          (∀ entry ∈ entries, compare key entry.1 = .lt) → lookup key entries = none :=
        fun below => lookup_eq_none (fun entry member => by rw [below entry member]; decide)
      have heads : first.1 = other.1 := by
        have atFirst := alike first.1
        have atOther := alike other.1
        simp only [lookup, (same _ _).mpr rfl, if_true] at atFirst atOther
        by_cases equal : first.1 = other.1
        · exact equal
        · rw [if_neg (fun h => equal ((same _ _).mp h))] at atFirst
          rw [if_neg (fun h => equal ((same _ _).mp h).symm)] at atOther
          rcases order : compare first.1 other.1 with _ | _ | _
          · rw [missing (fun entry member =>
              Std.TransCmp.lt_trans order (rightAscending.1 entry member))] at atFirst
            cases atFirst
          · exact (same _ _).mp order
          · rw [missing (fun entry member => Std.TransCmp.lt_trans (Std.OrientedCmp.lt_of_gt order)
              (leftAscending.1 entry member))] at atOther
            cases atOther
      have values : first.2 = other.2 := by
        have found := alike first.1
        simp only [lookup, (same _ _).mpr rfl, if_true] at found
        rw [if_pos ((same _ _).mpr heads)] at found
        exact Option.some.inj found
      have tails : rest = others := by
        refine ih leftAscending.2 others rightAscending.2 (fun key => ?_)
        by_cases equal : key = first.1
        · subst equal
          rw [missing leftAscending.1, missing (heads ▸ rightAscending.1)]
        · have found := alike key
          rw [lookup, if_neg (fun h => equal ((same _ _).mp h)), lookup,
            if_neg (fun h => equal (((same _ _).mp h).trans heads.symm))] at found
          exact found
      rw [tails]
      congr 1
      exact Prod.ext heads values

end SortedMap

end ContractHost
