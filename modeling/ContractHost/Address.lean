import ContractHost.Bytes

/-! Account addresses: thirty-two bytes, ordered as byte strings. -/

namespace ContractHost

structure Address where
  bytes : Bytes
  length_eq : bytes.length = 32
  deriving DecidableEq

namespace Address

/-- The address that top-level state starts from. -/
def zero : Address := ⟨List.replicate 32 0, by simp⟩

instance : Inhabited Address := ⟨zero⟩

/-- A readable address for a name: its first thirty-two UTF-8 bytes, filled up with dots. -/
def ofLabel (label : String) : Address :=
  ⟨((Bytes.ofText label ++ List.replicate 32 46).take 32), by simp⟩

instance : Ord Address := ⟨fun left right => compare left.bytes right.bytes⟩

theorem compare_def (left right : Address) : compare left right = compare left.bytes right.bytes := rfl

instance : Std.TransOrd Address where
  eq_swap {left right} := (Std.OrientedCmp.eq_swap : compare left.bytes right.bytes = _)
  isLE_trans {first second third} below above := by
    rw [compare_def] at below above ⊢
    exact Std.TransCmp.isLE_trans below above

instance : Std.LawfulEqOrd Address where
  compare_self {address} := (Std.ReflCmp.compare_self : compare address.bytes address.bytes = .eq)
  eq_of_compare {left right} same := by
    cases left
    cases right
    simp only [compare_def, Std.LawfulEqOrd.compare_eq_iff_eq] at same
    simp only [same]

end Address

end ContractHost
