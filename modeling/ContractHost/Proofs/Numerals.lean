import Mathlib.Data.List.TakeWhile
import ContractHost.Exchange

/-! Numerals read back as the numbers that they write: decimal ones, and digits in base 2³². -/

namespace ContractHost

namespace Json

theorem isDigit_eq (char : Char) : isDigit char = char.isDigit := rfl

theorem decimal_toDigits (number : Nat) : decimal (Nat.toDigits 10 number) = number := by
  have same : decimal (Nat.toDigits 10 number) = Nat.ofDigitChars 10 (Nat.toDigits 10 number) 0 := by
    simp only [decimal, Nat.ofDigitChars_eq_foldl, Nat.mul_comm 10]
    rfl
  rw [same, Nat.ofDigitChars_ten_toDigits]

theorem isDigit_of_mem_toDigits {number : Nat} {char : Char} (member : char ∈ Nat.toDigits 10 number) :
    isDigit char = true := by
  rw [isDigit_eq]
  exact Nat.isDigit_of_mem_toDigits (by decide) (by decide) member

/-- Only zero is written with a zero in front. -/
theorem head?_toDigits {number : Nat} (positive : 0 < number) : (Nat.toDigits 10 number).head? ≠ some '0' := by
  induction number using Nat.strongRecOn with
  | ind number smaller =>
    rw [Nat.toDigits_eq_if (by decide)]
    split
    next small =>
      rw [List.head?_cons]
      intro zero
      have none : number = 0 := Nat.digitChar_eq_zero.mp (Option.some.inj zero)
      omega
    next large =>
      have fewer := smaller (number / 10) (by omega) (by omega)
      cases front : Nat.toDigits 10 (number / 10) with
      | nil => exact absurd front Nat.toDigits_ne_nil
      | cons first rest =>
        rw [front] at fewer
        exact fewer

private theorem number?_toDigits (negative : Bool) (number : Nat) :
    number? negative (Nat.toDigits 10 number) =
      some (if negative then (if number = 0 then .fraction else .integer (-number)) else .integer number) := by
  have digits : ∀ char ∈ Nat.toDigits 10 number, isDigit char = true := fun _ => isDigit_of_mem_toDigits
  have whole : (Nat.toDigits 10 number).takeWhile isDigit = Nat.toDigits 10 number := List.takeWhile_eq_self_iff.mpr digits
  have tail : (Nat.toDigits 10 number).dropWhile isDigit = [] := List.dropWhile_eq_nil_iff.mpr digits
  have proper : ((Nat.toDigits 10 number).isEmpty || ((Nat.toDigits 10 number).length != 1 &&
      (Nat.toDigits 10 number).head? == some '0')) = false := by
    rcases Nat.eq_zero_or_pos number with rfl | positive
    · rfl
    · have front := head?_toDigits positive
      have filled : (Nat.toDigits 10 number).isEmpty = false := by
        rw [List.isEmpty_eq_false_iff]
        exact Nat.toDigits_ne_nil
      rw [filled, Bool.false_or, beq_eq_false_iff_ne.mpr front, Bool.and_false]
  simp only [number?, whole, tail, proper, decimal_toDigits]
  cases negative <;> rfl

private theorem scalar?_of_digits {chars : List Char} (digits : ∀ char ∈ chars, isDigit char = true) :
    scalar? chars = number? false chars := by
  unfold scalar?
  split
  all_goals first
    | rfl
    | exact absurd (digits _ List.mem_cons_self) (by decide)

theorem scalar?_integer (value : Int) : scalar? (toString value).toList = some (.integer value) := by
  rw [Int.toString_eq_repr, Int.repr_eq_if]
  split
  next positive =>
    rw [Nat.toList_repr, scalar?_of_digits (fun _ => isDigit_of_mem_toDigits), number?_toDigits]
    simp only [Bool.false_eq_true, if_false, Int.toNat_of_nonneg positive]
  next negative =>
    have nonzero : (-value).toNat ≠ 0 := by omega
    have back : -(((-value).toNat : Nat) : Int) = value := by omega
    rw [String.toList_append, Nat.toList_repr]
    change number? true (Nat.toDigits 10 (-value).toNat) = _
    rw [number?_toDigits]
    simp only [if_true, if_neg nonzero, back]

end Json

namespace Exchange

theorem ofDigits_digits (number : Nat) : ofDigits (digits number) = number := by
  fun_induction digits number with
  | case1 => rfl
  | case2 number nonzero ih =>
    have shifted : ofDigits (number % UInt32.size :: digits (number / UInt32.size)) =
        number % UInt32.size + UInt32.size * ofDigits (digits (number / UInt32.size)) := rfl
    rw [shifted, ih]
    exact Nat.mod_add_div number UInt32.size

theorem digits_small (number : Nat) : ∀ digit ∈ digits number, digit < UInt32.size := by
  fun_induction digits number with
  | case1 => nofun
  | case2 number nonzero ih =>
    intro digit member
    rcases List.mem_cons.mp member with rfl | later
    · exact Nat.mod_lt _ (by decide)
    · exact ih digit later

end Exchange

end ContractHost
