/-! Byte strings: keys, values, contract code and call arguments are all sequences of bytes. -/

namespace ContractHost

abbrev Bytes := List UInt8

namespace Bytes

def ofText (text : String) : Bytes := text.toList.flatMap String.utf8EncodeChar

/-- The number that the bytes write in base 256, most significant byte first. -/
def toNat (bytes : Bytes) : Nat := bytes.foldl (fun total byte => total * 256 + byte.toNat) 0

/-- The digits of a number in base 256, least significant first and without a leading zero. -/
def digits (number : Nat) : Bytes :=
  if number = 0 then [] else UInt8.ofNat (number % 256) :: digits (number / 256)
termination_by number

/-- The shortest big-endian form of a number; zero has no bytes. -/
def ofNat (number : Nat) : Bytes := (digits number).reverse

theorem toNat_append_singleton (bytes : Bytes) (last : UInt8) :
    toNat (bytes ++ [last]) = toNat bytes * 256 + last.toNat := by
  simp [toNat]

theorem toNat_reverse_digits (number : Nat) : toNat (digits number).reverse = number := by
  fun_induction digits number with
  | case1 => rfl
  | case2 number nonzero ih =>
    rw [List.reverse_cons, toNat_append_singleton, ih]
    have : (UInt8.ofNat (number % 256)).toNat = number % 256 := by simp
    omega

theorem toNat_ofNat (number : Nat) : toNat (ofNat number) = number := toNat_reverse_digits number

theorem getLast?_digits (number : Nat) : (digits number).getLast? ≠ some 0 := by
  fun_induction digits number with
  | case1 => nofun
  | case2 number nonzero ih =>
    cases higher : digits (number / 256) with
    | cons next rest =>
      rw [higher] at ih
      rwa [List.getLast?_cons_cons]
    | nil =>
      -- The one digit that there is is the number itself.
      have small : number / 256 = 0 := by
        refine Decidable.byContradiction (fun positive => ?_)
        rw [digits, if_neg positive] at higher
        cases higher
      intro zero
      have digit : number % 256 = 0 := by simpa using congrArg UInt8.toNat (Option.some.inj zero)
      omega

/-- No number is written with a leading zero. -/
theorem head?_ofNat (number : Nat) : (ofNat number).head? ≠ some 0 := by
  rw [ofNat, List.head?_reverse]
  exact getLast?_digits number

end Bytes

end ContractHost
