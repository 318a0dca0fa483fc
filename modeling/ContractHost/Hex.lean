import ContractHost.Bytes

/-! Hexadecimal text: two digits a byte, written in lower case and read in either case. -/

namespace ContractHost

/-- Why a text is no hexadecimal text. Positions count bytes of the UTF-8 form. -/
inductive HexFault where
  | oddLength
  | notADigit (byte : UInt8) (position : Nat)
  deriving DecidableEq, Repr

/-- A byte as the character of the same number, escaped where that one would not show or would end the quotes. -/
def HexFault.shown (byte : UInt8) : String :=
  if byte = 0 then "\\0"
  else if byte = 9 then "\\t"
  else if byte = 10 then "\\n"
  else if byte = 13 then "\\r"
  else if byte = 39 then "\\'"
  else if byte = 92 then "\\\\"
  else if byte < 32 || (127 ≤ byte && byte ≤ 160) || byte = 173 then
    "\\u\x7b" ++ String.ofList (Nat.toDigits 16 byte.toNat) ++ "\x7d"
  else String.singleton (Char.ofNat byte.toNat)

def HexFault.message : HexFault → String
  | .oddLength => "Odd number of digits"
  | .notADigit byte position =>
    "Invalid character '" ++ HexFault.shown byte ++ "' at position " ++ toString position

namespace Hex

def digit (number : Nat) : Char :=
  if number < 10 then Char.ofNat (48 + number) else Char.ofNat (87 + number)

def byteDigits (byte : UInt8) : List Char := [digit (byte.toNat / 16), digit (byte.toNat % 16)]

def encode (bytes : Bytes) : String := String.ofList (bytes.flatMap byteDigits)

def digitValue? (byte : UInt8) : Option UInt8 :=
  if 48 ≤ byte && byte ≤ 57 then some (byte - 48)
  else if 97 ≤ byte && byte ≤ 102 then some (byte - 87)
  else if 65 ≤ byte && byte ≤ 70 then some (byte - 55)
  else none

def digitAt (byte : UInt8) (position : Nat) : Except HexFault UInt8 :=
  match digitValue? byte with
  | some value => .ok value
  | none => .error (.notADigit byte position)

/-- Read pairs of digits, the first of them standing at `position`. -/
def decodePairs (position : Nat) : Bytes → Except HexFault Bytes
  | high :: low :: rest => do
    let first ← digitAt high position
    let second ← digitAt low (position + 1)
    let bytes ← decodePairs (position + 2) rest
    return (first * 16 + second) :: bytes
  | _ => .ok []

/-- An odd number of digits is reported before a wrong one. -/
def decode (text : Bytes) : Except HexFault Bytes :=
  if text.length % 2 = 0 then decodePairs 0 text else .error .oddLength

end Hex

end ContractHost
