import ContractHost.Bytes

/-! The checksummed base-32 text of BIP-173 and BIP-350. Text is written with the newer checksum and read
with either one. -/

namespace ContractHost

inductive Bech32Fault where
  | malformed
  | checksum
  deriving DecidableEq, Repr

def Bech32Fault.message : Bech32Fault → String
  | .malformed => "parsing failed"
  | .checksum => "no valid bech32 or bech32m checksum"

namespace Bech32

def alphabet : List Char := "qpzry9x8gf2tvdw0s3jn54khce6mua7l".toList

def digit (value : UInt8) : Char := alphabet.getD value.toNat 'q'

def digitValue? (char : Char) : Option UInt8 := (alphabet.idxOf? char).map UInt8.ofNat

/-- The residue of a text with a valid checksum, older form. -/
def plainResidue : UInt32 := 1

/-- The residue of a text with a valid checksum, newer form. -/
def modifiedResidue : UInt32 := 0x2bc830a3

def generators : List UInt32 := [0x3b6a57b2, 0x26508e6d, 0x1ea119fa, 0x3d4233dd, 0x2a1462b3]

def feed (residue : UInt32) (group : UInt8) : UInt32 :=
  let top := residue >>> 25
  let shifted := ((residue &&& 0x1ffffff) <<< 5) ^^^ group.toUInt32
  (generators.zipIdx).foldl
    (fun current generator =>
      if (top >>> generator.2.toUInt32) &&& 1 = 1 then current ^^^ generator.1 else current)
    shifted

def residue (groups : List UInt8) : UInt32 := groups.foldl feed 1

/-- The human-readable part as five-bit groups: the high bits, a zero, the low bits. -/
def expand (label : List Char) : List UInt8 :=
  let codes := label.map (fun char => UInt8.ofNat char.toNat)
  let high := codes.map (fun (code : UInt8) => code >>> 5)
  let low := codes.map (fun (code : UInt8) => code &&& 31)
  high ++ 0 :: low

/-- The six checksum groups that bring the residue to the newer form's. -/
def checksum (label : List Char) (groups : List UInt8) : List UInt8 :=
  let remainder := residue (expand label ++ groups ++ List.replicate 6 0) ^^^ modifiedResidue
  [25, 20, 15, 10, 5, 0].map (fun (shift : UInt32) => ((remainder >>> shift) &&& 31).toUInt8)

def bits (width : Nat) (value : UInt8) : List Bool :=
  (List.range width).map (fun index => value.toNat.testBit (width - 1 - index))

def ofBits (bits : List Bool) : UInt8 :=
  UInt8.ofNat (bits.foldl (fun total bit => 2 * total + bit.toNat) 0)

def pieces (size : Nat) (items : List α) : List (List α) :=
  if _nothing : items = [] ∨ size = 0 then []
  else items.take size :: pieces size (items.drop size)
termination_by items.length
decreasing_by
  have : items.length ≠ 0 ∧ size ≠ 0 := by simpa using _nothing
  simp only [List.length_drop]
  omega

/-- Bytes as five-bit groups, the last one filled up with zero bits. -/
def toGroups (bytes : Bytes) : List UInt8 :=
  (pieces 5 (bytes.flatMap (bits 8))).map (fun piece => ofBits (piece ++ List.replicate (5 - piece.length) false))

/-- Five-bit groups as bytes; what is left over at the end is dropped, whatever it holds. -/
def ofGroups (groups : List UInt8) : Bytes :=
  ((pieces 8 (groups.flatMap (bits 5))).filter (fun piece => piece.length = 8)).map ofBits

def encode (label : String) (bytes : Bytes) : String :=
  let groups := toGroups bytes
  label ++ "1" ++ String.ofList ((groups ++ checksum label.toList groups).map digit)

/-- A human-readable part has one to eighty-three printable ASCII characters other than the space. -/
def labelAllowed (label : List Char) : Bool :=
  !label.isEmpty && label.length ≤ 83 && label.all (fun char => 33 ≤ char.toNat && char.toNat ≤ 126)

def mixedCase (text : List Char) : Bool := text.any Char.isUpper && text.any Char.isLower

/-- The longest text that a checksum covers. -/
def longest : Nat := 1023

/-- Split a text at its last `1` into the human-readable part and the five-bit groups after it. -/
def split (text : List Char) : Except Bech32Fault (List Char × List UInt8) := do
  let backward := text.reverse
  let tail := (backward.takeWhile (· != '1')).reverse
  match backward.dropWhile (· != '1'), tail.mapM (fun char => digitValue? char.toLower) with
  | _ :: label, some groups =>
    if mixedCase text || !labelAllowed label.reverse then throw .malformed
    return (label.reverse, groups)
  | _, _ => throw .malformed

/-- Read a text: its human-readable part as written, and the bytes without the checksum. -/
def decode (text : String) : Except Bech32Fault (String × Bytes) := do
  let (label, groups) ← split text.toList
  let found := residue (expand (label.map Char.toLower) ++ groups)
  if text.length > longest || groups.length < 6 then throw .checksum
  if found ≠ modifiedResidue && found ≠ plainResidue then throw .checksum
  return (String.ofList label, ofGroups (groups.take (groups.length - 6)))

end Bech32

end ContractHost
