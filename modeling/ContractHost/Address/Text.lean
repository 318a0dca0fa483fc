import ContractHost.Address
import ContractHost.Hex
import ContractHost.Bech32

/-! The two written forms of an address: checksummed base-32 text under the label `vm`, and hexadecimal
digits after `0x`. -/

namespace ContractHost

/-- Why a value could not be read from its outside form. -/
inductive Malformed where
  | addressFormat (detail : String)
  | addressLength (length : Nat)
  | metadataLength (length : Nat)
  | hex (fault : HexFault)
  | bech32 (fault : Bech32Fault)
  deriving DecidableEq, Repr

def Malformed.message : Malformed → String
  | .addressFormat detail => "Invalid address format: " ++ detail
  | .addressLength length => "Invalid address length: expected 32, got " ++ toString length
  | .metadataLength length => "Invalid code metadata length: expected 2, got " ++ toString length
  | .hex fault => "Invalid hex: " ++ fault.message
  | .bech32 fault => "Bech32 error: " ++ fault.message

namespace Address

def label : String := "vm"

def ofBytes (bytes : Bytes) : Except Malformed Address :=
  if exact : bytes.length = 32 then .ok ⟨bytes, exact⟩ else .error (.addressLength bytes.length)

/-- The form shown to people. -/
def toBech32 (address : Address) : String := Bech32.encode label address.bytes

/-- The form that files and messages carry. -/
def toHex (address : Address) : String := "0x" ++ Hex.encode address.bytes

/-- The form used inside diagnostics. -/
def describe (address : Address) : String := "Address(" ++ address.toHex ++ ")"

def ofHexDigits (digits : List Char) : Except Malformed Address :=
  match Hex.decode (Bytes.ofText (String.ofList digits)) with
  | .ok bytes => ofBytes bytes
  | .error fault => .error (.hex fault)

def ofBech32 (text : String) : Except Malformed Address :=
  match Bech32.decode text with
  | .error fault => .error (.bech32 fault)
  | .ok (found, bytes) =>
    if found = label then ofBytes bytes else .error (.addressFormat ("unexpected prefix " ++ found))

/-- Read either written form; which one it is shows at the start of the text. -/
def parse (text : String) : Except Malformed Address :=
  match text.toList with
  | '0' :: 'x' :: digits => ofHexDigits digits
  | '0' :: 'X' :: digits => ofHexDigits digits
  | 'v' :: 'm' :: '1' :: _ => ofBech32 text
  | _ => .error (.addressFormat text)

end Address

end ContractHost
