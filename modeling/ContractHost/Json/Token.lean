import ContractHost.Json

/-! The tokens of a JSON text, scanned one character at a time. -/

namespace ContractHost.Json

inductive Token where
  | openArray
  | closeArray
  | openObject
  | closeObject
  | comma
  | colon
  | text (content : Option String)
  /-- A number, a truth value or null. -/
  | scalar (value : Json)

/-- The text that code units spell. Escapes give UTF-16 units, so that a surrogate has to meet its other half. -/
def ofUnits : List Nat → Option (List Char)
  | [] => some []
  | unit :: rest =>
    if 0xD800 ≤ unit ∧ unit < 0xDC00 then
      match rest with
      | low :: more =>
        if 0xDC00 ≤ low ∧ low < 0xE000 then
          (ofUnits more).map (Char.ofNat (0x10000 + (unit - 0xD800) * 0x400 + (low - 0xDC00)) :: ·)
        else none
      | [] => none
    else if 0xDC00 ≤ unit ∧ unit < 0xE000 then none
    else (ofUnits rest).map (Char.ofNat unit :: ·)

def isDigit (char : Char) : Bool := '0' ≤ char && char ≤ '9'

def decimal (digits : List Char) : Nat := digits.foldl (fun total digit => total * 10 + (digit.toNat - 48)) 0

def isDigits (chars : List Char) : Bool := !chars.isEmpty && chars.all isDigit

def isExponent : List Char → Bool
  | 'e' :: '+' :: digits | 'e' :: '-' :: digits | 'E' :: '+' :: digits | 'E' :: '-' :: digits => isDigits digits
  | 'e' :: digits | 'E' :: digits => isDigits digits
  | _ => false

/-- What may follow the whole part of a number that is not an integer. -/
def isFraction : List Char → Bool
  | '.' :: rest =>
    let tail := rest.dropWhile isDigit
    !(rest.takeWhile isDigit).isEmpty && (tail.isEmpty || isExponent tail)
  | rest => isExponent rest

/-- A number. The whole part has no leading zero, and minus zero is not an integer. -/
def number? (negative : Bool) (chars : List Char) : Option Json :=
  let whole := chars.takeWhile isDigit
  let tail := chars.dropWhile isDigit
  if whole.isEmpty || (whole.length != 1 && whole.head? == some '0') then none
  else if tail.isEmpty then
    let value := decimal whole
    if negative then some (if value = 0 then .fraction else .integer (-value)) else some (.integer value)
  else if isFraction tail then some .fraction
  else none

def scalar? : List Char → Option Json
  | ['n', 'u', 'l', 'l'] => some .null
  | ['t', 'r', 'u', 'e'] => some (.bool true)
  | ['f', 'a', 'l', 's', 'e'] => some (.bool false)
  | '-' :: rest => number? true rest
  | chars => number? false chars

/-- Where the scan stands. What has been collected is kept latest first. -/
inductive Scan where
  | between
  | quoted (units : List Nat)
  | escaped (units : List Nat)
  | code (units digits : List Nat)
  | bare (chars : List Char)

namespace Scan

def isBare (char : Char) : Bool := char.isAlphanum || char == '-' || char == '+' || char == '.'

def isBlank (char : Char) : Bool := char == ' ' || char == '\t' || char == '\n' || char == '\r'

def punctuation? : Char → Option Token
  | '[' => some .openArray
  | ']' => some .closeArray
  | '\x7b' => some .openObject
  | '\x7d' => some .closeObject
  | ',' => some .comma
  | ':' => some .colon
  | _ => none

/-- The unit that a short escape stands for. -/
def shortEscape? : Char → Option Nat
  | '"' => some 34
  | '\\' => some 92
  | '/' => some 47
  | 'b' => some 8
  | 'f' => some 12
  | 'n' => some 10
  | 'r' => some 13
  | 't' => some 9
  | _ => none

def hexDigit? (char : Char) : Option Nat :=
  if char.toNat < 128 then (Hex.digitValue? (UInt8.ofNat char.toNat)).map (·.toNat) else none

def start (char : Char) : Option (List Token × Scan) :=
  if isBlank char then some ([], .between)
  else if char = '"' then some ([], .quoted [])
  else if isBare char then some ([], .bare [char])
  else (punctuation? char).map (fun token => ([token], .between))

/-- The tokens that a character completes, and where the scan goes on. -/
def step (scan : Scan) (char : Char) : Option (List Token × Scan) :=
  match scan with
  | .between => start char
  | .quoted units =>
    if char = '"' then some ([.text ((ofUnits units.reverse).map String.ofList)], .between)
    else if char = '\\' then some ([], .escaped units)
    else if char.toNat < 32 then none
    else some ([], .quoted (char.toNat :: units))
  | .escaped units =>
    if char = 'u' then some ([], .code units [])
    else (shortEscape? char).map (fun unit => ([], .quoted (unit :: units)))
  | .code units digits => do
    let digit ← hexDigit? char
    match digits with
    | [third, second, first] =>
      return ([], .quoted ((((first * 16 + second) * 16 + third) * 16 + digit) :: units))
    | _ => return ([], .code units (digit :: digits))
  | .bare chars =>
    if isBare char then some ([], .bare (char :: chars))
    else do
      let value ← scalar? chars.reverse
      let (tokens, next) ← start char
      return (.scalar value :: tokens, next)

/-- At the end of the text no token may be left unfinished. -/
def finish : Scan → Option (List Token)
  | .between => some []
  | .bare chars => (scalar? chars.reverse).map (fun value => [.scalar value])
  | _ => none

def run : Scan → List Char → Option (List Token)
  | scan, [] => scan.finish
  | scan, char :: rest => do
    let (tokens, next) ← scan.step char
    let others ← run next rest
    return tokens ++ others

end Scan

def Token.scan (text : List Char) : Option (List Token) := Scan.run .between text

end ContractHost.Json
