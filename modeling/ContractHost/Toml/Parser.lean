import ContractHost.Parser
import ContractHost.Toml

/-! The grammar of TOML documents. -/

namespace ContractHost.Toml

open ContractHost.Parser

def isBlank (char : Char) : Bool := char == ' ' || char == '\t'

def isText (char : Char) : Bool := char == '\t' || (32 ≤ char.toNat && char.toNat != 127)

def isDigit (char : Char) : Bool := '0' ≤ char && char ≤ '9'

def isHexDigit (char : Char) : Bool :=
  isDigit char || ('a' ≤ char && char ≤ 'f') || ('A' ≤ char && char ≤ 'F')

def isBareKey (char : Char) : Bool :=
  isDigit char || ('a' ≤ char && char ≤ 'z') || ('A' ≤ char && char ≤ 'Z') || char == '-' || char == '_'

def blanks : Parser Unit := do
  let _ ← takeWhile isBlank

def newline : Parser Unit := char '\n' <|> literal ['\r', '\n']

def comment : Parser Unit := do
  char '#'
  let _ ← takeWhile isText

/-- The rest of a line that has been read. -/
def lineEnd : Parser Unit := do
  blanks
  let _ ← optional comment
  newline <|> atEnd

def filler : Parser Unit := do
  let _ ← many ((do let _ ← takeSome isBlank) <|> newline <|> (do comment; newline))

def digitRun (accept : Char → Bool) : Parser (List Char) := do
  let first ← satisfy accept
  let others ← many (satisfy accept <|> (do char '_'; satisfy accept))
  return first :: others

def digitValue (char : Char) : Nat :=
  if char.toNat ≤ 57 then char.toNat - 48 else if char.toNat ≤ 70 then char.toNat - 55 else char.toNat - 87

def number (base : Nat) (digits : List Char) : Nat :=
  digits.foldl (fun total digit => total * base + digitValue digit) 0

def sign : Parser Bool :=
  (do char '-'; return true) <|> (do char '+'; return false) <|> done false

/-- The whole part of a decimal number, without a leading zero. -/
def wholeDigits : Parser (List Char) := do
  let first ← satisfy isDigit
  if first = '0' then return [first]
  else
    let others ← many (satisfy isDigit <|> (do char '_'; satisfy isDigit))
    return first :: others

def ofRange (value : Int) : Parser Node :=
  if -integerBound ≤ value ∧ value < integerBound then done (.integer value) else fail

def based (mark : Char) (base : Nat) (accept : Char → Bool) : Parser Node := do
  literal ['0', mark]
  let digits ← digitRun accept
  ofRange (number base digits)

def decimal : Parser Node := do
  let negative ← sign
  let magnitude : Int := number 10 (← wholeDigits)
  ofRange (if negative then -magnitude else magnitude)

def integer : Parser Node :=
  based 'x' 16 isHexDigit <|> based 'o' 8 (fun char => '0' ≤ char && char ≤ '7') <|>
    based 'b' 2 (fun char => '0' ≤ char && char ≤ '1') <|> decimal

def exponent : Parser Int := do
  char 'e' <|> char 'E'
  let negative ← sign
  let magnitude : Int := number 10 (← digitRun isDigit)
  return if negative then -magnitude else magnitude

/-- Whether `digits · 10 ^ scale` rounds to a finite double: it is below the middle between the largest one and
the next power of two. -/
def isFinite (digits : Nat) (scale : Int) : Bool :=
  let bound := Nat.pow 2 1024 - Nat.pow 2 970
  if digits = 0 then true
  else if 0 ≤ scale then scale < 400 && digits * Nat.pow 10 scale.toNat < bound
  else digits / Nat.pow 10 (min (-scale).toNat digits.log2) < bound

/-- A number with a fraction or an exponent, or one of the special values. -/
def float : Parser Node := do
  let negative ← sign
  let special := literal ['i', 'n', 'f'] <|> literal ['n', 'a', 'n']
  (do special; return .float) <|> (do
    let whole ← wholeDigits
    let fraction ← optional (do char '.'; digitRun isDigit)
    let power ← optional exponent
    if fraction.isNone && power.isNone then fail
    else
      let decimals := fraction.getD []
      if negative || isFinite (number 10 (whole ++ decimals)) (power.getD 0 - decimals.length) then
        return .float
      else fail)

def digits : Nat → Parser (List Char)
  | 0 => done []
  | count + 1 => do
    let first ← satisfy isDigit
    return first :: (← digits count)

def bounded (count low high : Nat) : Parser Nat := do
  let value := number 10 (← digits count)
  if low ≤ value ∧ value ≤ high then return value else fail

def daysIn (year month : Nat) : Nat :=
  if month = 2 then
    if year % 4 = 0 ∧ (year % 100 ≠ 0 ∨ year % 400 = 0) then 29 else 28
  else if month = 4 ∨ month = 6 ∨ month = 9 ∨ month = 11 then 30
  else 31

def date : Parser Unit := do
  let year ← bounded 4 0 9999
  char '-'
  let month ← bounded 2 1 12
  char '-'
  let _ ← bounded 2 1 (daysIn year month)

def clock : Parser Unit := do
  let _ ← bounded 2 0 23
  char ':'
  let _ ← bounded 2 0 59
  char ':'
  let _ ← bounded 2 0 60
  let _ ← optional (do char '.'; takeSome isDigit)

def zone : Parser Unit :=
  char 'Z' <|> char 'z' <|> (do
    char '+' <|> char '-'
    let _ ← bounded 2 0 23
    char ':'
    let _ ← bounded 2 0 59)

def time : Parser Node := do
  (do
    date
    let _ ← optional (do
      char 'T' <|> char 't' <|> char ' '
      clock
      optional zone)) <|> clock
  return .time

/-- The character with the code that so many hexadecimal digits write. -/
def codePoint (count : Nat) : Parser Char := do
  let rec go : Nat → Parser (List Char)
    | 0 => done []
    | more + 1 => do
      let first ← satisfy isHexDigit
      return first :: (← go more)
  let code := number 16 (← go count)
  if code.isValidChar then return Char.ofNat code else fail

def escape : Parser Char := do
  char '\\'
  match ← satisfy (fun _ => true) with
  | 'b' => return '\x08'
  | 't' => return '\t'
  | 'n' => return '\n'
  | 'f' => return '\x0c'
  | 'r' => return '\r'
  | '"' => return '"'
  | '\\' => return '\\'
  | 'u' => codePoint 4
  | 'U' => codePoint 8
  | _ => fail

def basicChar : Parser Char :=
  satisfy (fun char => isText char && char != '"' && char != '\\') <|> escape

def basicString : Parser String := do
  char '"'
  let content ← many basicChar
  char '"'
  return String.ofList content

def literalString : Parser String := do
  char '\''
  let content ← takeWhile (fun char => isText char && char != '\'')
  char '\''
  return String.ofList content

/-- One or two quotes inside a text that three of them end. -/
def innerQuotes (quote : Char) : Parser (List Char) := do
  let run ← takeWhile (· == quote)
  if run.length = 1 ∨ run.length = 2 then return run else fail

/-- The three quotes that end a text, with up to two more before them that belong to it. -/
def closingQuotes (quote : Char) : Parser (List Char) := do
  let run ← takeWhile (· == quote)
  if 3 ≤ run.length ∧ run.length ≤ 5 then return run.drop 3 else fail

/-- A text over several lines; a line end right after the opening quotes does not belong to it. -/
def longString (quote : Char) (piece : Parser (List Char)) : Parser String := do
  literal [quote, quote, quote]
  let _ ← optional newline
  let pieces ← many (piece <|> innerQuotes quote)
  let last ← closingQuotes quote
  return String.ofList (pieces.flatten ++ last)

/-- A backslash at the end of a line takes out the line end and all blanks and line ends after it. -/
def lineJoin : Parser Unit := do
  char '\\'
  blanks
  newline
  let _ ← many ((do let _ ← takeSome isBlank) <|> newline)

def longBasicPiece : Parser (List Char) :=
  (do lineJoin; return []) <|> (do return [← basicChar]) <|> (do newline; return ['\n'])

def longLiteralPiece : Parser (List Char) :=
  (do return [← satisfy (fun char => isText char && char != '\'')]) <|> (do newline; return ['\n'])

def string : Parser Node := do
  let text ← longString '"' longBasicPiece <|> basicString <|> longString '\'' longLiteralPiece <|> literalString
  return .string text

def simpleKey : Parser String :=
  basicString <|> literalString <|> (do return String.ofList (← takeSome isBareKey))

/-- How deep keys and values may nest. -/
def depthLimit : Nat := 80

def key : Parser (List String × String) := do
  let part : Parser String := do
    blanks
    let name ← simpleKey
    blanks
    return name
  let names ← separated part (char '.')
  match names.getLast? with
  | some last => if names.length < depthLimit then return (names.dropLast, last) else fail
  | none => fail

def boolean : Parser Node :=
  (do literal ['t', 'r', 'u', 'e']; return .boolean true) <|>
    (do literal ['f', 'a', 'l', 's', 'e']; return .boolean false)

def array (item : Parser Node) : Parser Node := do
  char '['
  let items ← separated (do filler; let found ← item; filler; return found) (char ',')
  if items.isEmpty then pure () else
    let _ ← optional (char ',')
  filler
  char ']'
  return .array items

def pair (item : Parser Node) : Parser ((List String × String) × Node) := do
  let name ← key
  char '='
  blanks
  let node ← item
  blanks
  return (name, node)

def inPlaceTable (item : Parser Node) : Parser Node := do
  char '\x7b'
  let pairs ← separated (pair item) (char ',')
  blanks
  char '\x7d'
  ofOption (ofPairs pairs)

def scalar : Parser Node := string <|> time <|> float <|> integer <|> boolean

/-- A value with at most so many arrays and tables inside one another. -/
def value : Nat → Parser Node
  | 0 => scalar
  | depth + 1 => scalar <|> array (value depth) <|> inPlaceTable (value depth)

def definition : Parser Statement := do
  let (path, name) ← key
  char '='
  blanks
  let node ← value (depthLimit - 1)
  lineEnd
  return .define path name node

def header : Parser Statement := do
  char '['
  let (path, name) ← key
  char ']'
  lineEnd
  return .table path name

def elementHeader : Parser Statement := do
  literal ['[', '[']
  let (path, name) ← key
  literal [']', ']']
  lineEnd
  return .element path name

def line : Parser (Option Statement) := do
  let statement : Parser (Option Statement) :=
    (do newline; return none) <|> (do comment; newline <|> atEnd; return none) <|>
      (do return some (← elementHeader)) <|> (do return some (← header)) <|> (do return some (← definition))
  let found ← statement
  blanks
  return found

def document : Parser (List Statement) := do
  let _ ← optional (char '\ufeff')
  blanks
  let lines ← many line
  atEnd
  return lines.filterMap id

def parse (text : String) : Option Entries := do
  Document.ofStatements (← parseAll document text)

end ContractHost.Toml
