import ContractHost.Hex

/-! Texts as TOML strings. The form with the fewest escapes is taken: basic, literal, then the same two over
several lines, and escapes only where none of these can hold the text. -/

namespace ContractHost.Toml

def longestRun (char : Char) (text : List Char) : Nat :=
  (text.foldl
    (fun (runs : Nat × Nat) found =>
      let current := if found = char then runs.1 + 1 else 0
      (current, max runs.2 current))
    (0, 0)).2

/-- A character that only an escape can write; tabs and line ends have a place of their own. -/
def needsEscape (char : Char) : Bool :=
  char != '\t' && char != '\n' && (char.toNat < 32 || char.toNat == 127)

/-- A character of a basic string. A line end stays as it is in a long one. -/
def basicEscape (long : Bool) (char : Char) : List Char :=
  if char = '\x08' then ['\\', 'b']
  else if char = '\t' then ['\\', 't']
  else if char = '\n' then if long then ['\n'] else ['\\', 'n']
  else if char = '\x0c' then ['\\', 'f']
  else if char = '\r' then ['\\', 'r']
  else if char = '\\' then ['\\', '\\']
  else if needsEscape char then ['\\', 'u', '0', '0'] ++ (Hex.byteDigits (UInt8.ofNat char.toNat)).map Char.toUpper
  else [char]

/-- The inside of a basic string. Of quotes in a row, `room` are written bare before one has to be escaped; any
escape starts the count anew. -/
def basicBody (long : Bool) (room : Nat) : Nat → List Char → List Char
  | _, [] => []
  | run, '"' :: rest =>
    if run < room then '"' :: basicBody long room (run + 1) rest
    else '\\' :: '"' :: basicBody long room 0 rest
  | _, char :: rest => basicEscape long char ++ basicBody long room 0 rest

def basic (text : List Char) : List Char := '"' :: (basicBody false 0 0 text ++ ['"'])

def literalForm (text : List Char) : List Char := '\'' :: (text ++ ['\''])

/-- Three quotes around a text. A text of several lines starts on a line of its own. -/
def long (quote : Char) (text body : List Char) : List Char :=
  let fence := [quote, quote, quote]
  fence ++ (if text.contains '\n' then ['\n'] else []) ++ body ++ fence

def longBasic (text : List Char) : List Char := long '"' text (basicBody true 2 0 text)

def longLiteral (text : List Char) : List Char := long '\'' text text

def quote (text : List Char) : List Char :=
  let codes := text.any needsEscape
  let backslash := text.contains '\\'
  let lines := text.contains '\n'
  let singles := longestRun '\'' text
  let doubles := longestRun '"' text
  if !codes && !backslash && doubles == 0 && !lines then basic text
  else if !codes && singles == 0 && !lines then literalForm text
  else if !codes && !backslash && doubles ≤ 2 then longBasic text
  else if !codes && singles ≤ 2 then longLiteral text
  else if lines then longBasic text
  else basic text

end ContractHost.Toml
