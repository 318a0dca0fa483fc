import ContractHost.Hex

/-! JSON values and their compact text. Members keep their order and may repeat a name. What no form of this
library uses is kept as far as it has to be skipped: a number that is not written as an integer has no value
here, and neither has a text that holds half a surrogate pair. -/

namespace ContractHost

inductive Json where
  | null
  | bool (value : Bool)
  | integer (value : Int)
  | fraction
  | text (content : Option String)
  | array (items : List Json)
  | object (members : List (Option String × Json))

namespace Json

def string (content : String) : Json := .text (some content)

def ofNat (value : Nat) : Json := .integer value

def record (members : List (String × Json)) : Json :=
  .object (members.map (fun member => (some member.1, member.2)))

/-- A character inside a text. What has to be escaped takes its short escape if there is one. -/
def escape (char : Char) : List Char :=
  if char = '"' then ['\\', '"']
  else if char = '\\' then ['\\', '\\']
  else if char.toNat = 8 then ['\\', 'b']
  else if char.toNat = 9 then ['\\', 't']
  else if char.toNat = 10 then ['\\', 'n']
  else if char.toNat = 12 then ['\\', 'f']
  else if char.toNat = 13 then ['\\', 'r']
  else if char.toNat < 32 then ['\\', 'u', '0', '0'] ++ Hex.byteDigits (UInt8.ofNat char.toNat)
  else [char]

def quote (content : List Char) : List Char := '"' :: (content.flatMap escape ++ ['"'])

/-- Half a surrogate pair can only be written as an escape. -/
def quoteText : Option String → List Char
  | some content => quote content.toList
  | none => "\"\\ud800\"".toList

mutual

/-- The compact text: no spaces, members in their order. -/
def render : Json → List Char
  | .null => "null".toList
  | .bool true => "true".toList
  | .bool false => "false".toList
  | .integer value => (toString value).toList
  | .fraction => "0.5".toList
  | .text content => quoteText content
  | .array items => '[' :: (renderItems items ++ [']'])
  | .object members => '\x7b' :: (renderMembers members ++ ['\x7d'])

def renderItems : List Json → List Char
  | [] => []
  | [item] => render item
  | item :: rest => render item ++ ',' :: renderItems rest

def renderMembers : List (Option String × Json) → List Char
  | [] => []
  | [(name, value)] => quoteText name ++ ':' :: render value
  | (name, value) :: rest => quoteText name ++ ':' :: (render value ++ ',' :: renderMembers rest)

end

def toText (json : Json) : String := String.ofList json.render

/-- The members named, each at most once, in the order of `names`. An array stands for an object that gives the
first of them in this order. Members of other names are passed over. -/
def fields? (names : List String) : Json → Option (List (Option Json))
  | .object members => do
    let known ← members.mapM (fun member => member.1.map (fun name => (name, member.2)))
    names.mapM (fun name =>
      match known.filter (fun member => member.1 == name) with
      | [] => some none
      | [member] => some (some member.2)
      | _ => none)
  | .array items =>
    if items.length ≤ names.length then
      some (items.map some ++ List.replicate (names.length - items.length) none)
    else none
  | _ => none

end Json

end ContractHost
