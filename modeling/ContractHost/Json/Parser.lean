import ContractHost.Json.Token

/-! Reading a JSON value from its tokens. The arrays and objects that are still open stand on a stack, each with
what it holds so far, and every token moves the reading on by one step. -/

namespace ContractHost.Json

/-- A container that is still open, with its contents latest first. -/
inductive Container where
  | array (items : List Json)
  /-- The value of the member `name` is yet to come. -/
  | object (members : List (Option String × Json)) (name : Option String)

abbrev Members := List (Option String × Json)

inductive Reading where
  | value (around : List Container)
  | arrayStart (around : List Container)
  | objectStart (around : List Container)
  | name (around : List Container) (members : Members)
  | colon (around : List Container) (members : Members) (name : Option String)
  | after (around : List Container) (value : Json)

namespace Reading

def startValue (around : List Container) : Token → Option Reading
  | .scalar found => some (.after around found)
  | .text content => some (.after around (.text content))
  | .openArray => some (.arrayStart around)
  | .openObject => some (.objectStart around)
  | _ => none

def step : Reading → Token → Option Reading
  | .value around, token => startValue around token
  | .arrayStart around, .closeArray => some (.after around (.array []))
  | .arrayStart around, token => startValue (.array [] :: around) token
  | .objectStart around, .closeObject => some (.after around (.object []))
  | .objectStart around, .text content => some (.colon around [] content)
  | .name around members, .text content => some (.colon around members content)
  | .colon around members content, .colon => some (.value (.object members content :: around))
  | .after (.array items :: around) found, .comma => some (.value (.array (found :: items) :: around))
  | .after (.array items :: around) found, .closeArray =>
    some (.after around (.array (found :: items).reverse))
  | .after (.object members content :: around) found, .comma =>
    some (.name around ((content, found) :: members))
  | .after (.object members content :: around) found, .closeObject =>
    some (.after around (.object ((content, found) :: members).reverse))
  | _, _ => none

def run (reading : Reading) (tokens : List Token) : Option Reading := tokens.foldlM step reading

/-- A text holds one value, and nothing is open after it. -/
def result? : Reading → Option Json
  | .after [] found => some found
  | _ => none

end Reading

def parse (text : String) : Option Json := do
  let tokens ← Token.scan text.toList
  let reading ← Reading.run (.value []) tokens
  reading.result?

end ContractHost.Json
