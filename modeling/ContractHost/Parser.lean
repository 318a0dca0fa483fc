/-! Parsers of text. A parser takes what it reads from the front of a list of characters and leaves the rest;
where it fails, the alternative reads from the same place. -/

namespace ContractHost

def Parser (α : Type) : Type := List Char → Option (α × List Char)

namespace Parser

variable {α β : Type}

def done (value : α) : Parser α := fun input => some (value, input)

def fail : Parser α := fun _ => none

def andThen (parser : Parser α) (next : α → Parser β) : Parser β := fun input =>
  match parser input with
  | some (value, rest) => next value rest
  | none => none

instance : Monad Parser where
  pure := done
  bind := andThen

/-- The second parser, where the first one fails. -/
def either (first second : Parser α) : Parser α := fun input =>
  match first input with
  | some result => some result
  | none => second input

instance : OrElse (Parser α) := ⟨fun first second => either first (second ())⟩

def ofOption : Option α → Parser α
  | some value => done value
  | none => fail

def satisfy (accept : Char → Bool) : Parser Char
  | char :: rest => if accept char then some (char, rest) else none
  | [] => none

def char (expected : Char) : Parser Unit
  | found :: rest => if found = expected then some ((), rest) else none
  | [] => none

def literal : List Char → Parser Unit
  | [] => done ()
  | first :: others => do
    char first
    literal others

/-- As many characters as are accepted, perhaps none. -/
def takeWhile (accept : Char → Bool) : Parser (List Char) := fun input =>
  some (input.takeWhile accept, input.dropWhile accept)

def takeSome (accept : Char → Bool) : Parser (List Char) := do
  let first ← satisfy accept
  let others ← takeWhile accept
  return first :: others

def optional (parser : Parser α) : Parser (Option α) := either (do return some (← parser)) (done none)

def atEnd : Parser Unit
  | [] => some ((), [])
  | _ => none

/-- Read until the parser fails, at most once for each element of `bound`. -/
def collect (parser : Parser α) (bound : List Char) (input : List Char) : List α × List Char :=
  match bound with
  | [] => ([], input)
  | _ :: bound =>
    match parser input with
    | none => ([], input)
    | some (value, rest) =>
      let more := collect parser bound rest
      (value :: more.1, more.2)

/-- Read again and again until the parser fails. A parser that reads at least one character each time can succeed no
more often than there are characters, so that the input itself is bound enough. -/
def many (parser : Parser α) : Parser (List α) := fun input => some (collect parser input input)

def separated (item : Parser α) (separator : Parser Unit) : Parser (List α) :=
  either
    (do
      let first ← item
      let others ← many (do separator; item)
      return first :: others)
    (done [])

def parseAll (parser : Parser α) (text : String) : Option α :=
  match parser text.toList with
  | some (value, []) => some value
  | _ => none

end Parser

end ContractHost
