/-! TOML documents as tables of nodes. A document is a list of statements, each of which opens a table or defines
a key. How a table came to be decides which later statements may add to it. -/

namespace ContractHost.Toml

/-- How a table came to be: by a header of its own, by the header of a table inside it, by a dotted key, or
written in place as a value. -/
inductive Origin where
  | header
  | implied
  | dotted
  | inPlace
  deriving DecidableEq, Repr

/-- What a key stands for. Floats and times are told apart from the rest but not evaluated. -/
inductive Node where
  | string (text : String)
  | integer (value : Int)
  | float
  | boolean (value : Bool)
  | time
  | array (items : List Node)
  | table (origin : Origin) (entries : List (String × Node))
  /-- An array of tables, each opened by a header. -/
  | tables (elements : List (List (String × Node)))

/-- Integers are signed 64-bit words, which end below this bound. -/
def integerBound : Int := 9223372036854775808

abbrev Entries := List (String × Node)

namespace Entries

def find? (entries : Entries) (name : String) : Option Node := entries.lookup name

/-- Set the node of a name, adding the name if it is new. -/
def set (entries : Entries) (name : String) (node : Node) : Entries :=
  match entries with
  | [] => [(name, node)]
  | (held, old) :: rest => if held = name then (name, node) :: rest else (held, old) :: set rest name node

/-- Change the table at the end of a path, making the tables on the way that are missing. The path of a dotted key
may not lead through a table that has a header, and no path leads into a value. -/
def descend (dotted : Bool) (change : Origin → Entries → Option Entries) :
    List String → Origin → Entries → Option Entries
  | [], origin, entries => change origin entries
  | name :: path, _, entries =>
    match entries.find? name with
    | none => do
      let origin := if dotted then Origin.dotted else .implied
      return set entries name (.table origin (← descend dotted change path origin []))
    | some (.table .inPlace _) => none
    | some (.table origin inner) =>
      if dotted && origin == .header then none
      else do return set entries name (.table origin (← descend dotted change path origin inner))
    | some (.tables elements) => do
      let last ← elements.getLast?
      return set entries name (.tables (elements.dropLast ++ [← descend dotted change path .header last]))
    | some _ => none

/-- Define the last name of a key. A dotted key adds to tables that dotted keys have made, and no name is defined
twice. -/
def define (path : List String) (name : String) (node : Node) (origin : Origin) (entries : Entries) :
    Option Entries :=
  descend true
    (fun target inner =>
      if (target == .dotted) == path.isEmpty then none
      else if (find? inner name).isSome then none
      else some (set inner name node))
    path origin entries

/-- Open the table of a header. One that was only implied so far keeps its entries. -/
def openTable (path : List String) (name : String) (entries : Entries) : Option Entries :=
  descend false
    (fun _ inner =>
      match find? inner name with
      | none => some (set inner name (.table .header []))
      | some (.table .implied held) => some (set inner name (.table .header held))
      | some _ => none)
    path .header entries

def openElement (path : List String) (name : String) (entries : Entries) : Option Entries :=
  descend false
    (fun _ inner =>
      match find? inner name with
      | none => some (set inner name (.tables [[]]))
      | some (.tables elements) => some (set inner name (.tables (elements ++ [[]])))
      | some _ => none)
    path .header entries

end Entries

def ofPairs (pairs : List ((List String × String) × Node)) : Option Node := do
  let entries ← pairs.foldlM
    (fun entries pair => Entries.define pair.1.1 pair.1.2 pair.2 .inPlace entries) ([] : Entries)
  return .table .inPlace entries

inductive Statement where
  | define (path : List String) (name : String) (node : Node)
  | table (path : List String) (name : String)
  | element (path : List String) (name : String)

/-- A document as far as it has been read: its entries, and the path of the table that is open. -/
structure Document where
  entries : Entries := []
  open? : List String := []

namespace Document

def step (document : Document) : Statement → Option Document
  | .define path name node => do
    let entries ← Entries.descend false (Entries.define path name node) document.open? .header document.entries
    return { document with entries }
  | .table path name => do
    return { entries := ← Entries.openTable path name document.entries, open? := path ++ [name] }
  | .element path name => do
    return { entries := ← Entries.openElement path name document.entries, open? := path ++ [name] }

def ofStatements (statements : List Statement) : Option Entries := do
  return (← statements.foldlM step {}).entries

end Document

end ContractHost.Toml
