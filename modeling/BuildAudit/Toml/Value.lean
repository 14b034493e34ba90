/-!
# TOML values

The values of a TOML document, and how its tables come together from headers and keys.  A document
names tables in several places; `Node` remembers how a table came to be, because that decides who
may still add to it.
-/

namespace BuildAudit.Toml

/-- A value.  Of numbers with a fraction and of times only the kind is kept. -/
inductive Value where
  | string (s : String)
  | integer (n : Int)
  | float
  | boolean (b : Bool)
  /-- A date, a time of day, or both. -/
  | time
  | array (items : List Value)
  | table (entries : List (String × Value))

abbrev Table := List (String × Value)

/-! ### Tables that grow -/

/-- How a table came to be. -/
inductive Origin where
  /-- It has a header of its own. -/
  | header
  /-- It lies on the way to the table of a header. -/
  | implied
  /-- It lies on the way to a key with dots. -/
  | dotted
  deriving DecidableEq, Repr

/-- What a name stands for in a document that is being read. -/
inductive Node where
  /-- A value that is complete. -/
  | leaf (value : Value)
  | table (origin : Origin) (entries : List (String × Node))
  /-- A list that grows by headers, the newest table first. -/
  | tables (newestFirst : List (List (String × Node)))

abbrev Entries := List (String × Node)

/-- The entries with another node at `key`, in its old place or at the end.  `f` says which, given
the old one, or refuses. -/
def alter (key : String) (f : Option Node → Option Node) : Entries → Option Entries
  | [] => (f none).map fun node => [(key, node)]
  | (k, node) :: rest =>
    if k = key then (f (some node)).map fun node => (k, node) :: rest
    else (alter key f rest).map fun rest => (k, node) :: rest

/-- Changes the table at the end of a header's path.  Missing tables are implied; a growing list
stands for its newest table. -/
def alterUnder (path : List String) (f : Entries → Option Entries) : Entries → Option Entries :=
  match path with
  | [] => f
  | key :: path => alter key fun
    | none => (alterUnder path f []).map (.table .implied)
    | some (.table origin entries) => (alterUnder path f entries).map (.table origin)
    | some (.tables (newest :: older)) =>
      (alterUnder path f newest).map fun newest => .tables (newest :: older)
    | _ => none

/-- Opens the table of a header, which must not have had a header before. -/
def openTable (path : List String) (key : String) : Entries → Option Entries :=
  alterUnder path <| alter key fun
    | none => some (.table .header [])
    | some (.table .implied entries) => some (.table .header entries)
    | _ => none

/-- Opens one more table of a growing list. -/
def openElement (path : List String) (key : String) : Entries → Option Entries :=
  alterUnder path <| alter key fun
    | none => some (.tables [[]])
    | some (.tables tables) => some (.tables ([] :: tables))
    | _ => none

/-- Gives a new name a value.  Dots lead through tables that were made by dots; on the way, but not
at its end, there may also be implied tables and growing lists. -/
def assign (value : Value) (key : String) : List String → Entries → Option Entries
  | [] => alter key fun
    | none => some (.leaf value)
    | some _ => none
  | name :: path => alter name fun
    | none => (assign value key path []).map (.table .dotted)
    | some (.table .dotted entries) => (assign value key path entries).map (.table .dotted)
    | some (.table .implied entries) =>
      if path = [] then none else (assign value key path entries).map (.table .implied)
    | some (.tables (newest :: older)) =>
      if path = [] then none
      else (assign value key path newest).map fun newest => .tables (newest :: older)
    | _ => none

mutual

def Node.value : Node → Value
  | .leaf value => value
  | .table _ entries => .table (valuesOf entries)
  | .tables newestFirst => .array (elementsOf newestFirst [])

def valuesOf : List (String × Node) → Table
  | [] => []
  | (key, node) :: rest => (key, node.value) :: valuesOf rest

/-- The tables of a growing list, the oldest first, followed by `later`. -/
def elementsOf : List (List (String × Node)) → List Value → List Value
  | [], later => later
  | entries :: older, later => elementsOf older (.table (valuesOf entries) :: later)

end

end BuildAudit.Toml
