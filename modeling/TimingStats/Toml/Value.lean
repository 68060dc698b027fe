/-! # Tables of a configuration text

The values that a TOML document can hold, and how statements build its tables. A table is opened
by a header, implied by the header of a deeper one, or made by a dotted key. Each may be opened
by a header once; dotted keys extend only the tables that dotted keys or deeper headers have
made. -/

namespace TimingStats.Toml

inductive Origin where
  /-- It has a header of its own, or is written between braces. -/
  | header
  /-- The header of a table inside it names it. -/
  | implied
  /-- A dotted key names it. -/
  | dotted
  deriving DecidableEq, Repr

inductive Value where
  | string (s : String)
  | integer (n : Int)
  | float (x : Float)
  | boolean (b : Bool)
  | datetime
  | array (items : List Value)
  /-- A table written between braces; nothing can be added to it. -/
  | braced (fields : List (String × Value))
  | table (origin : Origin) (fields : List (String × Value))
  /-- The tables that headers in double brackets append to. -/
  | tables (elements : List (List (String × Value)))

abbrev Fields := List (String × Value)

/-- A line of a document: a value under a key, or a header. -/
inductive Statement where
  | pair (path : List String) (key : String) (value : Value)
  | header (path : List String) (key : String)
  | elementHeader (path : List String) (key : String)

namespace Fields

/-- Puts a value under a key, in the place of an earlier one or at the end. -/
def put (key : String) (value : Value) : Fields → Fields
  | [] => [(key, value)]
  | (k, v) :: rest => if k = key then (k, value) :: rest else (k, v) :: put key value rest

/-- Changes the table at the end of a path, making the tables that are missing. Of tables
appended to, the last is meant. A dotted path does not enter a table with a header. -/
def descend (dotted : Bool) (change : Origin → Fields → Option Fields) :
    List String → Origin → Fields → Option Fields
  | [], origin, fields => change origin fields
  | key :: path, _, fields =>
    match fields.lookup key with
    | none => do
      let origin := if dotted then .dotted else .implied
      let inner ← descend dotted change path origin []
      return put key (.table origin inner) fields
    | some (.table origin inner) =>
      if dotted && origin == .header then none
      else do
        let inner ← descend dotted change path origin inner
        return put key (.table origin inner) fields
    | some (.tables elements) => do
      let last ← elements.getLast?
      let last ← descend dotted change path .header last
      return put key (.tables (elements.dropLast ++ [last])) fields
    | some _ => none

/-- Adds a value under a key that is not there yet. A dotted key ends in a table that dotted
keys have made. -/
def insertPair (path : List String) (key : String) (value : Value) (origin : Origin)
    (fields : Fields) : Option Fields :=
  descend true (fun origin fields =>
    if (origin == .dotted) == path.isEmpty then none
    else if (fields.lookup key).isSome then none
    else some (put key value fields)) path origin fields

def openTable (path : List String) (key : String) (fields : Fields) : Option Fields :=
  descend false (fun _ fields =>
    match fields.lookup key with
    | none => some (put key (.table .header []) fields)
    | some (.table .implied inner) => some (put key (.table .header inner) fields)
    | some _ => none) path .header fields

/-- Appends an empty table by a header in double brackets. -/
def openElement (path : List String) (key : String) (fields : Fields) : Option Fields :=
  descend false (fun _ fields =>
    match fields.lookup key with
    | none => some (put key (.tables [[]]) fields)
    | some (.tables elements) => some (put key (.tables (elements ++ [[]])) fields)
    | some _ => none) path .header fields

def ofPairs (pairs : List (List String × String × Value)) : Option Fields :=
  pairs.foldlM (fun fields (path, key, value) => insertPair path key value .header fields) []

def obey (state : List String × Fields) : Statement → Option (List String × Fields)
  | .pair path key value => do
    let fields ← descend false (insertPair path key value) state.1 .header state.2
    return (state.1, fields)
  | .header path key => do return (path ++ [key], ← openTable path key state.2)
  | .elementHeader path key => do return (path ++ [key], ← openElement path key state.2)

def ofStatements (statements : List Statement) : Option Fields :=
  (statements.foldlM obey ([], [])).map (·.2)

end Fields

end TimingStats.Toml
