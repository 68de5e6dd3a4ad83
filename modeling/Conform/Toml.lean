import Conform.Binary64
import Conform.Entries

/-!
# TOML documents

A document is built by its statements: assignments to dotted keys, and headers that open a table
or a new element of an array of tables. A `Node` remembers how a table came about, because a table
may be opened only once and neither form may extend a table that the other one completed.
-/

namespace Conform.Toml

/-- A value of a TOML document. -/
inductive Value
  | string (s : String)
  | integer (i : Int)
  | float (x : Binary64)
  | boolean (b : Bool)
  /-- A date, a time or both, as it is written. -/
  | datetime (s : String)
  | array (items : List Value)
  | table (entries : List (String × Value))

/-- How a table came about. -/
inductive Origin
  /-- On the way to the table of a header. -/
  | passed
  /-- On the way to the key of an assignment. -/
  | dotted
  /-- By a header of its own. -/
  | opened
deriving DecidableEq

/-- A part of a document that may still grow. -/
inductive Node
  | value (v : Value)
  | table (origin : Origin) (entries : List (String × Node))
  | tables (elements : List (List (String × Node)))

/-- A table that may still grow. -/
abbrev Table := List (String × Node)

namespace Table

/-- Assigns to a key below the tables that a dotted path names. Tables that are missing are made;
    one that a header opened or passed is not changed. -/
def assign (key : String) (v : Value) : List String → Table → Option Table
  | [], t => if Entries.contains key t then none else some (t ++ [(key, .value v)])
  | name :: rest, t =>
    match Entries.find? name t with
    | none => (assign key v rest []).map fun sub => t ++ [(name, .table .dotted sub)]
    | some (.table .dotted sub) =>
      (assign key v rest sub).map fun sub => Entries.insert name (.table .dotted sub) t
    | some (.table .passed sub) =>
      if rest.isEmpty then none
      else (assign key v rest sub).map fun sub => Entries.insert name (.table .passed sub) t
    | some _ => none

/-- Changes the table that a path of headers leads to: of an array of tables the last element. -/
def change (f : Table → Option Table) : List String → Table → Option Table
  | [], t => f t
  | name :: rest, t =>
    match Entries.find? name t with
    | none => (change f rest []).map fun sub => t ++ [(name, .table .passed sub)]
    | some (.table origin sub) =>
      (change f rest sub).map fun sub => Entries.insert name (.table origin sub) t
    | some (.tables elements) =>
      match elements.getLast? with
      | some last =>
        (change f rest last).map fun last =>
          Entries.insert name (.tables (elements.dropLast ++ [last])) t
      | none => none
    | some (.value _) => none

/-- Opens a table. One that headers have passed may be opened, once. -/
def openTable (name : String) (t : Table) : Option Table :=
  match Entries.find? name t with
  | none => some (t ++ [(name, .table .opened [])])
  | some (.table .passed sub) => some (Entries.insert name (.table .opened sub) t)
  | some _ => none

/-- Opens a new element of an array of tables. -/
def openElement (name : String) (t : Table) : Option Table :=
  match Entries.find? name t with
  | none => some (t ++ [(name, .tables [[]])])
  | some (.tables elements) => some (Entries.insert name (.tables (elements ++ [[]])) t)
  | some _ => none

end Table

mutual

/-- The value that a finished part of a document holds. -/
def Node.toValue : Node → Value
  | .value v => v
  | .table _ entries => .table (toEntries entries)
  | .tables elements => .array (toTables elements)

/-- The entries of a finished table. -/
def toEntries : List (String × Node) → List (String × Value)
  | [] => []
  | (name, node) :: rest => (name, node.toValue) :: toEntries rest

/-- The elements of a finished array of tables. -/
def toTables : List (List (String × Node)) → List Value
  | [] => []
  | entries :: rest => .table (toEntries entries) :: toTables rest

end

end Conform.Toml
