import Conform.Entries
import Conform.Key

/-!
# Values

A `Value` is what is cast and what a cast gives. Decoded documents are made of scalars, lists and
maps. Tuples, sets, queues, records and decimals come out of casts; callables, namespaces and
objects belong to the host program and are told apart by an identity.

Sets are lists of keys in ascending order, maps and records are tables in insertion order.
`Value.toKey?` and `Key.toValue` go back and forth between the values that can be keys and the keys.
-/

namespace Conform

/-- A function of the host program. -/
structure Callable where
  id : Nat
  name : String
deriving DecidableEq, Inhabited

/-- An object of the host program, of which only the name of its type is known. -/
structure Object where
  id : Nat
  typeName : String
deriving DecidableEq, Inhabited

/-- The kinds of values. -/
inductive Kind
  | none | bool | int | float | complex | decimal | text | bytes
  | list | tuple | set | queue | map | record | callable | nspace | object
deriving DecidableEq

/-- The name of a kind in messages. -/
def Kind.name : Kind → String
  | none => "None"
  | bool => "Bool"
  | int => "Int"
  | float => "Float"
  | complex => "Complex"
  | decimal => "Decimal"
  | text => "Text"
  | bytes => "Bytes"
  | list => "List"
  | tuple => "Tuple"
  | set => "Set"
  | queue => "Queue"
  | map => "Map"
  | record => "Record"
  | callable => "Callable"
  | nspace => "Namespace"
  | object => "Object"

/-- An untyped or cast value. -/
inductive Value
  | none
  | bool (b : Bool)
  | int (i : Int64)
  | float (x : Binary64)
  | complex (re im : Binary64)
  | decimal (d : Decimal)
  | text (s : String)
  | bytes (b : List UInt8)
  | list (items : List Value)
  | tuple (items : List Value)
  | set (elements : List Key)
  | queue (items : List Value)
  | map (entries : List (Key × Value))
  | record (name : String) (fields : List (String × Value))
  | callable (c : Callable)
  | nspace (id : Nat) (name : String) (members : List (String × Value))
  | object (o : Object)
deriving Inhabited

/-- Named members under one name. The members form a table in insertion order. -/
structure Namespace where
  id : Nat
  name : String
  members : List (String × Value)
deriving Inhabited

mutual

/-- The value that a key stands for. Of fields with one name the last value counts. -/
def Key.toValue : Key → Value
  | .none => .none
  | .bool b => .bool b
  | .int i => .int i
  | .float x => .float x
  | .complex re im => .complex re im
  | .decimal d => .decimal d
  | .text s => .text s
  | .bytes b => .bytes b
  | .tuple items => .tuple (Key.toValues items)
  | .record name fields => .record name (Entries.ofList (Key.toFields fields))

/-- The values of a list of keys. -/
def Key.toValues : List Key → List Value
  | [] => []
  | k :: rest => k.toValue :: Key.toValues rest

/-- The fields whose keys are replaced by their values. -/
def Key.toFields : List (String × Key) → List (String × Value)
  | [] => []
  | (name, k) :: rest => (name, k.toValue) :: Key.toFields rest

end

namespace Value

/-- The kind of a value. -/
def kind : Value → Kind
  | none => .none
  | bool _ => .bool
  | int _ => .int
  | float _ => .float
  | complex .. => .complex
  | decimal _ => .decimal
  | text _ => .text
  | bytes _ => .bytes
  | list _ => .list
  | tuple _ => .tuple
  | set _ => .set
  | queue _ => .queue
  | map _ => .map
  | record .. => .record
  | callable _ => .callable
  | nspace .. => .nspace
  | object _ => .object

mutual

/-- The key that stands for a value; containers other than tuples and records have none, nor has
    anything of the host program. -/
def toKey? : Value → Option Key
  | none => some .none
  | bool b => some (.bool b)
  | int i => some (.int i)
  | float x => some (.float x)
  | complex re im => some (.complex re im)
  | decimal d => some (.decimal d)
  | text s => some (.text s)
  | bytes b => some (.bytes b)
  | tuple items => (toKeys? items).map .tuple
  | record name fields => (toKeyFields? fields).map (.record name)
  | _ => .none

/-- The keys of a list of values, if all have one. -/
def toKeys? : List Value → Option (List Key)
  | [] => some []
  | v :: rest => (toKey? v).bind fun k => (toKeys? rest).map (k :: ·)

/-- The fields with the keys of their values, if all have one. -/
def toKeyFields? : List (String × Value) → Option (List (String × Key))
  | [] => some []
  | (name, v) :: rest => (toKey? v).bind fun k => (toKeyFields? rest).map ((name, k) :: ·)

end

mutual

/-- Equality of values. Values of different kinds are different, floating-point numbers are compared
    as numbers, maps and records regardless of the order of their entries, and what belongs to the
    host program by identity. -/
def equal : Value → Value → Bool
  | none, none => true
  | bool a, bool b => a == b
  | int a, int b => a == b
  | float a, float b => a.equal b
  | complex a b, complex c d => a.equal c && b.equal d
  | decimal a, decimal b => a.equal b
  | text a, text b => a == b
  | bytes a, bytes b => a == b
  | list a, list b => equalItems a b
  | tuple a, tuple b => equalItems a b
  | set a, set b => Key.sameItems a b
  | queue a, queue b => equalItems a b
  | map a, map b => a.length == b.length && entriesIn a b
  | record m a, record n b => m == n && a.length == b.length && fieldsIn a b
  | callable a, callable b => a.id == b.id
  | nspace i _ _, nspace j _ _ => i == j
  | object a, object b => a.id == b.id
  | _, _ => false

/-- Equality of sequences, item by item. -/
def equalItems : List Value → List Value → Bool
  | [], [] => true
  | a :: as, b :: bs => equal a b && equalItems as bs
  | _, _ => false

/-- Whether every entry has an equal one under its key in the other table. -/
def entriesIn : List (Key × Value) → List (Key × Value) → Bool
  | [], _ => true
  | (k, v) :: rest, other =>
    (match Entries.find? k other with
      | some w => equal v w
      | .none => false) && entriesIn rest other

/-- Whether every field has an equal one under its name in the other table. -/
def fieldsIn : List (String × Value) → List (String × Value) → Bool
  | [], _ => true
  | (name, v) :: rest, other =>
    (match Entries.find? name other with
      | some w => equal v w
      | .none => false) && fieldsIn rest other

end

/-- The map with text keys that is made from a list of entries. -/
def ofFields (fields : List (String × Value)) : Value :=
  map (Entries.ofList (fields.map fun field => (Key.text field.1, field.2)))

/-- The text of a text. -/
def text? : Value → Option String
  | text s => some s
  | _ => .none

/-- The value under a text key of a map. -/
def get? (name : String) : Value → Option Value
  | map entries => Entries.find? (Key.text name) entries
  | _ => .none

/-- The field of a record. -/
def field? (name : String) : Value → Option Value
  | record _ fields => Entries.find? name fields
  | _ => .none

/-- The items that a sequence or a set runs through. A text is no sequence. -/
def elements? : Value → Option (List Value)
  | list items => some items
  | tuple items => some items
  | queue items => some items
  | set elements => some (Key.toValues elements)
  | _ => .none

/-- The items of a list, a tuple or a queue. -/
def sequence? : Value → Option (List Value)
  | list items => some items
  | tuple items => some items
  | queue items => some items
  | _ => .none

end Value

/-- A namespace as a value. -/
def Namespace.toValue (n : Namespace) : Value :=
  .nspace n.id n.name n.members

end Conform
