import Conform.Binary64.Text
import Conform.Text.Quoted
import Conform.Text.Segments
import Conform.Value

/-!
# Values in messages

`Value.render` writes a value the way messages show it: sequences in brackets that tell their kind,
a comma behind the only item of a tuple, entries as `key: value`, fields as `name=value`, and what
belongs to the host program in angle brackets.
-/

namespace Conform

/-- A complex number: both parts without exponents, the second with its sign. -/
def complexText (re im : Binary64) : String :=
  "(" ++ re.positional ++ im.positionalSigned ++ "j)"

namespace Value

/-- A tuple from its written items. -/
def tupleText : List String → String
  | [item] => "(" ++ item ++ ",)"
  | items => "(" ++ Text.join ", " items ++ ")"

/-- Written parts in braces. -/
def bracedText (parts : List String) : String :=
  "\x7b" ++ Text.join ", " parts ++ "\x7d"

end Value

mutual

/-- A key in messages. -/
def Key.render : Key → String
  | .none => "None"
  | .bool b => if b then "true" else "false"
  | .int i => toString i.toInt
  | .float x => x.literal
  | .complex re im => complexText re im
  | .decimal d => "Decimal(" ++ d.text ++ ")"
  | .text s => Text.quote s
  | .bytes b => Text.quoteBytes b
  | .tuple items => Value.tupleText (Key.renderItems items)
  | .record name fields =>
    name ++ "(" ++ Text.join ", "
      ((Entries.ofList (Key.renderFields fields)).map fun field => field.1 ++ "=" ++ field.2) ++ ")"

/-- The items of a tuple in messages. -/
def Key.renderItems : List Key → List String
  | [] => []
  | k :: rest => k.render :: Key.renderItems rest

/-- The names of the fields of a record with the written keys. -/
def Key.renderFields : List (String × Key) → List (String × String)
  | [] => []
  | (name, k) :: rest => (name, k.render) :: Key.renderFields rest

end

namespace Value

mutual

/-- A value in messages. -/
def render : Value → String
  | none => "None"
  | bool b => if b then "true" else "false"
  | int i => toString i.toInt
  | float x => x.literal
  | complex re im => complexText re im
  | decimal d => "Decimal(" ++ d.text ++ ")"
  | text s => Text.quote s
  | bytes b => Text.quoteBytes b
  | list items => "[" ++ Text.join ", " (renderItems items) ++ "]"
  | tuple items => tupleText (renderItems items)
  | set elements => bracedText (elements.map Key.render)
  | queue items => "queue[" ++ Text.join ", " (renderItems items) ++ "]"
  | map entries => bracedText (renderEntries entries)
  | record name fields => name ++ "(" ++ Text.join ", " (renderFields fields) ++ ")"
  | callable c => "<callable " ++ c.name ++ ">"
  | nspace _ name _ => "<namespace " ++ name ++ ">"
  | object o => "<" ++ o.typeName ++ " object>"

/-- The items of a sequence in messages. -/
def renderItems : List Value → List String
  | [] => []
  | v :: rest => render v :: renderItems rest

/-- The entries of a map in messages. -/
def renderEntries : List (Key × Value) → List String
  | [] => []
  | (k, v) :: rest => (k.render ++ ": " ++ render v) :: renderEntries rest

/-- The fields of a record in messages. -/
def renderFields : List (String × Value) → List String
  | [] => []
  | (name, v) :: rest => (name ++ "=" ++ render v) :: renderFields rest

end

end Value

end Conform
