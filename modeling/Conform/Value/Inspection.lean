import Conform.Binary64.Text
import Conform.Text.Quoted
import Conform.Text.Segments
import Conform.Value

/-!
# Values in full

`Value.inspect` writes a value with the constructor that it is made with, so that two values with
one text in messages can still be told apart: `Int(1)`, `List([Text("a")])`. Floating-point keys
are shown by their bits.
-/

namespace Conform

namespace Inspection

/-- A constructor with one argument. -/
def tagged (name argument : String) : String :=
  name ++ "(" ++ argument ++ ")"

/-- Written items in square brackets. -/
def sequence (items : List String) : String :=
  "[" ++ Text.join ", " items ++ "]"

/-- Written items in braces. -/
def braces (items : List String) : String :=
  "\x7b" ++ Text.join ", " items ++ "\x7d"

/-- Written fields behind the name of their structure. -/
def labelled (name : String) (items : List String) : String :=
  name ++ " \x7b " ++ Text.join ", " items ++ " \x7d"

/-- As `labelled`, for a structure of which only a part is shown. -/
def partly (name : String) (items : List String) : String :=
  name ++ " \x7b " ++ Text.join ", " items ++ ", .. \x7d"

/-- A value that may be missing. -/
def maybe : Option String → String
  | some item => tagged "Some" item
  | none => "None"

/-- Bytes as numbers. -/
def byteList (b : List UInt8) : String :=
  sequence (b.map fun byte => toString byte.toNat)

/-- Both parts of a complex number. -/
def complex (re im : Binary64) : String :=
  labelled "Complex" ["re: " ++ re.literal, "im: " ++ im.literal]

end Inspection

open Inspection

mutual

/-- A key in full. -/
def Key.inspect : Key → String
  | .none => "None"
  | .bool b => tagged "Bool" (if b then "true" else "false")
  | .int i => tagged "Int" (toString i.toInt)
  | .float x => tagged "Float" (toString x.bits.toNat)
  | .complex re im => tagged "Complex" (toString re.bits.toNat ++ ", " ++ toString im.bits.toNat)
  | .decimal d => tagged "Decimal" d.text
  | .text s => tagged "Text" (Text.quote s)
  | .bytes b => tagged "Bytes" (byteList b)
  | .tuple items => tagged "Tuple" (sequence (Key.inspectItems items))
  | .record name members =>
    tagged "Record" (Text.quote name ++ ", " ++ sequence (Key.inspectFields members))

/-- The items of a tuple in full. -/
def Key.inspectItems : List Key → List String
  | [] => []
  | k :: rest => k.inspect :: Key.inspectItems rest

/-- The fields of a record in full. -/
def Key.inspectFields : List (String × Key) → List String
  | [] => []
  | (name, k) :: rest =>
    ("(" ++ Text.quote name ++ ", " ++ k.inspect ++ ")") :: Key.inspectFields rest

end

namespace Value

mutual

/-- A value in full. -/
def inspect : Value → String
  | none => "None"
  | bool b => tagged "Bool" (if b then "true" else "false")
  | int i => tagged "Int" (toString i.toInt)
  | float x => tagged "Float" x.literal
  | complex re im => tagged "Complex" (Inspection.complex re im)
  | decimal d => tagged "Decimal" d.text
  | text s => tagged "Text" (Text.quote s)
  | bytes b => tagged "Bytes" (byteList b)
  | list items => tagged "List" (sequence (inspectItems items))
  | tuple items => tagged "Tuple" (sequence (inspectItems items))
  | set elements => tagged "Set" (braces (elements.map Key.inspect))
  | queue items => tagged "Queue" (sequence (inspectItems items))
  | map entries => tagged "Map" (braces (inspectEntries entries))
  | record name members =>
    labelled "Record" ["name: " ++ Text.quote name, "fields: " ++ braces (inspectFields members)]
  | callable c => tagged "Callable" c.name
  | nspace _ name _ => tagged "Namespace" name
  | object o => tagged "Object" o.typeName

/-- The items of a sequence in full. -/
def inspectItems : List Value → List String
  | [] => []
  | v :: rest => inspect v :: inspectItems rest

/-- The entries of a map in full. -/
def inspectEntries : List (Key × Value) → List String
  | [] => []
  | (k, v) :: rest => (k.inspect ++ ": " ++ inspect v) :: inspectEntries rest

/-- The fields of a record in full. -/
def inspectFields : List (String × Value) → List String
  | [] => []
  | (name, v) :: rest => (Text.quote name ++ ": " ++ inspect v) :: inspectFields rest

end

end Value

end Conform
