/-!
# Locations

A `Location` says where in a cast value something stands: a sequence of steps from a starting
point. It is written as `$.items[2]["key"]`.
-/

namespace Conform

/-- One step into a value: to a field, to an item of a sequence, or to a key of a map or the value
    under it. A key is held in its written form. -/
inductive Segment
  | field (name : String)
  | index (i : Nat)
  | key (text : String)
deriving DecidableEq

/-- A step in writing. -/
def Segment.render : Segment → String
  | field name => "." ++ name
  | index i => "[" ++ toString i ++ "]"
  | key text => "[" ++ text ++ "]"

/-- The steps from the value that is cast. -/
abbrev Path := List Segment

/-- The steps in writing, without the starting point. -/
def Path.render : Path → String
  | [] => ""
  | segment :: rest => segment.render ++ Path.render rest

/-- A path from a named starting point. The value that is cast is called `$`. -/
structure Location where
  origin : String
  path : Path
deriving DecidableEq

/-- A location in writing. -/
def Location.render (l : Location) : String :=
  l.origin ++ l.path.render

/-- A path from the value that is cast. -/
def Location.ofPath (path : Path) : Location := ⟨"$", path⟩

end Conform
