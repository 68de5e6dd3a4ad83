/-!
# Settings

The limits of a cast and the names of the keys that an invocation is read from. Every setting has
a default.
-/

namespace Conform

/-- How deep values and types may nest. -/
structure Limits where
  /-- The longest path below the value that is cast. -/
  maxDepth : Nat := 256
  /-- The most levels of a type, unions included. -/
  maxDescriptorDepth : Nat := 256
deriving DecidableEq

/-- The keys of a map that describes an invocation. -/
structure EnvelopeKeys where
  callable : String := "fn"
  args : String := "args"
  kwargs : String := "kwargs"
deriving DecidableEq

/-- All settings. -/
structure Config where
  limits : Limits := {}
  envelope : EnvelopeKeys := {}
deriving DecidableEq

end Conform
