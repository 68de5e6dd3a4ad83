import Conform.Config
import Conform.Descriptor

/-!
# The context of a cast

Everything that a cast reads besides the type and the value: settings, registered namespaces, the
converters of nodes, and the signatures of the callables. What a converter does is up to the host;
the context only tells which nodes have which.
-/

namespace Conform

/-- A function of the host program that casts values in the place of a type. -/
structure Converter where
  id : Nat
deriving DecidableEq

/-- Types with converters, each identity once. A type stands for its root node. -/
structure Conversions where
  entries : List (Descriptor × Converter)

namespace Conversions

/-- No type has a converter. -/
def empty : Conversions := ⟨[]⟩

/-- Registers a converter for a type, in the place of one for its identity. -/
def insert (d : Descriptor) (c : Converter) (conversions : Conversions) : Conversions :=
  ⟨conversions.entries.filter (fun entry => entry.1.id != d.id) ++ [(d, c)]⟩

/-- The converter for the node with this identity. -/
def get? (id : Nat) (conversions : Conversions) : Option Converter :=
  (conversions.entries.find? fun entry => entry.1.id == id).map Prod.snd

/-- The number of types with a converter. -/
def size (conversions : Conversions) : Nat :=
  conversions.entries.length

end Conversions

/-- What a cast reads besides the type and the value. -/
structure Context where
  config : Config := {}
  registry : Registry := .empty
  conversions : Conversions := .empty
  signatures : Signatures := .empty

/-- The converter for the node with this identity. -/
def Context.converter? (ctx : Context) (id : Nat) : Option Converter :=
  ctx.conversions.get? id

end Conform
