import Conform.Compilation
import Conform.Value.Inspection

/-!
# Descriptors and callables in full

The counterparts of `Value.inspect` for types, defaults, parameters and callables, and for what a
context holds of them.
-/

namespace Conform

open Inspection

/-- A type in full is its text in messages. -/
def Descriptor.inspect (d : Descriptor) : String :=
  tagged "Descriptor" d.render

/-- A default in full; nothing can be shown of a factory. -/
def Default.inspect : Default → String
  | value v => tagged "Value" v.inspect
  | factory _ => "Factory(<fn>)"

/-- A parameter in full. -/
def Param.inspect (p : Param) : String :=
  labelled "Param"
    ["name: " ++ Text.quote p.name,
      "ty: " ++ maybe (p.type?.map Descriptor.inspect),
      "default: " ++ maybe (p.default?.map Value.inspect)]

/-- The parameters of a signature in full. -/
def Signature.inspect (s : Signature) : String :=
  labelled "Signature" ["params: " ++ sequence (s.params.map Param.inspect)]

/-- A callable with its signature, as far as it can be shown. -/
def Callable.inspect (c : Callable) (signature? : Option Signature) : String :=
  partly "Callable"
    ["name: " ++ Text.quote c.name,
      "signature: " ++ maybe (signature?.map Signature.inspect)]

/-- A prepared type with the limit on the depth of values. -/
def Coercion.inspect (c : Coercion) : String :=
  partly "Coercion"
    ["descriptor: " ++ c.descriptor.inspect,
      "max_depth: " ++ toString c.context.config.limits.maxDepth]

/-- The types that have a converter. -/
def Conversions.inspect (conversions : Conversions) : String :=
  sequence (conversions.entries.map fun entry => entry.1.inspect)

end Conform
