import Conform.Context
import Conform.Descriptor.Printer
import Conform.Error

/-!
# Which types can be used

`Descriptor.check` goes through a type from the root down and from left to right and reports the
first node that nests too deep or that no rule can apply to: a union of nothing, or an invocation
whose path is not a symbol path. A node that the host converts is not looked into.
-/

namespace Conform

mutual

/-- Checks a type whose root has `depth` nodes above it. -/
def Descriptor.check (ctx : Context) (depth : Nat) : Descriptor → Except ConfigError Unit
  | .node id shape =>
    if ctx.config.limits.maxDescriptorDepth < depth + 1 then
      .error (.descriptorTooDeep ctx.config.limits.maxDescriptorDepth)
    else if (ctx.converter? id).isSome then .ok ()
    else shape.check ctx (depth + 1)

/-- Checks a shape, `depth` counting the node that it belongs to. -/
def Shape.check (ctx : Context) (depth : Nat) : Shape → Except ConfigError Unit
  | .record _ fields _ => checkFields ctx depth fields
  | .partialRecord _ fields _ => checkEntries ctx depth fields
  | .listOf element => element.check ctx depth
  | .setOf element => element.check ctx depth
  | .queueOf element => element.check ctx depth
  | .mapOf key value => do
    key.check ctx depth
    value.check ctx depth
  | .tupleOf elements => checkAll ctx depth elements
  | .unionOf alternatives =>
    if alternatives.isEmpty then .error (.emptyUnion (Shape.unionOf alternatives).render)
    else checkAll ctx depth alternatives
  | .invocation path args kwargs =>
    if path.symbolPath?.isNone then .error (.invocationPath path.render)
    else do
      path.check ctx depth
      args.check ctx depth
      kwargs.check ctx depth
  | .inspectedInvocation path =>
    if path.symbolPath?.isNone then .error (.invocationPath path.render)
    else path.check ctx depth
  | _ => .ok ()

/-- Checks types in order. -/
def checkAll (ctx : Context) (depth : Nat) : List Descriptor → Except ConfigError Unit
  | [] => .ok ()
  | d :: rest => do
    d.check ctx depth
    checkAll ctx depth rest

/-- Checks the types of fields in order. -/
def checkFields (ctx : Context) (depth : Nat) : List (Field Descriptor) → Except ConfigError Unit
  | [] => .ok ()
  | ⟨_, type, _⟩ :: rest => do
    type.check ctx depth
    checkFields ctx depth rest

/-- Checks the types under names in order. -/
def checkEntries (ctx : Context) (depth : Nat) :
    List (String × Descriptor) → Except ConfigError Unit
  | [] => .ok ()
  | (_, type) :: rest => do
    type.check ctx depth
    checkEntries ctx depth rest

end

/-- A type that can be used in a context. -/
structure Coercion where
  descriptor : Descriptor
  context : Context

/-- Prepares a type for use. -/
def compile (ctx : Context) (d : Descriptor) : Except ConfigError Coercion :=
  (d.check ctx 0).map fun _ => ⟨d, ctx⟩

end Conform
