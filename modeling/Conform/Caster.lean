import Conform.Cast

/-!
# Casters

A `Caster` keeps the types that it has prepared for use, one for each identity, until it is
cleared. It gives the same results as casting without it.
-/

namespace Conform

/-- A context with the types that have been prepared in it. -/
structure Caster where
  context : Context
  cache : List (Nat × Coercion)

namespace Caster

/-- A caster that has not prepared anything. -/
def new (ctx : Context) : Caster := ⟨ctx, []⟩

/-- The number of prepared types. -/
def size (c : Caster) : Nat :=
  c.cache.length

/-- Prepares a type unless that has been done. A type that cannot be used is not kept. -/
def coercion (c : Caster) (d : Descriptor) : Except ConfigError (Coercion × Caster) :=
  match Entries.find? d.id c.cache with
  | some known => .ok (known, c)
  | none => (compile c.context d).map fun new => (new, { c with cache := c.cache ++ [(d.id, new)] })

/-- Casts a value to a type, and keeps the type. -/
def cast (c : Caster) (d : Descriptor) (v : Value) : Program Value × Caster :=
  match c.coercion d with
  | .ok (prepared, c) => (prepared.apply v, c)
  | .error e => (.throw (.config e), c)

/-- Forgets all types. -/
def clear (c : Caster) : Caster :=
  { c with cache := [] }

end Caster

end Conform
