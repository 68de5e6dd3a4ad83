import Conform.Symbol

/-!
# Type descriptors

A `Descriptor` says which values are accepted and what they become. Every node of a descriptor has
an identity: a conversion is registered for a node, not for a shape, and two nodes that look alike
are different unless they have one identity.

A `Signature` lists the parameters of a callable. It is kept apart from the callable, in the
context of a cast, because its parameters are typed by descriptors.
-/

namespace Conform

/-- The scalar types that are matched by kind alone. -/
inductive Primitive
  | none | bool | int | text | bytes
deriving DecidableEq

/-- A function of the host program that makes default values. -/
structure Factory where
  id : Nat
deriving DecidableEq

/-- What stands in for an absent field. -/
inductive Default
  | value (v : Value)
  | factory (f : Factory)

/-- A declared field of a record. -/
structure Field (δ : Type) where
  name : String
  type : δ
  default? : Option Default

mutual

/-- A type with an identity. -/
inductive Descriptor
  | node (id : Nat) (shape : Shape)

/-- What a type is made of. -/
inductive Shape
  | any
  | primitive (p : Primitive)
  | float
  | complex
  | decimal
  | literal (allowed : List Value)
  | record (name : String) (fields : List (Field Descriptor)) (constructor? : Option Callable)
  | partialRecord (name : String) (fields : List (String × Descriptor)) (total : Bool)
  | listOf (element : Descriptor)
  | setOf (element : Descriptor)
  | queueOf (element : Descriptor)
  | mapOf (key value : Descriptor)
  | tupleOf (elements : List Descriptor)
  | unionOf (alternatives : List Descriptor)
  | symbolPath (spec : SymbolPath)
  | invocation (path args kwargs : Descriptor)
  | inspectedInvocation (path : Descriptor)

end

instance : Inhabited Descriptor := ⟨.node 0 .any⟩

namespace Descriptor

/-- The identity of the root node. -/
def id : Descriptor → Nat
  | node id _ => id

/-- The shape of the root node. -/
def shape : Descriptor → Shape
  | node _ shape => shape

/-- The symbols that a symbol path descriptor admits. -/
def symbolPath? (d : Descriptor) : Option SymbolPath :=
  match d.shape with
  | .symbolPath spec => some spec
  | _ => none

end Descriptor

/-- Declares a field. A field of that name is replaced in its place. -/
def Field.declare {δ : Type} (f : Field δ) : List (Field δ) → List (Field δ)
  | [] => [f]
  | g :: rest => if g.name == f.name then f :: rest else g :: f.declare rest

/-- The fields that are left of a sequence of declarations. -/
def Field.declareAll {δ : Type} (fields : List (Field δ)) : List (Field δ) :=
  fields.foldl (fun declared f => f.declare declared) []

/-- Puts a name into an ascending list of names, unless it is there. -/
def insertName (name : String) : List String → List String
  | [] => [name]
  | other :: rest =>
    if name < other then name :: other :: rest
    else if name = other then other :: rest
    else other :: insertName name rest

/-- The names in ascending order, each once. -/
def sortNames (names : List String) : List String :=
  names.foldl (fun sorted name => insertName name sorted) []

/-- The names of the fields without a default, in ascending order. -/
def Field.requiredNames {δ : Type} (fields : List (Field δ)) : List String :=
  sortNames ((fields.filter fun f => f.default?.isNone).map Field.name)

/-- A parameter of a callable. -/
structure Param where
  name : String
  type? : Option Descriptor
  default? : Option Value

/-- The parameters of a callable in order. -/
structure Signature where
  params : List Param

/-- The signatures of those callables that have one. -/
structure Signatures where
  table : List (Nat × Signature)

namespace Signatures

/-- No callable has a signature. -/
def empty : Signatures := ⟨[]⟩

/-- The signature of a callable. -/
def get? (signatures : Signatures) (c : Callable) : Option Signature :=
  Entries.find? c.id signatures.table

end Signatures

end Conform
