import Conform.Cast.Basic

/-!
# Casting containers

The items of a container are cast one after the other, each at its own location. A set or a map
then takes the cast keys: of equal elements of a set the first stays, and of entries with equal
keys the first key and the last value.
-/

namespace Conform

variable (enter : Enter)

/-- Casts the items of a sequence that starts at a position. -/
def castItems (element : Descriptor) (path : Path) : Nat → List Value → Program (List Value)
  | _, [] => pure []
  | i, v :: rest => do
    let item ← enter element (path ++ [.index i]) v
    let items ← castItems element path (i + 1) rest
    pure (item :: items)

/-- Casts the items of a sequence or a set to one type. -/
def castElements (element : Descriptor) (expected : String) (path : Path) (v : Value) :
    Program (List Value) :=
  match v.elements? with
  | some items => castItems enter element path 0 items
  | none => mismatch path v expected .wrongKind

/-- The keys of cast items. -/
def hashItems (element : Descriptor) (path : Path) : Nat → List Value → Program (List Key)
  | _, [] => pure []
  | i, v :: rest =>
    match v.toKey? with
    | some k => do
      let keys ← hashItems element path (i + 1) rest
      pure (k :: keys)
    | none => mismatch (path ++ [.index i]) v element.render .unhashable

/-- Casts to a set. All elements are cast before the first is made a key. -/
def castSet (element : Descriptor) (expected : String) (path : Path) (v : Value) :
    Program Value := do
  let items ← castElements enter element expected path v
  let keys ← hashItems element path 0 items
  pure (.set (Key.ascending keys))

/-- Casts the entries of a map. Each key is cast and made a key before the value under it. -/
def castEntries (key value : Descriptor) (path : Path) :
    List (Key × Value) → Program (List (Key × Value))
  | [] => pure []
  | (k, v) :: rest => do
    let here := path ++ [.key k.render]
    let castKey ← enter key here k.toValue
    match castKey.toKey? with
    | some newKey => do
      -- the value lies at the key as it was before its cast
      let newValue ← enter value here v
      let entries ← castEntries key value path rest
      pure ((newKey, newValue) :: entries)
    | none => mismatch here castKey key.render .unhashable

/-- Casts a map to a map. -/
def castMap (key value : Descriptor) (expected : String) (path : Path) (v : Value) :
    Program Value :=
  match v with
  | .map entries => do
    let newEntries ← castEntries enter key value path entries
    pure (.map (Entries.ofList newEntries))
  | _ => mismatch path v expected .wrongKind

/-- Casts items to the types at their positions. -/
def castEach (path : Path) : Nat → List Descriptor → List Value → Program (List Value)
  | i, element :: elements, v :: rest => do
    let item ← enter element (path ++ [.index i]) v
    let items ← castEach path (i + 1) elements rest
    pure (item :: items)
  | _, _, _ => pure []

/-- Casts a sequence of the right length to a tuple. -/
def castTuple (elements : List Descriptor) (expected : String) (path : Path) (v : Value) :
    Program Value :=
  match v.sequence? with
  | some items =>
    -- the arity is checked before any item is cast
    if items.length = elements.length then do
      let newItems ← castEach enter path 0 elements items
      pure (.tuple newItems)
    else mismatch path v expected (.arity elements.length items.length)
  | none => mismatch path v expected .wrongKind

end Conform
