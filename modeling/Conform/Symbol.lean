import Conform.Text.Segments
import Conform.Value

/-!
# Symbols

A symbol is a dotted path that leads from a registered namespace through members and record
fields to a value. A `SymbolPath` says which symbols may be named at all: it lists roots, the
remainders behind the root, and whole paths. `SymbolPath.resolve` finds the value of a path that
is allowed. A path whose first segment is not a root of its own is tried below each allowed root.
-/

namespace Conform

/-- A list of admitted names, or no restriction. -/
inductive Candidates
  | any
  | only (names : List String)
deriving DecidableEq

namespace Candidates

/-- Whether a name is admitted. -/
def admits (name : String) : Candidates → Bool
  | any => true
  | only names => names.contains name

/-- The list in parentheses; a star stands for every name. -/
def render : Candidates → String
  | any => "*"
  | only names => "(" ++ Text.join ", " names ++ ")"

end Candidates

/-- The symbols that may be named: by their root, by the rest of the path, and by the whole path. -/
structure SymbolPath where
  roots : Candidates
  names : Candidates
  paths : Candidates
deriving DecidableEq

/-- Why no member is found. -/
inductive LookupError
  | unknownRoot (root : String)
  | missingMember (owner member : String)
deriving DecidableEq

/-- Why a symbol is not resolved. -/
inductive SymbolError
  | malformed
  | notAllowed
  | lookup (error : LookupError)
deriving DecidableEq

/-- The namespaces that symbols start from. -/
structure Registry where
  roots : List (String × Namespace)
deriving Inhabited

namespace Registry

/-- The registry of no namespaces. -/
def empty : Registry := ⟨[]⟩

/-- Registers a namespace under its own name, in the place of one of that name. -/
def insert (n : Namespace) (registry : Registry) : Registry :=
  ⟨Entries.insert n.name n registry.roots⟩

/-- The namespace that is registered under a name. -/
def get? (root : String) (registry : Registry) : Option Namespace :=
  Entries.find? root registry.roots

/-- The number of registered namespaces. -/
def size (registry : Registry) : Nat :=
  registry.roots.length

end Registry

namespace Value

/-- The member of a namespace or the field of a record; nothing else has members. -/
def member? (name : String) : Value → Option Value
  | nspace _ _ members => Entries.find? name members
  | record _ fields => Entries.find? name fields
  | _ => .none

/-- Walks down the members of a value. `owner` is the dotted path that led to the value. -/
def walk (owner : String) (v : Value) : List String → Except LookupError Value
  | [] => .ok v
  | name :: rest =>
    match v.member? name with
    | some next => walk (owner ++ "." ++ name) next rest
    | .none => .error (.missingMember owner name)

end Value

/-- The value at the end of a path that starts at a registered namespace. -/
def Registry.lookup (registry : Registry) (root : String) (members : List String) :
    Except LookupError Value :=
  match registry.get? root with
  | some n => n.toValue.walk root members
  | none => .error (.unknownRoot root)

namespace SymbolPath

/-- All symbols. -/
def unrestricted : SymbolPath := ⟨.any, .any, .any⟩

/-- The first segment of a dotted path. -/
def leading (path : String) : String :=
  (Text.splitOn '.' path).headD ""

/-- Exactly the listed paths. The roots are their first segments, each once and in order. -/
def onlyPaths (paths : List String) : SymbolPath where
  roots := .only (paths.foldl (fun roots path =>
    if roots.contains (leading path) then roots else roots ++ [leading path]) [])
  names := .any
  paths := .only paths

/-- Whether the path below an admitted root is on the lists of names and paths. -/
def admits (spec : SymbolPath) (root : String) (members : List String) : Bool :=
  let names := Text.join "." members
  spec.names.admits names &&
    match spec.paths with
    | .any => true
    | .only _ => spec.paths.admits (if names.isEmpty then root else root ++ "." ++ names)

/-- The restrictions in messages. A list of whole paths hides the others. -/
def render (spec : SymbolPath) : String :=
  match spec.roots, spec.names, spec.paths with
  | _, _, .only paths => "Symbol[" ++ (Candidates.only paths).render ++ "]"
  | .any, .any, .any => "Symbol"
  | roots, names, .any => "Symbol[" ++ roots.render ++ "." ++ names.render ++ "]"

/-- The value of the whole path below the first listed root under which it is allowed and found. -/
def resolveBelow (spec : SymbolPath) (registry : Registry) (segments : List String) :
    Option Value :=
  match spec.roots with
  | .any => none
  | .only roots =>
    (roots.filter fun root => spec.admits root segments).findSome? fun root =>
      (registry.lookup root segments).toOption

/-- The value that a dotted path names. The path starts at an admitted root; if its first segment is
    neither admitted nor registered, it is taken below the listed roots instead. -/
def resolve (spec : SymbolPath) (registry : Registry) (path : String) :
    Except SymbolError Value :=
  match Text.splitOn '.' path with
  | [] => .error .malformed
  | root :: rest =>
    if (root :: rest).any String.isEmpty then .error .malformed
    else if spec.roots.admits root then
      if spec.admits root rest then (registry.lookup root rest).mapError .lookup
      else .error .notAllowed
    else if (registry.get? root).isSome then .error .notAllowed
    else
      match spec.resolveBelow registry (root :: rest) with
      | some v => .ok v
      | none => .error .notAllowed

end SymbolPath

end Conform
