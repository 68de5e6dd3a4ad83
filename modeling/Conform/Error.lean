import Conform.Location
import Conform.Symbol
import Conform.Value.Printer

/-!
# Why a cast fails

A `CastError` is one of four things: a value that does not fit a usable type (`coercion`), a type
or a setting that cannot be used (`config`), a symbol that leads nowhere (`lookup`), or whatever
the host program raised (`host`). Only the first kind makes a union try its next alternative.
-/

namespace Conform

/-- Why a value does not fit. -/
inductive Mismatch
  | wrongKind
  | notInLiteral
  | keySet (missing unknown : List String)
  | arity (expected found : Nat)
  | unionExhausted (alternatives : Nat)
  | unhashable
  | invalidDecimal
  | malformedSymbolPath
  | symbolNotAllowed
  | missingCallableKey (key : String)
  | notCallable
  | depthExceeded (limit : Nat)
deriving DecidableEq

/-- A value that does not fit, where it stands, and what was asked of it. -/
structure CoercionError where
  location : Location
  value : Value
  expected : String
  reason : Mismatch

/-- A type or a setting that cannot be used, whatever the value. -/
inductive ConfigError
  | emptyUnion (descriptor : String)
  | descriptorTooDeep (limit : Nat)
  | invocationPath (descriptor : String)
  | untypedParameter (callable param signature : String)
  | missingSignature (callable : String)
  | argsNotSequence (descriptor found : String)
  | kwargsNotMapping (descriptor found : String)
  | invalidDocument
deriving DecidableEq

/-- Why a cast fails. -/
inductive CastError
  | coercion (error : CoercionError)
  | config (error : ConfigError)
  | lookup (error : LookupError)
  | host (message : String)

/-- How a host function fails: with a message of its own, or with the error of a cast that it made
    itself. -/
inductive HostFailure
  | raised (message : String)
  | forwarded (error : CastError)

/-- A failed host function fails the cast; an error of a cast stays what it was. -/
def CastError.ofHost : HostFailure → CastError
  | .raised message => .host message
  | .forwarded error => error

namespace CastError

/-- The value does not fit. -/
def isCoercion : CastError → Bool
  | coercion _ => true
  | _ => false

/-- The type or a setting cannot be used. -/
def isConfig : CastError → Bool
  | config _ => true
  | _ => false

/-- A symbol leads nowhere. -/
def isLookup : CastError → Bool
  | lookup _ => true
  | _ => false

end CastError

/-- Names in brackets behind a label, unless there are none. -/
def Mismatch.keyList (label : String) (names : List String) : List String :=
  if names.isEmpty then [] else [label ++ " [" ++ Text.join ", " names ++ "]"]

/-- The end of the message of a value that does not fit. -/
def Mismatch.message : Mismatch → String
  | wrongKind => "unexpected kind"
  | notInLiteral => "not one of the allowed literals"
  | keySet missing unknown =>
    Text.join "; " (keyList "missing keys" missing ++ keyList "unknown keys" unknown)
  | arity expected found =>
    "expected " ++ toString expected ++ " elements, found " ++ toString found
  | unionExhausted alternatives => "none of " ++ toString alternatives ++ " alternatives matched"
  | unhashable => "value cannot be used as a key"
  | invalidDecimal => "not representable as a decimal"
  | malformedSymbolPath => "malformed symbol path"
  | symbolNotAllowed => "symbol is not in the allowed roots and names"
  | missingCallableKey key => "the \"" ++ key ++ "\" key is missing"
  | notCallable => "resolved symbol is not callable"
  | depthExceeded limit => "nesting exceeds the depth limit of " ++ toString limit

/-- Where, what, its kind, what was asked of it, and why it does not fit. -/
def CoercionError.message (e : CoercionError) : String :=
  e.location.render ++ ": " ++ e.value.render ++ " (" ++ e.value.kind.name
    ++ ") is not compatible with " ++ e.expected ++ ": " ++ e.reason.message

/-- What cannot be used, and why. -/
def ConfigError.message : ConfigError → String
  | emptyUnion descriptor => "union " ++ descriptor ++ " has no alternatives"
  | descriptorTooDeep limit =>
    "descriptor nests deeper than the depth limit of " ++ toString limit
  | invocationPath descriptor =>
    "invocation path must be a symbol path descriptor, found " ++ descriptor
  | untypedParameter callable param signature =>
    "unable to get the declared type of `" ++ param ++ "` for " ++ callable ++ signature
      ++ "; use an explicit invocation descriptor instead"
  | missingSignature callable =>
    callable ++ " declares no signature to inspect; use an explicit invocation descriptor instead"
  | argsNotSequence descriptor found =>
    "positional arguments descriptor " ++ descriptor ++ " produced " ++ found
      ++ ", expected a sequence"
  | kwargsNotMapping descriptor found =>
    "keyword arguments descriptor " ++ descriptor ++ " produced " ++ found
      ++ ", expected a mapping with text keys"
  | invalidDocument => "invalid configuration: "

/-- The name that leads nowhere. -/
def LookupError.message : LookupError → String
  | unknownRoot root => "no namespace named `" ++ root ++ "` is registered"
  | missingMember owner member => "`" ++ owner ++ "` has no member `" ++ member ++ "`"

/-- The message of whatever went wrong. -/
def CastError.message : CastError → String
  | coercion error => error.message
  | config error => error.message
  | lookup error => error.message
  | host message => message

end Conform
