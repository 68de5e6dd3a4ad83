import Conform.Cast.Basic
import Conform.Decimal.OfBinary
import Conform.Decimal.Reader
import Conform.Text.Blank

/-!
# Casting scalars

Scalars are passed through unchanged or refused. Only decimals are converted, from texts, integers
and floating-point numbers.
-/

namespace Conform

/-- Whether a value is of a scalar type. A Boolean counts as an integer, and nothing else crosses
    kinds. -/
def Primitive.admits : Primitive → Value → Bool
  | none, .none => true
  | bool, .bool _ => true
  | int, .int _ => true
  | int, .bool _ => true
  | text, .text _ => true
  | bytes, .bytes _ => true
  | _, _ => false

namespace Value

/-- A Boolean, an integer or a floating-point number. -/
def isReal : Value → Bool
  | bool _ => true
  | int _ => true
  | float _ => true
  | _ => false

/-- A real or a complex number. -/
def isNumber : Value → Bool
  | complex .. => true
  | v => v.isReal

/-- Whether a value is equal to a member of a list. -/
def isAmong (v : Value) (allowed : List Value) : Bool :=
  allowed.any fun other => other.equal v

/-- The decimal number that a value stands for, or why there is none. -/
def toDecimal : Value → Except Mismatch Decimal
  | text s => (Decimal.ofText? (Text.trim s)).elim (.error .invalidDecimal) .ok
  | int i => .ok (.ofInt64 i)
  | bool b => .ok (.ofInt64 (if b then 1 else 0))
  | float x => (Decimal.ofBinary64? x).elim (.error .invalidDecimal) .ok
  | _ => .error .wrongKind

end Value

/-- Passes a value through if a test holds. -/
def castUnchanged (holds : Bool) (reason : Mismatch) (expected : String) (path : Path)
    (v : Value) : Program Value :=
  if holds then pure v else mismatch path v expected reason

/-- Converts a value to a decimal number. -/
def castDecimal (expected : String) (path : Path) (v : Value) : Program Value :=
  match v.toDecimal with
  | .ok d => pure (.decimal d)
  | .error reason => mismatch path v expected reason

end Conform
