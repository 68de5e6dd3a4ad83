import Conform.Descriptor.Printer
import Conform.Program

/-!
# Parts of casts

The rule of a type reaches the parts of a value through an `Enter` function, which casts a part at
its own location. The rules themselves know nothing about depth.
-/

namespace Conform

/-- How a part of a value is cast: its type, its location and the part. -/
abbrev Enter := Descriptor → Path → Value → Program Value

/-- Fails because the value at a location does not fit. -/
def mismatch {α : Type} (path : Path) (v : Value) (expected : String) (reason : Mismatch) :
    Program α :=
  .throw (.coercion ⟨.ofPath path, v, expected, reason⟩)

end Conform
