/-!
# Double-precision numbers

A `Binary64` is the 64-bit pattern of an IEEE 754 number, so that equality of values of this type
is equality of patterns. Numbers are compared by `Binary64.equal`, under which the two zeros are
one number and a NaN equals nothing.

A finite number is `significand * 2 ^ exponent`, with a minus sign if `isNegative`.
-/

namespace Conform

/-- The bit pattern of a double-precision number. -/
structure Binary64 where
  bits : UInt64
deriving DecidableEq, Inhabited

namespace Binary64

/-- Whether the sign bit is set. -/
def isNegative (x : Binary64) : Bool :=
  x.bits.toNat ≥ 1 <<< 63

/-- The eleven bits of the biased exponent. -/
def biasedExponent (x : Binary64) : Nat :=
  (x.bits.toNat >>> 52) % 1 <<< 11

/-- The 52 bits after the binary point. -/
def fraction (x : Binary64) : Nat :=
  x.bits.toNat % 1 <<< 52

/-- Neither an infinity nor a NaN. -/
def isFinite (x : Binary64) : Bool :=
  x.biasedExponent != 2047

/-- Not a number. -/
def isNaN (x : Binary64) : Bool :=
  x.biasedExponent == 2047 && x.fraction != 0

/-- One of the two zeros. -/
def isZero (x : Binary64) : Bool :=
  x.biasedExponent == 0 && x.fraction == 0

/-- The integer significand; a number below the normal range has no hidden bit. -/
def significand (x : Binary64) : Nat :=
  if x.biasedExponent = 0 then x.fraction else 1 <<< 52 + x.fraction

/-- The power of two of the last bit of the significand. -/
def exponent (x : Binary64) : Int :=
  if x.biasedExponent = 0 then -1074 else (x.biasedExponent : Int) - 1075

/-- Numeric equality: a NaN equals nothing, and the two zeros are equal. -/
def equal (x y : Binary64) : Bool :=
  !x.isNaN && !y.isNaN && (x == y || (x.isZero && y.isZero))

/-- The number with the given sign bit and the remaining 63 bits. -/
def ofParts (negative : Bool) (magnitude : Nat) : Binary64 :=
  ⟨UInt64.ofNat ((if negative then 1 <<< 63 else 0) + magnitude)⟩

/-- The 63 bits of an infinity. -/
def infinityMagnitude : Nat := 2047 <<< 52

/-- It does not matter which of two numbers is compared with which. -/
theorem equal_comm (x y : Binary64) : x.equal y = y.equal x := by
  unfold equal
  rw [Bool.and_comm (!x.isNaN), Bool.and_comm x.isZero, BEq.comm (a := x)]

/-- A number equals itself unless it is a NaN. -/
theorem equal_self (x : Binary64) : x.equal x = !x.isNaN := by
  simp [equal]

end Binary64

end Conform
