/-!
# Decimal numbers

A `Decimal` is a sign, an integer mantissa of 96 bits and a scale, the number of digits behind the
decimal point, of at most 28. Numbers that differ only in trailing zeros, or in the sign of zero,
are different as data and equal as numbers: `Decimal.compare` compares the numbers.
-/

namespace Conform

/-- The decimal number `mantissa / 10 ^ scale` with a sign. -/
structure Decimal where
  negative : Bool
  mantissa : Nat
  scale : Nat
  mantissa_lt : mantissa < 1 <<< 96
  scale_le : scale ≤ 28
deriving DecidableEq

namespace Decimal

/-- The number with these parts, if they are in range. -/
def ofParts? (negative : Bool) (mantissa scale : Nat) : Option Decimal :=
  if h : mantissa < 1 <<< 96 ∧ scale ≤ 28 then some ⟨negative, mantissa, scale, h.1, h.2⟩ else none

instance : Inhabited Decimal := ⟨⟨false, 0, 0, by decide, by decide⟩⟩

/-- An integer of 64 bits, exactly and with scale zero. -/
def ofInt64 (i : Int64) : Decimal where
  negative := i.toInt < 0
  mantissa := i.toInt.natAbs
  scale := 0
  mantissa_lt := by have := i.toInt_lt; have := i.le_toInt; omega
  scale_le := by decide

/-- The mantissa with its sign. -/
def signedMantissa (d : Decimal) : Int :=
  if d.negative then -(d.mantissa : Int) else d.mantissa

/-- The order of the numbers: both are brought to a common scale. -/
def compare (a b : Decimal) : Ordering :=
  Ord.compare (a.signedMantissa * Int.pow 10 b.scale) (b.signedMantissa * Int.pow 10 a.scale)

/-- Equality of the numbers. -/
def equal (a b : Decimal) : Bool :=
  a.signedMantissa * Int.pow 10 b.scale == b.signedMantissa * Int.pow 10 a.scale

/-- All digits of the scale are written, and at least one before the point. -/
def textChars (d : Decimal) : List Char :=
  let digits := Nat.toDigits 10 d.mantissa
  let padded := List.replicate (d.scale + 1 - digits.length) '0' ++ digits
  let whole := padded.take (padded.length - d.scale)
  let part := padded.drop (padded.length - d.scale)
  (if d.negative then ['-'] else []) ++ whole ++ (if d.scale = 0 then [] else '.' :: part)

/-- The number in writing. -/
def text (d : Decimal) : String :=
  String.ofList d.textChars

end Decimal

end Conform
