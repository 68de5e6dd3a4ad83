import Conform.Decimal
import Conform.Binary64

/-!
# Decimal numbers from double-precision ones

The significand is carried over in 96 bits, and powers of two are traded for powers of ten one at
a time. What does not fit is cut off on the way, and the digits beyond the largest scale are
rounded one after the other, a half upwards.
-/

namespace Conform.Decimal

/-- A significand with the powers of ten that are still to be applied to it. -/
structure Pending where
  mantissa : Nat
  tens : Int

/-- Divides by two `count` times: exactly while the mantissa is even, else by trading the division
    for a multiplication by five and one place behind the point, or by cutting off a bit. -/
def halve (p : Pending) : Nat → Pending
  | 0 => p
  | count + 1 =>
    if p.mantissa % 2 = 0 then halve ⟨p.mantissa / 2, p.tens + 1⟩ count
    else if p.mantissa * 5 < 1 <<< 96 then halve ⟨p.mantissa * 5, p.tens⟩ count
    else halve ⟨p.mantissa / 2, p.tens + 1⟩ count

/-- Multiplies by two `count` times while there is room, else divides by five; gives up when too few
    places are left for that. -/
def double? (p : Pending) : Nat → Option Pending
  | 0 => some p
  | count + 1 =>
    if p.mantissa < 1 <<< 95 then double? ⟨p.mantissa * 2, p.tens - 1⟩ count
    else if p.tens * 2 > (count : Int) + 1 then none
    else double? ⟨p.mantissa / 5, p.tens⟩ count

/-- Applies `count` powers of ten, if they fit. -/
def raise? (mantissa : Nat) : Nat → Option Nat
  | 0 => some mantissa
  | count + 1 => if mantissa * 10 < 1 <<< 96 then raise? (mantissa * 10) count else none

/-- Rounds away `count` digits one by one and gives the scale that is left of 28 places; a mantissa
    that vanishes has none. -/
def lower (mantissa : Nat) : Nat → Nat × Nat
  | 0 => (mantissa, 28)
  | count + 1 =>
    if mantissa / 10 = 0 then (0, 0)
    else lower (if mantissa % 10 ≥ 5 then mantissa / 10 + 1 else mantissa / 10) count

/-- The decimal number with the value of a finite double-precision number, as far as it fits. -/
def ofBinary64? (x : Binary64) : Option Decimal :=
  if !x.isFinite then none
  else if x.isZero then ofParts? x.isNegative 0 0
  else
    let start : Pending := ⟨x.significand, x.exponent⟩
    let pending := if x.exponent < 0 then some (halve start (-x.exponent).toNat)
      else double? start x.exponent.toNat
    match pending with
    | none => none
    | some p =>
      if p.tens > 0 then
        (raise? p.mantissa p.tens.toNat).bind fun m => ofParts? x.isNegative m 0
      else if p.tens < -28 then
        -- more places than the format has
        let (mantissa, scale) := lower p.mantissa (-p.tens - 28).toNat
        ofParts? x.isNegative mantissa scale
      else ofParts? x.isNegative p.mantissa (-p.tens).toNat

end Conform.Decimal
