import Conform.Binary64

/-!
# The nearest double-precision number

`nearestQuotient` rounds a positive quotient of natural numbers to the nearest double-precision
number, a tie going to the even significand, and `nearestDecimal` does so for a decimal
coefficient and exponent. `scale` multiplies or divides a number that is already rounded by a power
of ten and rounds again, which is faster and not always the nearest number.
-/

namespace Conform.Binary64

/-- The quotient rounded to the nearest integer, a half to the even one. -/
def roundHalfEven (num den : Nat) : Nat :=
  let q := num / den
  let r := num % den
  if 2 * r < den then q
  else if den < 2 * r then q + 1
  else if q % 2 = 0 then q else q + 1

/-- The exponent of the last bit when `num / den` is written with 53 significant bits, or fewer
    where the number is below the normal range. -/
def lastBitExponent (num den : Nat) : Int :=
  let guess : Int := (num.log2 : Int) - (den.log2 : Int) - 53
  let atLeast : Bool :=
    if guess + 53 ≥ 0 then num ≥ den <<< (guess + 53).toNat
    else num <<< (-(guess + 53)).toNat ≥ den
  max (-1074) (if atLeast then guess + 1 else guess)

/-- The 63 low bits of the number nearest to `num / den`; too large a quotient gives infinity. -/
def nearestQuotient (num den : Nat) : Nat :=
  if num = 0 then 0
  else
    let e := lastBitExponent num den
    let m := if e ≥ 0 then roundHalfEven num (den <<< e.toNat)
      else roundHalfEven (num <<< (-e).toNat) den
    -- below the normal range the significand alone; else its top bit adds one to the exponent
    if m < 1 <<< 52 then m
    else min infinityMagnitude ((e + 1074).toNat <<< 52 + m)

/-- The number nearest to `coefficient * 10 ^ exponent`. The exponents outside of the range of the
    format are recognised from the number of digits alone. -/
def nearestDecimal (negative : Bool) (coefficient : Nat) (exponent : Int) : Binary64 :=
  let size : Int := exponent + (Nat.toDigits 10 coefficient).length
  ofParts negative <|
    if coefficient = 0 then 0
    else if size > 310 then infinityMagnitude
    else if size < -330 then 0
    else if exponent ≥ 0 then nearestQuotient (coefficient * Nat.pow 10 exponent.toNat) 1
    else nearestQuotient coefficient (Nat.pow 10 (-exponent).toNat)

/-! ## Powers of ten -/

/-- A finite number without its sign, as a quotient. -/
def quotient (x : Binary64) : Nat × Nat :=
  if x.exponent ≥ 0 then (x.significand <<< x.exponent.toNat, 1)
  else (x.significand, 1 <<< (-x.exponent).toNat)

/-- The number nearest to a natural number. -/
def ofNat (n : Nat) : Binary64 :=
  ofParts false (nearestQuotient n 1)

/-- The number nearest to a power of ten. -/
def powerOfTen (exponent : Nat) : Binary64 :=
  ofNat (Nat.pow 10 exponent)

/-- The rounded product of two numbers that are not negative. -/
def times (x y : Binary64) : Binary64 :=
  ofParts false (nearestQuotient (x.quotient.1 * y.quotient.1) (x.quotient.2 * y.quotient.2))

/-- The rounded quotient of two numbers that are not negative, the second of which is not zero. -/
def dividedBy (x y : Binary64) : Binary64 :=
  ofParts false (nearestQuotient (x.quotient.1 * y.quotient.2) (x.quotient.2 * y.quotient.1))

/-- The exponent of the largest power of ten in the range of the format. -/
def maxPowerOfTen : Nat := 308

/-- Divides a number by the largest power of ten again and again, unless it becomes zero. -/
def shrink : Nat → Binary64 → Binary64
  | 0, x => x
  | steps + 1, x => if x.isZero then x else shrink steps (x.dividedBy (powerOfTen maxPowerOfTen))

/-- A number that is not negative multiplied by `10 ^ exponent`, if that is in the range. -/
def scale (x : Binary64) (exponent : Int) : Option Binary64 :=
  if exponent > maxPowerOfTen then if x.isZero then some x else none
  else if exponent ≥ 0 then
    let y := x.times (powerOfTen exponent.toNat)
    if y.isFinite then some y else none
  else
    let places := (-exponent).toNat
    let steps := (places - 1) / maxPowerOfTen
    some ((shrink steps x).dividedBy (powerOfTen (places - steps * maxPowerOfTen)))

end Conform.Binary64
