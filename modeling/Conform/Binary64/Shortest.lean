import Conform.Binary64

/-!
# The fewest digits that read back

`shortest` finds the decimal number with the fewest significant digits that still rounds to a
given double-precision number, and of those with that many digits the nearest one. All arithmetic
is exact. The real numbers that round to `m * 2 ^ q` form an interval, whose ends belong to it
exactly if `m` is even; on the grid of the multiples of a power of ten only the two neighbours of
the number itself need to be tried, because a grid that meets the interval meets it there.
-/

namespace Conform.Binary64

/-- A positive decimal number `coefficient * 10 ^ exponent`. -/
structure Digits where
  coefficient : Nat
  exponent : Int

/-- The number and the ends of its rounding interval as quotients with one denominator. -/
structure Rounding where
  lower : Nat
  value : Nat
  upper : Nat
  denominator : Nat
  /-- Whether the two ends round to the number. -/
  closed : Bool

/-- The rounding interval of a finite nonzero number. Below a power of two the neighbours are twice
    as close as above it. -/
def rounding (x : Binary64) : Rounding :=
  let m := x.significand
  -- in quarters of the last bit, the ends of the interval are whole
  let q := x.exponent - 2
  let scale := if q ≥ 0 then 1 <<< q.toNat else 1
  let low := if x.fraction = 0 ∧ x.biasedExponent > 1 then 4 * m - 1 else 4 * m - 2
  { lower := low * scale
    value := 4 * m * scale
    upper := (4 * m + 2) * scale
    denominator := if q ≥ 0 then 1 else 1 <<< (-q).toNat
    closed := m % 2 = 0 }

namespace Rounding

/-- The number of digits before the decimal point, negative for zeros behind it: the `k` with
    `10 ^ (k - 1) ≤ value / denominator < 10 ^ k`. -/
def magnitude (r : Rounding) : Int :=
  if r.value ≥ r.denominator then (Nat.toDigits 10 (r.value / r.denominator)).length
  else
    -- the zeros behind the point are those of the inverse, rounded up
    let inverse := (r.denominator + r.value - 1) / r.value
    1 - ((Nat.toDigits 10 (inverse - 1)).length : Int)

/-- Whether `num / den`, over the denominator of the interval, rounds to the number. -/
def contains (r : Rounding) (num den : Nat) : Bool :=
  if r.closed then r.lower * den ≤ num && num ≤ r.upper * den
  else r.lower * den < num && num < r.upper * den

/-- The nearest point that rounds to the number on the grid with `count` significant digits; of two
    equally near points the larger one. -/
def onGrid? (r : Rounding) (count : Nat) : Option Digits :=
  let p := r.magnitude - count
  let unit := if p ≥ 0 then Nat.pow 10 p.toNat * r.denominator else r.denominator
  let den := if p ≥ 0 then 1 else Nat.pow 10 (-p).toNat
  let c := r.value * den / unit
  -- the value lies between `c` and `c + 1` units
  let below := r.contains (c * unit) den
  let above := r.contains ((c + 1) * unit) den
  if above && (!below || (c + 1) * unit - r.value * den ≤ r.value * den - c * unit) then
    some ⟨c + 1, p⟩
  else if below then some ⟨c, p⟩
  else none

end Rounding

/-- Divides by ten, at most `fuel` times, as long as the last digit is zero. -/
def Digits.dropZeros (d : Digits) : Nat → Digits
  | 0 => d
  | fuel + 1 =>
    if d.coefficient % 10 = 0 then
      dropZeros ⟨d.coefficient / 10, d.exponent + 1⟩ fuel
    else d

/-- The digits of a finite nonzero number without its sign. Seventeen digits always suffice. -/
def shortest (x : Binary64) : Digits :=
  let r := x.rounding
  let found := (List.range 17).findSome? fun i => r.onGrid? (i + 1)
  (found.getD ⟨r.value / r.denominator, 0⟩).dropZeros 17

end Conform.Binary64
