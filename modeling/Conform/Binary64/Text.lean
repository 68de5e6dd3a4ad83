import Conform.Binary64.Shortest

/-!
# Double-precision numbers in writing

Two forms are written, both with the fewest digits that read back. `positional` never uses an
exponent and writes whole numbers without a point. `literal` always shows that the number is not
an integer: it has a decimal point or, outside of the range from 10⁻⁴ up to but not including
10¹⁶, an exponent.
-/

namespace Conform.Binary64

/-- The decimal digits of a natural number. -/
def digitChars (n : Nat) : List Char :=
  Nat.toDigits 10 n

/-- The digits written around a decimal point that stands behind the first `point` of them, with
    zeros where there are none. The part behind the point has at least `places` digits. -/
def placePoint (digits : List Char) (point : Int) (places : Nat) : List Char :=
  let whole :=
    if point ≤ 0 then ['0']
    else digits.take point.toNat ++ List.replicate (point.toNat - digits.length) '0'
  let part := List.replicate (-point).toNat '0' ++ digits.drop point.toNat
  let part := part ++ List.replicate (places - part.length) '0'
  if part.isEmpty then whole else whole ++ '.' :: part

/-- A positive number with an exponent: one digit, the rest behind a point, and the exponent. -/
def scientific (digits : List Char) (point : Int) : List Char :=
  let rest := digits.drop 1
  let part := if rest.isEmpty then [] else '.' :: rest
  digits.take 1 ++ part ++ 'e' :: (toString (point - 1)).toList

/-- The magnitude of a number without an exponent. -/
def positionalMagnitude (x : Binary64) (places : Nat) : List Char :=
  if x.isZero then placePoint ['0'] 1 places
  else
    let d := x.shortest
    let digits := digitChars d.coefficient
    placePoint digits (digits.length + d.exponent) places

/-- The magnitude of a number, with an exponent below 10⁻⁴ and from 10¹⁶ on. -/
def literalMagnitude (x : Binary64) : List Char :=
  if x.isZero then placePoint ['0'] 1 1
  else
    let d := x.shortest
    let digits := digitChars d.coefficient
    let point : Int := digits.length + d.exponent
    -- the number lies between `10 ^ (point - 1)` and `10 ^ point`
    if -3 ≤ point && point ≤ 16 then placePoint digits point 1
    else scientific digits point

/-- The sign, the magnitude of a finite number, and names for the rest. A NaN has no sign. -/
def signed (x : Binary64) (plus : List Char) (magnitude : List Char) : String :=
  if x.isNaN then "NaN"
  else
    let sign := if x.isNegative then ['-'] else plus
    String.ofList (sign ++ if x.isFinite then magnitude else ['i', 'n', 'f'])

/-- A number that reads as non-integral: with a point or an exponent. -/
def literal (x : Binary64) : String :=
  x.signed [] x.literalMagnitude

/-- A number without an exponent, and without a point where none is needed. -/
def positional (x : Binary64) : String :=
  x.signed [] (x.positionalMagnitude 0)

/-- As `positional`, with a plus sign where there is no minus. -/
def positionalSigned (x : Binary64) : String :=
  x.signed ['+'] (x.positionalMagnitude 0)

end Conform.Binary64
