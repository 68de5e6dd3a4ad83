import Conform.Decimal

/-!
# Reading decimal numbers

The plain form is a sign, digits and a point, with at least one digit and underscores anywhere
behind the first one. Digits behind the point that do not fit are rounded away by the first of
them, but where a short number fills the last place, an underscore behind it cuts off the rest.
The scientific form has an exponent behind a plain form.
-/

namespace Conform.Decimal

/-- One of the ten ASCII digits. -/
def isDigit (c : Char) : Bool :=
  '0' ≤ c && c ≤ '9'

/-- The number that a digit stands for. -/
def digitValue (c : Char) : Nat :=
  c.toNat - '0'.toNat

/-- The values of the digits of a text, whatever else it holds. -/
def digitValues (s : List Char) : List Nat :=
  (s.filter isDigit).map digitValue

/-- The natural number with these decimal digits. -/
def ofDigits (digits : List Nat) : Nat :=
  digits.foldl (fun n d => n * 10 + d) 0

/-- Rounds a mantissa by the first digit that did not fit, a half upwards. A mantissa that overflows
    gives up one place behind the point, if it has one. -/
def roundBy (mantissa scale digit : Nat) : Option (Nat × Nat) :=
  if digit < 5 then some (mantissa, scale)
  else if mantissa + 1 < 1 <<< 96 then some (mantissa + 1, scale)
  else if scale = 0 then none
  else some ((mantissa + 1 + 4) / 10, scale - 1)

/-- Whether a mantissa without its last digit is below a tenth of the 64-bit range, less a margin of
    255. -/
def isShort (mantissa : Nat) : Bool :=
  mantissa / 10 < (1 <<< 64 - 1) / 10 - 255

/-- Appends the digits behind the point to a mantissa as long as they fit. An underscore is skipped,
    except that it ends a short mantissa that has all its places. -/
def appendPart (mantissa scale : Nat) : List Char → Option (Nat × Nat)
  | [] => some (mantissa, scale)
  | '_' :: rest =>
    if scale = 28 && isShort mantissa then some (mantissa, scale)
    else appendPart mantissa scale rest
  | c :: rest =>
    if scale < 28 && mantissa * 10 + digitValue c < 1 <<< 96 then
      appendPart (mantissa * 10 + digitValue c) (scale + 1) rest
    else roundBy mantissa scale (digitValue c)

/-- The sign in front of a text and the text behind it. -/
def splitSign : List Char → Bool × List Char
  | '-' :: rest => (true, rest)
  | '+' :: rest => (false, rest)
  | s => (false, s)

/-- Whether a text without its sign has the plain form. -/
def isPlainForm (body : List Char) : Bool :=
  body.all (fun c => isDigit c || c == '_' || c == '.')
    && body.count '.' ≤ 1
    && ((body.filter (· != '.')).head?.map isDigit).getD false

/-- Reads the plain form. Zero has no sign. -/
def ofPlain? (s : List Char) : Option Decimal :=
  let (negative, body) := splitSign s
  if !isPlainForm body then none
  else
    let whole := ofDigits (digitValues (body.takeWhile (· != '.')))
    if whole < 1 <<< 96 then
      match appendPart whole 0 ((body.dropWhile (· != '.')).drop 1) with
      | none => none
      | some (mantissa, scale) => ofParts? (negative && mantissa != 0) mantissa scale
    else none

/-- Reads the digits of an exponent, an optional plus sign before them. -/
def exponentDigits? (s : List Char) : Option Nat :=
  let digits := match s with
    | '+' :: rest => rest
    | _ => s
  if digits.isEmpty || !digits.all isDigit then none else some (ofDigits (digitValues digits))

/-- Moves the point to the left. If the scale becomes too large, the number is rounded before, a
    half away from zero. -/
def shiftDown? (d : Decimal) (places : Nat) : Option Decimal :=
  if 28 < places then none
  else if d.scale + places ≤ 28 then ofParts? d.negative d.mantissa (d.scale + places)
  else
    -- at least one digit is lost, and the first of them decides
    let drop := d.scale + places - 28
    let kept := d.mantissa / Nat.pow 10 drop
    let digit := d.mantissa / Nat.pow 10 (drop - 1) % 10
    ofParts? d.negative (if digit < 5 then kept else kept + 1) 28

/-- Moves the point to the right, behind the last digit by appending zeros. -/
def shiftUp? (d : Decimal) (places : Nat) : Option Decimal :=
  if 28 < places then none
  else if places ≤ d.scale then ofParts? d.negative d.mantissa (d.scale - places)
  else ofParts? d.negative (d.mantissa * Nat.pow 10 (places - d.scale)) 0

/-- The letter in front of an exponent. -/
def isExponentMark (c : Char) : Bool :=
  c == 'e' || c == 'E'

/-- Reads a plain form with an exponent behind it. -/
def ofScientific? (s : List Char) : Option Decimal :=
  match s.dropWhile (!isExponentMark ·) with
  | [] => none
  | _ :: exponent =>
    match ofPlain? (s.takeWhile (!isExponentMark ·)) with
    | none => none
    | some base =>
      match exponent with
      | '-' :: digits => (exponentDigits? digits).bind base.shiftDown?
      | digits => (exponentDigits? digits).bind base.shiftUp?

/-- Reads either form. -/
def ofChars? (s : List Char) : Option Decimal :=
  (ofPlain? s).orElse fun _ => ofScientific? s

/-- Reads a decimal number. -/
def ofText? (s : String) : Option Decimal :=
  ofChars? s.toList

end Conform.Decimal
