import Conform.Binary64.Nearest
import Conform.Decimal.Reader
import Conform.Json
import Conform.Toml

/-!
# Scalars of TOML documents

Numbers, Booleans and dates are words: runs of letters, digits and a few signs. A word is read as
a whole by the forms of this module. Strings have two kinds of quotes, each on one line or on
several.
-/

namespace Conform.Toml

/-- The characters of numbers, Booleans and dates. -/
def isWordChar (c : Char) : Bool :=
  c.isAlphanum || c == '_' || c == '+' || c == '-' || c == '.' || c == ':'

/-- The digits of a run in which single underscores may stand between two digits. -/
def digitRun? (isDigit : Char → Bool) : List Char → Option (List Char)
  | [] => none
  | [c] => if isDigit c then some [c] else none
  | c :: '_' :: rest => if isDigit c then (digitRun? isDigit rest).map (c :: ·) else none
  | c :: rest => if isDigit c then (digitRun? isDigit rest).map (c :: ·) else none

/-- The digits of a decimal integer without a sign; no zero stands in front of other digits. -/
def wholeDigits? (word : List Char) : Option (List Char) :=
  (digitRun? Decimal.isDigit word).filter fun digits =>
    word.length == 1 || digits.head? != some '0'

/-- An integer of 64 bits. -/
def integer? (i : Int) : Option Value :=
  if Int64.minValue.toInt ≤ i && i ≤ Int64.maxValue.toInt then some (.integer i) else none

/-- The value of a digit, if it is a digit of the base. -/
def basedDigit? (base : Nat) (c : Char) : Option Nat :=
  (Json.hexValue? c).filter (· < base)

/-- An integer in a base of its own. -/
def basedInteger? (base : Nat) (word : List Char) : Option Value :=
  (digitRun? (fun c => (basedDigit? base c).isSome) word).bind fun digits =>
    let n := (digits.filterMap (basedDigit? base)).foldl (fun n d => n * base + d) 0
    integer? n

/-- An integer, decimal with an optional sign or in one of three other bases without. -/
def integerWord? (word : List Char) : Option Value :=
  match word with
  | '0' :: 'x' :: digits => basedInteger? 16 digits
  | '0' :: 'o' :: digits => basedInteger? 8 digits
  | '0' :: 'b' :: digits => basedInteger? 2 digits
  | _ =>
    let (negative, body) := Decimal.splitSign word
    (wholeDigits? body).bind fun digits =>
      let n : Int := Decimal.ofDigits (Decimal.digitValues digits)
      integer? (if negative then -n else n)

/-- A floating-point number: one with a part behind the point, an exponent or both, or the name of a
    special number. Digits too large for the format are refused if they are positive and give
    infinity if they are negative. -/
def floatWord? (word : List Char) : Option Value :=
  let (negative, body) := Decimal.splitSign word
  if body = ['i', 'n', 'f'] then some (.float (.ofParts negative Binary64.infinityMagnitude))
  else if body = ['n', 'a', 'n'] then
    some (.float (.ofParts negative (Binary64.infinityMagnitude + 1 <<< 51)))
  else
    let mantissa := body.takeWhile (!Decimal.isExponentMark ·)
    let exponent := body.drop mantissa.length
    let whole := mantissa.takeWhile (· != '.')
    let part := mantissa.drop whole.length
    if part.isEmpty && exponent.isEmpty then none
    else do
      let wholeDigits ← wholeDigits? whole
      let partDigits ← match part with
        | [] => some []
        | _ :: digits => digitRun? Decimal.isDigit digits
      let power ← match exponent with
        | [] => some (0 : Int)
        | _ :: signed =>
          let (down, digits) := Decimal.splitSign signed
          (digitRun? Decimal.isDigit digits).map fun digits =>
            let n : Int := Decimal.ofDigits (Decimal.digitValues digits)
            if down then -n else n
      let x := Binary64.nearestDecimal negative
        (Decimal.ofDigits (Decimal.digitValues (wholeDigits ++ partDigits)))
        (power - partDigits.length)
      if x.isFinite || negative then some (.float x) else none

/-- The number with exactly these decimal digits. -/
def fixedDigits? (digits : List Char) : Option Nat :=
  if digits.all Decimal.isDigit then some (Decimal.ofDigits (Decimal.digitValues digits)) else none

/-- The number of days of a month. -/
def daysIn (year month : Nat) : Nat :=
  if month = 2 then
    if (year % 4 = 0 && year % 100 != 0) || year % 400 = 0 then 29 else 28
  else if month = 4 || month = 6 || month = 9 || month = 11 then 30
  else 31

/-- Whether ten characters are a date. -/
def isDate (s : List Char) : Bool :=
  match s with
  | [y₁, y₂, y₃, y₄, '-', m₁, m₂, '-', d₁, d₂] =>
    match fixedDigits? [y₁, y₂, y₃, y₄], fixedDigits? [m₁, m₂], fixedDigits? [d₁, d₂] with
    | some year, some month, some day =>
      1 ≤ month && month ≤ 12 && 1 ≤ day && day ≤ daysIn year month
    | _, _, _ => false
  | _ => false

/-- Whether two characters are a number up to a bound. -/
def isUpTo (bound : Nat) (a b : Char) : Bool :=
  ((fixedDigits? [a, b]).map fun n => decide (n ≤ bound)).getD false

/-- Whether a text is an offset from universal time. -/
def isOffset : List Char → Bool
  | [] => true
  | ['Z'] => true
  | ['z'] => true
  | [sign, h₁, h₂, ':', m₁, m₂] =>
    (sign == '+' || sign == '-') && isUpTo 23 h₁ h₂ && isUpTo 59 m₁ m₂
  | _ => false

/-- Whether a text is a time of day; `tail` tests what follows it. -/
def isTime (tail : List Char → Bool) : List Char → Bool
  | h₁ :: h₂ :: ':' :: m₁ :: m₂ :: ':' :: s₁ :: s₂ :: rest =>
    isUpTo 23 h₁ h₂ && isUpTo 59 m₁ m₂ && isUpTo 60 s₁ s₂ &&
      match rest with
      | '.' :: part =>
        !(part.takeWhile Decimal.isDigit).isEmpty && tail (part.dropWhile Decimal.isDigit)
      | _ => tail rest
  | _ => false

/-- Whether a word is a date, a time of day, or a date and a time. -/
def isDatetime (word : List Char) : Bool :=
  isTime List.isEmpty word || isDate word ||
    (isDate (word.take 10) &&
      match word.drop 10 with
      | c :: time => (c == 'T' || c == 't' || c == ' ') && isTime isOffset time
      | [] => false)

/-- The value of a word. -/
def wordValue? (word : List Char) : Option Value :=
  if word = ['t', 'r', 'u', 'e'] then some (.boolean true)
  else if word = ['f', 'a', 'l', 's', 'e'] then some (.boolean false)
  else if isDatetime word then some (.datetime (String.ofList word))
  else (integerWord? word).orElse fun _ => floatWord? word

/-- Reads a word. A date may be followed by a blank and a time. -/
def readWord (s : List Char) : Option (Value × List Char) :=
  let word := s.takeWhile isWordChar
  let rest := s.drop word.length
  let longer := match rest with
    | ' ' :: more => ' ' :: more.takeWhile isWordChar
    | _ => []
  if isDate word && longer.length > 1 then
    (wordValue? (word ++ longer)).map fun v => (v, rest.drop longer.length)
  else (wordValue? word).map fun v => (v, rest)

/-- Whether a character may stand in a string or a comment as it is. -/
def isPlain (c : Char) : Bool :=
  c == '\t' || (0x20 ≤ c.toNat && c.toNat != 0x7F)

/-- Reads a number of hexadecimal digits. -/
def readHex (count : Nat) (s : List Char) : Option (Char × List Char) :=
  let digits := s.take count
  if digits.length = count && digits.all (fun c => (Json.hexValue? c).isSome) then
    let n := digits.foldl (fun n c => n * 16 + (Json.hexValue? c).getD 0) 0
    if n < 0xD800 || (0xDFFF < n && n < 0x110000) then some (Char.ofNat n, s.drop count) else none
  else none

/-- Reads what follows a backslash. -/
def readEscape : List Char → Option (Char × List Char)
  | '"' :: rest => some ('"', rest)
  | '\\' :: rest => some ('\\', rest)
  | 'b' :: rest => some ('\x08', rest)
  | 'f' :: rest => some ('\x0c', rest)
  | 'n' :: rest => some ('\n', rest)
  | 'r' :: rest => some ('\r', rest)
  | 't' :: rest => some ('\t', rest)
  | 'u' :: rest => readHex 4 rest
  | 'U' :: rest => readHex 8 rest
  | _ => none

/-- Reads the rest of a one-line string in double quotes. -/
def readBasic : Nat → List Char → Option (List Char × List Char)
  | 0, _ => none
  | _, [] => none
  | _ + 1, '"' :: rest => some ([], rest)
  | fuel + 1, '\\' :: rest => do
    let (c, rest) ← readEscape rest
    let (cs, rest) ← readBasic fuel rest
    some (c :: cs, rest)
  | fuel + 1, c :: rest =>
    if isPlain c then (readBasic fuel rest).map fun (cs, rest) => (c :: cs, rest) else none

/-- Reads the rest of a one-line string in single quotes. -/
def readLiteral : List Char → Option (List Char × List Char)
  | [] => none
  | '\x27' :: rest => some ([], rest)
  | c :: rest =>
    if isPlain c then (readLiteral rest).map fun (cs, rest) => (c :: cs, rest) else none

/-- Removes blanks and line ends from the front. -/
def skipLines : List Char → List Char
  | ' ' :: rest => skipLines rest
  | '\t' :: rest => skipLines rest
  | '\n' :: rest => skipLines rest
  | '\r' :: '\n' :: rest => skipLines rest
  | s => s

/-- Whether a text starts a new line behind blanks. -/
def endsLine (s : List Char) : Bool :=
  match s.dropWhile fun c => c == ' ' || c == '\t' with
  | '\n' :: _ => true
  | '\r' :: '\n' :: _ => true
  | _ => false

/-- The end of a string on several lines at three or more of its quotes: up to two of them belong to
    the string. -/
def closeQuotes (quote : Char) (s : List Char) : Option (List Char × List Char) :=
  let quotes := s.takeWhile (· == quote)
  if quotes.length ≤ 5 then some (quotes.drop 3, s.drop quotes.length) else none

/-- Reads the rest of a string in double quotes on several lines. A backslash at the end of a line
    removes the line end and all blanks behind it. -/
def readLongBasic : Nat → List Char → Option (List Char × List Char)
  | 0, _ => none
  | _, [] => none
  | _ + 1, '"' :: '"' :: '"' :: rest => closeQuotes '"' ('"' :: '"' :: '"' :: rest)
  | fuel + 1, '\\' :: rest =>
    if endsLine rest then readLongBasic fuel (skipLines rest)
    else do
      let (c, rest) ← readEscape rest
      let (cs, rest) ← readLongBasic fuel rest
      some (c :: cs, rest)
  | fuel + 1, '\r' :: '\n' :: rest =>
    (readLongBasic fuel rest).map fun (cs, rest) => ('\n' :: cs, rest)
  | fuel + 1, c :: rest =>
    if isPlain c || c == '\n' then
      (readLongBasic fuel rest).map fun (cs, rest) => (c :: cs, rest)
    else none

/-- Reads the rest of a string in single quotes on several lines. -/
def readLongLiteral : Nat → List Char → Option (List Char × List Char)
  | 0, _ => none
  | _, [] => none
  | _ + 1, '\x27' :: '\x27' :: '\x27' :: rest =>
    closeQuotes '\x27' ('\x27' :: '\x27' :: '\x27' :: rest)
  | fuel + 1, '\r' :: '\n' :: rest =>
    (readLongLiteral fuel rest).map fun (cs, rest) => ('\n' :: cs, rest)
  | fuel + 1, c :: rest =>
    if isPlain c || c == '\n' then
      (readLongLiteral fuel rest).map fun (cs, rest) => (c :: cs, rest)
    else none

/-- Removes the line end that may follow the opening quotes of a string on several lines. -/
def skipFirstLineEnd : List Char → List Char
  | '\n' :: rest => rest
  | '\r' :: '\n' :: rest => rest
  | s => s

/-- Reads a string, if the text starts with a quote. -/
def readString (s : List Char) : Option (List Char × List Char) :=
  match s with
  | '"' :: '"' :: '"' :: rest => readLongBasic (s.length + 1) (skipFirstLineEnd rest)
  | '"' :: rest => readBasic (s.length + 1) rest
  | '\x27' :: '\x27' :: '\x27' :: rest => readLongLiteral (s.length + 1) (skipFirstLineEnd rest)
  | '\x27' :: rest => readLiteral rest
  | _ => none

end Conform.Toml
