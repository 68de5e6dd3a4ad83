import Conform.Binary64.Nearest
import Conform.Decimal.Reader
import Conform.Value

/-!
# Reading JSON documents

`Json.read` decodes a document of the JSON grammar (RFC 8259) into scalars, lists and maps with
text keys. Integers of 64 bits stay integers and all other numbers become floating-point numbers,
which are computed by one multiplication or division and may miss the nearest one by a bit.
Of members with one name the first keeps its place and the last its value. A document that breaks
off before it could be complete is told apart from one that is wrong.

A reader takes the text that is left and gives back a value and what is left behind it. Nesting is
bounded, and the readers recurse on the number of levels that are left; the loops over items,
members and digits recurse on the text.
-/

namespace Conform.Json

/-- Why a document is refused. -/
inductive Failure
  /-- The document ended too early. -/
  | truncated
  | malformed
deriving DecidableEq

/-- The most arrays and objects that may stand inside each other. -/
def maxNesting : Nat := 127

/-- The white space between tokens. -/
def isSpace (c : Char) : Bool :=
  c == ' ' || c == '\n' || c == '\t' || c == '\r'

/-- Skips the white space in front of a token. -/
def skipSpace (s : List Char) : List Char :=
  s.dropWhile isSpace

/-- Reads the rest of a word. -/
def readWord : List Char → List Char → Except Failure (List Char)
  | [], rest => .ok rest
  | _ :: _, [] => .error .truncated
  | c :: word, d :: rest => if c = d then readWord word rest else .error .malformed

/-- The value of a hexadecimal digit. -/
def hexValue? (c : Char) : Option Nat :=
  if '0' ≤ c && c ≤ '9' then some (c.toNat - '0'.toNat)
  else if 'a' ≤ c && c ≤ 'f' then some (c.toNat - 'a'.toNat + 10)
  else if 'A' ≤ c && c ≤ 'F' then some (c.toNat - 'A'.toNat + 10)
  else none

/-- The number of bytes that a text takes up. -/
def byteCount (s : List Char) : Nat :=
  s.foldl (fun n c => n + c.utf8Size) 0

/-- Reads four hexadecimal digits. The document is too short if fewer than four bytes are left. -/
def readHex (s : List Char) : Except Failure (Nat × List Char) :=
  if byteCount s < 4 then .error .truncated
  else
    match s with
    | a :: b :: c :: d :: rest =>
      match hexValue? a, hexValue? b, hexValue? c, hexValue? d with
      | some a, some b, some c, some d => .ok (((a * 16 + b) * 16 + c) * 16 + d, rest)
      | _, _, _, _ => .error .malformed
    | _ => .error .malformed

/-- The first of the two code units of a character beyond U+FFFF. -/
def isLeadingSurrogate (n : Nat) : Bool :=
  0xD800 ≤ n && n ≤ 0xDBFF

/-- The second of the two code units of a character beyond U+FFFF. -/
def isTrailingSurrogate (n : Nat) : Bool :=
  0xDC00 ≤ n && n ≤ 0xDFFF

/-- Reads what follows `\u`: a code unit, and a second one behind a leading surrogate. -/
def readUnicode (s : List Char) : Except Failure (Char × List Char) := do
  let (unit, rest) ← readHex s
  if isTrailingSurrogate unit then .error .malformed
  else if isLeadingSurrogate unit then
    let rest ← readWord ['\\', 'u'] rest
    let (second, rest) ← readHex rest
    if isTrailingSurrogate second then
      .ok (Char.ofNat (0x10000 + (unit - 0xD800) * 0x400 + (second - 0xDC00)), rest)
    else .error .malformed
  else .ok (Char.ofNat unit, rest)

/-- Reads what follows a backslash. -/
def readEscape : List Char → Except Failure (Char × List Char)
  | [] => .error .truncated
  | '"' :: rest => .ok ('"', rest)
  | '\\' :: rest => .ok ('\\', rest)
  | '/' :: rest => .ok ('/', rest)
  | 'b' :: rest => .ok ('\x08', rest)
  | 'f' :: rest => .ok ('\x0c', rest)
  | 'n' :: rest => .ok ('\n', rest)
  | 'r' :: rest => .ok ('\r', rest)
  | 't' :: rest => .ok ('\t', rest)
  | 'u' :: rest => readUnicode rest
  | _ :: _ => .error .malformed

/-- Reads a string behind its opening quote. The first argument bounds the number of characters. -/
def readString : Nat → List Char → Except Failure (List Char × List Char)
  | _, [] => .error .truncated
  | 0, _ :: _ => .error .malformed
  | _ + 1, '"' :: rest => .ok ([], rest)
  | fuel + 1, '\\' :: rest => do
    let (c, rest) ← readEscape rest
    let (cs, rest) ← readString fuel rest
    .ok (c :: cs, rest)
  | fuel + 1, c :: rest =>
    if c.toNat < 0x20 then .error .malformed
    else do
      let (cs, rest) ← readString fuel rest
      .ok (c :: cs, rest)

/-- Digits in front of a text and what follows them. -/
def spanDigits (s : List Char) : List Char × List Char :=
  (s.takeWhile Decimal.isDigit, s.dropWhile Decimal.isDigit)

/-- Digits that have to be there. -/
def readDigits (s : List Char) : Except Failure (List Char × List Char) :=
  match s with
  | [] => .error .truncated
  | c :: _ => if Decimal.isDigit c then .ok (spanDigits s) else .error .malformed

/-- The integer part of a number: no zero stands in front of another digit. -/
def readWhole (s : List Char) : Except Failure (List Char × List Char) := do
  let (digits, rest) ← readDigits s
  if digits.length > 1 && digits.head? == some '0' then .error .malformed
  else .ok (digits, rest)

/-- The digits behind the point of a number, if there is one. -/
def readPart : List Char → Except Failure (Option (List Char) × List Char)
  | '.' :: rest => do
    let (digits, rest) ← readDigits rest
    .ok (some digits, rest)
  | s => .ok (none, s)

/-- The exponent of a number, if there is one. -/
def readExponent : List Char → Except Failure (Option Int × List Char)
  | c :: rest =>
    if c = 'e' || c = 'E' then do
      let (negative, rest) := match rest with
        | '-' :: rest => (true, rest)
        | '+' :: rest => (false, rest)
        | rest => (false, rest)
      let (digits, rest) ← readDigits rest
      let magnitude : Int := Decimal.ofDigits (Decimal.digitValues digits)
      .ok (some (if negative then -magnitude else magnitude), rest)
    else .ok (none, c :: rest)
  | [] => .ok (none, [])

/-- Puts digits behind a number as long as it stays below 2⁶⁴. Gives back how many digits are left
    over from there on. -/
def appendDigits : Nat → List Nat → Nat × Nat
  | n, [] => (n, 0)
  | n, digit :: rest =>
    if n * 10 + digit < 1 <<< 64 then appendDigits (n * 10 + digit) rest else (n, rest.length + 1)

/-- The value of a number. Integers of 64 bits other than a negative zero stay integers. Of any
    other number so many digits are taken as 64 bits hold; these are rounded, and once more when
    they are scaled by the power of ten. A number beyond the floating-point range is refused. -/
def numberValue (negative : Bool) (whole : List Char) (part : Option (List Char))
    (exponent : Option Int) : Except Failure Value :=
  let n := Decimal.ofDigits (Decimal.digitValues whole)
  let isInteger := part.isNone && exponent.isNone
  if isInteger && !negative && n < 1 <<< 63 then .ok (.int (Int64.ofNat n))
  else if isInteger && negative && 0 < n && n ≤ 1 <<< 63 then .ok (.int (Int64.ofInt (-(n : Int))))
  else
    let places := part.getD []
    let (kept, dropped) := appendDigits 0 (Decimal.digitValues whole)
    let (significand, ignored) := appendDigits kept (Decimal.digitValues places)
    -- a dropped digit in front of the point still counts for the size, one behind it does not
    let power : Int := exponent.getD 0 + dropped - (places.length - ignored)
    match (Binary64.ofNat significand).scale power with
    | some x => .ok (.float (.ofParts negative x.bits.toNat))
    | none => .error .malformed

/-- Reads a number behind its minus sign. -/
def readNumber (negative : Bool) (s : List Char) : Except Failure (Value × List Char) := do
  let (whole, rest) ← readWhole s
  let (part, rest) ← readPart rest
  let (exponent, rest) ← readExponent rest
  let v ← numberValue negative whole part exponent
  .ok (v, rest)

/-- A reader of values. -/
abbrev Reader := List Char → Except Failure (Value × List Char)

/-- Reads the items of an array from its second one on: each stands behind a comma. -/
def readMoreItems (read : Reader) : Nat → List Char → Except Failure (List Value × List Char)
  | 0, _ => .error .truncated
  | fuel + 1, s =>
    match skipSpace s with
    | [] => .error .truncated
    | ']' :: rest => .ok ([], rest)
    | ',' :: rest =>
      match skipSpace rest with
      -- no comma may stand behind the last item
      | ']' :: _ => .error .malformed
      | rest => do
        let (v, rest) ← read rest
        let (vs, rest) ← readMoreItems read fuel rest
        .ok (v :: vs, rest)
    | _ :: _ => .error .malformed

/-- Reads the items of an array behind its opening bracket. -/
def readItems (read : Reader) (s : List Char) : Except Failure (List Value × List Char) :=
  match skipSpace s with
  | [] => .error .truncated
  | ']' :: rest => .ok ([], rest)
  | s => do
    let (v, rest) ← read s
    let (vs, rest) ← readMoreItems read (rest.length + 1) rest
    .ok (v :: vs, rest)

/-- Reads a member of an object, which has to start with its name. -/
def readMember (read : Reader) (s : List Char) : Except Failure ((String × Value) × List Char) :=
  match s with
  | [] => .error .truncated
  | '"' :: rest => do
    let (name, rest) ← readString (rest.length + 1) rest
    match skipSpace rest with
    | [] => .error .truncated
    | ':' :: rest => do
      let (v, rest) ← read rest
      .ok ((String.ofList name, v), rest)
    | _ :: _ => .error .malformed
  | _ :: _ => .error .malformed

/-- Reads the members of an object from its second one on. -/
def readMoreMembers (read : Reader) :
    Nat → List Char → Except Failure (List (String × Value) × List Char)
  | 0, _ => .error .truncated
  | fuel + 1, s =>
    match skipSpace s with
    | [] => .error .truncated
    | '\x7d' :: rest => .ok ([], rest)
    | ',' :: rest => do
      let (m, rest) ← readMember read (skipSpace rest)
      let (ms, rest) ← readMoreMembers read fuel rest
      .ok (m :: ms, rest)
    | _ :: _ => .error .malformed

/-- Reads the members of an object behind its opening brace. -/
def readMembers (read : Reader) (s : List Char) :
    Except Failure (List (String × Value) × List Char) :=
  match skipSpace s with
  | [] => .error .truncated
  | '\x7d' :: rest => .ok ([], rest)
  | s => do
    let (m, rest) ← readMember read s
    let (ms, rest) ← readMoreMembers read (rest.length + 1) rest
    .ok (m :: ms, rest)

/-- Reads a value with at most `room` levels of arrays and objects. -/
def readValue : Nat → Reader
  | room, s =>
    match skipSpace s with
    | [] => .error .truncated
    | 'n' :: rest => (readWord ['u', 'l', 'l'] rest).map fun rest => (.none, rest)
    | 't' :: rest => (readWord ['r', 'u', 'e'] rest).map fun rest => (.bool true, rest)
    | 'f' :: rest => (readWord ['a', 'l', 's', 'e'] rest).map fun rest => (.bool false, rest)
    | '"' :: rest => do
      let (cs, rest) ← readString (rest.length + 1) rest
      .ok (.text (String.ofList cs), rest)
    | '[' :: rest =>
      match room with
      | 0 => .error .malformed
      | room + 1 => do
        let (items, rest) ← readItems (readValue room) rest
        .ok (.list items, rest)
    | '\x7b' :: rest =>
      match room with
      | 0 => .error .malformed
      | room + 1 => do
        let (members, rest) ← readMembers (readValue room) rest
        .ok (.ofFields members, rest)
    | '-' :: rest => readNumber true rest
    | c :: rest => if Decimal.isDigit c then readNumber false (c :: rest) else .error .malformed

/-- Decodes a document. -/
def read (document : String) : Except Failure Value := do
  let (v, rest) ← readValue maxNesting document.toList
  if (skipSpace rest).isEmpty then .ok v else .error .malformed

end Conform.Json
