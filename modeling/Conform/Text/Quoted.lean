import Conform.Text.Invisible
import Conform.Text.Extending

/-!
# Quoted texts and bytes

A quoted text stands between double quotes. Quotes, backslashes, the four named controls and every
character that cannot be seen on its own are written as escapes, all else as it is.
-/

namespace Conform.Text

/-- A code point as `\u`, a brace, lower-case hexadecimal digits and a brace. -/
def escapeCode (code : Nat) : List Char :=
  ['\\', 'u', '\x7b'] ++ Nat.toDigits 16 code ++ ['\x7d']

/-- The written form of one character inside double quotes. -/
def escapeChar (c : Char) : List Char :=
  if c = '"' then ['\\', '"']
  else if c = '\\' then ['\\', '\\']
  else if c = '\n' then ['\\', 'n']
  else if c = '\r' then ['\\', 'r']
  else if c = '\t' then ['\\', 't']
  else if c.toNat = 0 then ['\\', '0']
  else if c.toNat < 0x20 || c.toNat == 0x7F then escapeCode c.toNat
  else if c.toNat < 0x7F then [c]
  else if isInvisible c.toNat || isExtending c.toNat then escapeCode c.toNat
  else [c]

/-- A text in double quotes. -/
def quote (s : String) : String :=
  String.ofList ('"' :: (s.toList.flatMap escapeChar ++ ['"']))

/-- The two hexadecimal digits of a byte. -/
def hexByte (b : UInt8) : List Char :=
  [Nat.digitChar (b.toNat / 16), Nat.digitChar (b.toNat % 16)]

/-- The written form of one byte inside double quotes: printable ASCII as it is, both quotes and the
    backslash behind a backslash, three controls by name, and the rest as `\x` and two digits. -/
def escapeByte (b : UInt8) : List Char :=
  if b = 9 then ['\\', 't']
  else if b = 10 then ['\\', 'n']
  else if b = 13 then ['\\', 'r']
  else if b = 34 then ['\\', '"']
  else if b = 39 then ['\\', '\x27']
  else if b = 92 then ['\\', '\\']
  else if 0x20 ≤ b && b < 0x7F then [Char.ofNat b.toNat]
  else '\\' :: 'x' :: hexByte b

/-- Bytes in double quotes behind the letter `b`. -/
def quoteBytes (bytes : List UInt8) : String :=
  String.ofList ('b' :: '"' :: (bytes.flatMap escapeByte ++ ['"']))

end Conform.Text
