import Badger.Text.CharClass

/-!
# Quoted text

Names and strings appear in messages and listings between quotation marks. What cannot
be printed is written as an escape sequence, so a quoted text is always well-formed UTF-8
on one line, whatever bytes it was made from.

## Main definitions

* `Quoted.text`: a text between double quotes
* `Quoted.char`: one character between single quotes
-/

namespace Badger.Quoted

/-- A hexadecimal digit, in lower case. -/
def hexDigit (n : Nat) : UInt8 :=
  if n < 10 then (48 + n).toUInt8 else (87 + n).toUInt8

/-- The last `width` hexadecimal digits of a number. -/
def hex : Nat → Nat → Text
  | 0, _ => []
  | width + 1, n => hex width (n / 16) ++ [hexDigit (n % 16)]

@[simp] theorem hex_zero (n : Nat) : hex 0 n = [] := rfl

@[simp] theorem hex_succ (width n : Nat) :
    hex (width + 1) n = hex width (n / 16) ++ [hexDigit (n % 16)] := rfl

/-- A backslash followed by the given text. -/
def escape (t : Text) : Text := Text.byte '\\' :: t

/-- The escape sequence of a character that cannot be printed. -/
def escapeChar (c : Char) : Text :=
  let n := c.toNat
  if n = 0x07 then escape (utf8 "a")
  else if n = 0x08 then escape (utf8 "b")
  else if n = 0x0C then escape (utf8 "f")
  else if n = 0x0A then escape (utf8 "n")
  else if n = 0x0D then escape (utf8 "r")
  else if n = 0x09 then escape (utf8 "t")
  else if n = 0x0B then escape (utf8 "v")
  else if n < 0x20 || n = 0x7F then escape (Text.byte 'x' :: hex 2 n)
  else if n < 0x10000 then escape (Text.byte 'u' :: hex 4 n)
  else escape (Text.byte 'U' :: hex 8 n)

/-- A character inside quotes: the quotation mark in use and the backslash are preceded
by a backslash, printable characters stand for themselves, others are escaped. -/
def inner (mark c : Char) : Text :=
  if c = mark || c = '\\' then escape (Rune.encode c)
  else if CharClass.isPrintable c then Rune.encode c
  else escapeChar c

/-- A character of a text inside quotes; a byte outside every well-formed sequence is
shown by its value. -/
def piece (mark : Char) (r : Rune) : Text :=
  if r.isInvalid then escape (Text.byte 'x' :: hex 2 (r.raw.headD 0).toNat)
  else inner mark r.char

/-- **Quoted text.** A text between double quotes. -/
def text (t : Text) : Text :=
  Text.byte '"' :: ((Rune.all t).map (piece '"')).flatten ++ [Text.byte '"']

/-- One character between single quotes. -/
def char (c : Char) : Text :=
  Text.byte '\'' :: inner '\'' c ++ [Text.byte '\'']

end Badger.Quoted
