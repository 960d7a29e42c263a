import Badger.Number.Decimal

/-!
# Numerals

The spellings of a number: a decimal numeral with an optional point and exponent, a
hexadecimal numeral with a binary exponent, and the words for infinity and for no number.
Underscores may stand between digits.

## Main definitions

* `Number.readDecimal?`: a decimal numeral
* `Number.readHexadecimal?`: a hexadecimal numeral
* `Number.areSeparated`: whether underscores stand between digits only
* `Number.read?`: any numeral

## Design notes

An exponent that has reached 10000 takes no more digits, since every number with such an
exponent is zero or infinite unless it has thousands of digits.
-/

namespace Badger.Number

/-- Lower-case form of an ASCII text. -/
def lowerCase (t : Text) : Text :=
  t.map fun b => if 65 ≤ b && b ≤ 90 then b + 32 else b

/-- The sign at the front of a text, and what follows it: whether it is a minus. -/
def takeSign : Text → Bool × Text
  | 45 :: rest => (true, rest)
  | 43 :: rest => (false, rest)
  | rest => (false, rest)

/-- The value of the digits of an exponent. -/
def exponentValue (ds : Text) : Nat :=
  ds.foldl (fun e b => if e < 10000 then 10 * e + (b.toNat - 48) else e) 0

/-- An exponent: an optional sign and at least one digit. -/
def readExponent? (t : Text) : Option Int :=
  let (negative, ds) := takeSign t
  if ds.isEmpty || !ds.all isDigit then none
  else some (if negative then -(exponentValue ds : Int) else exponentValue ds)

/-- The digits before the point, those after it, and what follows them. -/
def splitPoint (isDigit : UInt8 → Bool) (t : Text) : Text × Text × Text :=
  let whole := t.takeWhile isDigit
  match t.dropWhile isDigit with
  | 46 :: rest => (whole, rest.takeWhile isDigit, rest.dropWhile isDigit)
  | rest => (whole, [], rest)

/-- **A decimal numeral**: a sign, digits with a point, and an exponent, all but the digits
optional. -/
def readDecimal? (t : Text) : Option Float :=
  let (negative, body) := takeSign t
  let (whole, fraction, tail) := splitPoint isDigit body
  let digits := digitsValue (whole ++ fraction)
  let scale := -(fraction.length : Int)
  if whole.isEmpty && fraction.isEmpty then none
  else match tail with
    | [] => some (ofDecimal negative digits scale)
    | b :: e =>
      if b = 101 || b = 69 then
        (readExponent? e).map fun e => ofDecimal negative digits (scale + e)
      else none

/-- The value of a hexadecimal digit. -/
def hexDigit? (b : UInt8) : Option Nat :=
  if isDigit b then some (b.toNat - 48)
  else if 97 ≤ b && b ≤ 102 then some (b.toNat - 87)
  else if 65 ≤ b && b ≤ 70 then some (b.toNat - 55)
  else none

/-- Whether a byte is a hexadecimal digit. -/
def isHexDigit (b : UInt8) : Bool := (hexDigit? b).isSome

/-- The value of a run of hexadecimal digits. -/
def hexDigitsValue (ds : Text) : Nat := ds.foldl (fun n b => 16 * n + (hexDigit? b).getD 0) 0

/-- **A hexadecimal numeral**: a sign, `0x`, digits with a point, and a power of two after the
letter `p`. Sign and point are optional. -/
def readHexadecimal? (t : Text) : Option Float :=
  let (negative, body) := takeSign t
  match body with
  | 48 :: x :: body =>
    let (whole, fraction, tail) := splitPoint isHexDigit body
    if (x ≠ 120 && x ≠ 88) || (whole.isEmpty && fraction.isEmpty) then none
    else match tail with
      | p :: e =>
        if p = 112 || p = 80 then
          (readExponent? e).map fun e =>
            let shift := 4 * (fraction.length : Int) - e
            let (num, den) := scaleDown (hexDigitsValue (whole ++ fraction)) 1 shift
            nearest negative num den
        else none
      | [] => none
  | _ => none

/-- The underscore. -/
def separator : UInt8 := 95

/-- Whether every underscore comes after a digit and before one. `afterDigit` tells whether a
digit came just before, `pending` whether an underscore did. -/
def separatedFrom (isDigit : UInt8 → Bool) (afterDigit pending : Bool) : Text → Bool
  | [] => !pending
  | b :: rest =>
    if isDigit b then separatedFrom isDigit true false rest
    else if b = separator then afterDigit && separatedFrom isDigit false true rest
    else !pending && separatedFrom isDigit false false rest

/-- **Whether underscores stand between digits only.** The mark of a base counts as a digit. -/
def areSeparated (t : Text) : Bool :=
  match (takeSign t).2 with
  | 48 :: x :: rest =>
    let mark := lowerCase [x]
    if mark = utf8 "x" then separatedFrom isHexDigit true false rest
    else if mark = utf8 "b" || mark = utf8 "o" then separatedFrom isDigit true false rest
    else separatedFrom isDigit false false (48 :: x :: rest)
  | body => separatedFrom isDigit false false body

/-- **Reading a numeral.** Too large a number is infinite; the word for no number takes no
sign. -/
def read? (t : Text) : Option Float :=
  let (negative, body) := takeSign t
  let word := lowerCase body
  if word = utf8 "inf" || word = utf8 "infinity" then some (infinity negative)
  else if lowerCase t = utf8 "nan" then some nan
  else if areSeparated t then
    let digits := t.filter (· != separator)
    (readHexadecimal? digits).or (readDecimal? digits)
  else none

end Badger.Number
