import Badger.Text.Basic

/-!
# Timestamps

The spellings of a date, perhaps with a time of day: `2001-12-14`, `2001-12-14 21:59:43.10` and
`2001-12-14T21:59:43.10-05:00`. A day has to exist in its month.

## Main definitions

* `Yaml.Timestamp.daysIn`: the number of days of a month
* `Yaml.Timestamp.isWritten`: whether a text spells a timestamp
-/

namespace Badger.Yaml.Timestamp

/-- Whether a year has a leap day. -/
def isLeap (year : Nat) : Bool := year % 4 == 0 && (year % 100 != 0 || year % 400 == 0)

/-- The number of days of a month. -/
def daysIn (year month : Nat) : Nat :=
  if month = 2 then if isLeap year then 29 else 28
  else if month = 4 || month = 6 || month = 9 || month = 11 then 30
  else 31

/-- Whether a byte is a decimal digit. -/
def isDigit (b : UInt8) : Bool := 48 ≤ b && b ≤ 57

/-- The value of decimal digits. -/
def value (ds : Text) : Nat := ds.foldl (fun n b => 10 * n + (b.toNat - 48)) 0

/-- A number of one or two digits at the front of a text, and what follows it. -/
def number? : Text → Option (Nat × Text)
  | a :: b :: rest =>
    if !isDigit a then none
    else if isDigit b then some (value [a, b], rest)
    else some (value [a], b :: rest)
  | [a] => if isDigit a then some (value [a], []) else none
  | [] => none

/-- What follows a byte at the front of a text. -/
def after? (b : UInt8) : Text → Option Text
  | c :: rest => if c = b then some rest else none
  | [] => none

/-- What follows a date at the front of a text: a year of four digits, a month and a day. -/
def date? (t : Text) : Option Text := do
  let year := t.take 4
  if year.length = 4 && year.all isDigit then
    let (month, t) ← number? (← after? 45 (t.drop 4))
    let (day, t) ← number? (← after? 45 t)
    if 1 ≤ month && month ≤ 12 && 1 ≤ day && day ≤ daysIn (value year) month then some t else none
  else none

/-- What follows a fraction of a second, if one is there. -/
def skipFraction : Text → Text
  | p :: d :: rest =>
    if (p = 46 || p = 44) && isDigit d then rest.dropWhile isDigit else p :: d :: rest
  | t => t

/-- What follows a time of day at the front of a text. -/
def time? (t : Text) : Option Text := do
  let (hour, t) ← number? t
  let (minute, t) ← number? (← after? 58 t)
  let (second, t) ← number? (← after? 58 t)
  if hour < 24 && minute < 60 && second < 60 then some (skipFraction t) else none

/-- Whether a text is a zone: the letter `Z`, or hours and minutes with a sign. -/
def isZone : Text → Bool
  | [90] => true
  | [sign, a, b, 58, c, d] =>
    (sign == 43 || sign == 45) && [a, b, c, d].all isDigit && value [a, b] ≤ 24 && value [c, d] ≤ 60
  | _ => false

/-- **Whether a text spells a timestamp.** -/
def isWritten (t : Text) : Bool :=
  match date? t with
  | none => false
  | some [] => true
  | some (b :: rest) =>
    if b = 84 || b = 116 then ((time? rest).map isZone).getD false
    else if b = 32 then ((time? (rest.dropWhile (· == 32))).map List.isEmpty).getD false
    else false

end Badger.Yaml.Timestamp
