import Badger.Number.Binary

/-!
# Numbers as decimal text

The number nearest to decimal digits, and writing a number with the fewest digits that read
back as it.

## Main definitions

* `Number.ofDecimal`: the number nearest to an integer times a power of ten
* `Number.fixedPoint`: the value of digits with an optional point
* `Number.shortest`: the fewest decimal digits inside the rounding interval of a number
* `Number.toText`: a number in positional notation, never with an exponent

## Design notes

The numbers that round to `x` form an interval of reals around `x`, with its end points
if the mantissa is even. `shortest` walks down the powers of ten and takes the first of
which a multiple lies in the interval; of the two multiples next to `x` the nearer one
wins. All comparisons are between natural numbers.
-/

namespace Badger.Number

/-! ### Reading -/

/-- The numerator and denominator of `digits * 10 ^ e`. -/
def decimalRatio (digits : Nat) (e : Int) : Nat × Nat :=
  if 0 ≤ e then (digits * power 10 e.toNat, 1) else (digits, power 10 (-e).toNat)

/-- The number nearest to `digits * 10 ^ e`, infinity if that is too large. -/
def ofDecimal (negative : Bool) (digits : Nat) (e : Int) : Float :=
  let (num, den) := decimalRatio digits e
  nearest negative num den

/-- Whether a byte is an ASCII decimal digit. -/
def isDigit (b : UInt8) : Bool := 48 ≤ b && b ≤ 57

/-- The value of a run of decimal digits. -/
def digitsValue (ds : Text) : Nat :=
  ds.foldl (fun n b => 10 * n + (b.toNat - 48)) 0

/-- The value of digits with an optional point: the digits without the point, and the
power of ten that the point stands for. -/
def fixedPoint (t : Text) : Nat × Int :=
  let whole := t.takeWhile isDigit
  let fraction := ((t.dropWhile isDigit).drop 1).takeWhile isDigit
  (digitsValue (whole ++ fraction), -(fraction.length : Int))

/-! ### Writing -/

/-- The interval of reals that round to a number: numerators of the two ends and of the
number itself over a common denominator, and whether the ends belong to it. -/
structure Interval where
  low : Nat
  value : Nat
  high : Nat
  den : Nat
  closed : Bool
deriving DecidableEq, Repr

/-- The rounding interval of `m * 2 ^ e`. The gap below a power of two is half as wide as
the gap above it, except where the exponent is already the smallest. -/
def Interval.around (m : Nat) (e : Int) : Interval :=
  let up := power 2 (e - 2).toNat
  let below := if m = power 2 fractionBits ∧ minExponent < e then 1 else 2
  ⟨(4 * m - below) * up, 4 * m * up, (4 * m + 2) * up, power 2 (2 - e).toNat, m % 2 == 0⟩

/-- Whether the interval holds `k` units, each `unit` over the common denominator after
the numerators are multiplied by `scale`. -/
def Interval.holds (i : Interval) (scale unit k : Nat) : Bool :=
  let p := k * unit
  if i.closed then i.low * scale ≤ p && p ≤ i.high * scale
  else i.low * scale < p && p < i.high * scale

/-- The multiple of `10 ^ e` inside the interval that is nearest to its value, a tie going
to the even one, as a number of such powers. -/
def Interval.multiple? (i : Interval) (e : Int) : Option Nat :=
  let scale := power 10 (-e).toNat
  let unit := i.den * power 10 e.toNat
  let v := i.value * scale
  let k := v / unit
  match i.holds scale unit k, i.holds scale unit (k + 1) with
  | true, true => some (roundDiv v unit)
  | true, false => some k
  | false, true => some (k + 1)
  | false, false => none

/-- The first power of ten, going down from `10 ^ e`, of which a multiple lies in the
interval, with that multiple. -/
def Interval.descend (i : Interval) : Nat → Int → Nat × Int
  | 0, e => (i.value * power 10 (-e).toNat / (i.den * power 10 e.toNat), e)
  | steps + 1, e =>
    match i.multiple? e with
    | some k => (k, e)
    | none => i.descend steps (e - 1)

/-- A power of ten above the number `m * 2 ^ e`, at most four places too high. -/
def decimalCeiling (m : Nat) (e : Int) : Int :=
  ((m.log2 : Int) + e) * 1233 / 4096 + 3

/-- **Shortest digits.** The fewest decimal digits that read back as `m * 2 ^ e`: the
digits as a natural number, and the power of ten to multiply it by. -/
def shortest (m : Nat) (e : Int) : Nat × Int :=
  (Interval.around m e).descend 25 (decimalCeiling m e)

/-- Digits times a power of ten in positional notation. -/
def positional (digits : Nat) (e : Int) : Text :=
  let ds := Text.ofNat digits
  if 0 ≤ e then ds ++ List.replicate e.toNat 48
  else
    let places := (-e).toNat
    if places < ds.length then
      ds.take (ds.length - places) ++ Text.byte '.' :: ds.drop (ds.length - places)
    else utf8 "0." ++ List.replicate (places - ds.length) 48 ++ ds

/-- The text of a finite magnitude. -/
def magnitudeText (m : Nat) (e : Int) : Text :=
  if m = 0 then utf8 "0"
  else
    let (digits, e) := shortest m e
    positional digits e

/-- **The text of a number.** A sign if negative, negative zero included, then the
shortest digits that read back, without an exponent. -/
def toText (x : Float) : Text :=
  if x.isNaN then utf8 "NaN"
  else
    match Dyadic.ofFloat? x with
    | none => if x < 0 then utf8 "-Inf" else utf8 "+Inf"
    | some d =>
      if d.negative then Text.byte '-' :: magnitudeText d.mantissa d.exponent
      else magnitudeText d.mantissa d.exponent

end Badger.Number
