import Badger.Text.Basic

/-!
# Numbers as multiples of powers of two

Numbers of the language are double-precision floating-point numbers. Whatever is not one
of the machine's own operations is computed here exactly, on natural numbers: a finite
number is a mantissa times a power of two, and a result is rounded once, to the nearest
number, a tie going to the even mantissa.

## Main definitions

* `Number.Dyadic`: sign, mantissa and power of two
* `Number.Dyadic.ofFloat?`: the exact value of a finite number
* `Number.nearest`: the number nearest to a quotient of natural numbers
* `Number.remainder`: the exact remainder of a division, with the sign of the dividend
* `Number.toNat?`: the natural number that a number is equal to
-/

namespace Badger.Number

/-- The value `mantissa * 2 ^ exponent`, negated if `negative`. -/
structure Dyadic where
  negative : Bool
  mantissa : Nat
  exponent : Int
deriving DecidableEq, Repr

/-- A power of a natural number. -/
def power (base exponent : Nat) : Nat := Nat.pow base exponent

/-- The number of bits of a mantissa that are stored. -/
def fractionBits : Nat := 52

/-- The exponent of the smallest positive number. -/
def minExponent : Int := -1074

/-- The bits of positive infinity; finite positive numbers have smaller bits. -/
def infinityBits : Nat := 0x7FF * power 2 fractionBits

/-- Sign, mantissa and power of two of a finite number. -/
def Dyadic.ofFloat? (x : Float) : Option Dyadic :=
  let bits : Nat := x.toBits.toNat
  let negative := decide (power 2 63 ≤ bits)
  let field : Nat := bits / power 2 fractionBits % power 2 11
  let fraction : Nat := bits % power 2 fractionBits
  if field = 0x7FF then none
  else if field = 0 then some ⟨negative, fraction, minExponent⟩
  else some ⟨negative, fraction + power 2 fractionBits, (field : Int) - 1 + minExponent⟩

/-- Rounds `num / den` to the nearest natural number, a tie to the even one. -/
def roundDiv (num den : Nat) : Nat :=
  let floor := num / den
  let twice := 2 * (num % den)
  if twice < den then floor
  else if den < twice then floor + 1
  else floor + floor % 2

/-- The quotient of `num` and `den * 2 ^ e`, as a numerator and a denominator. -/
def scaleDown (num den : Nat) (e : Int) : Nat × Nat :=
  if 0 ≤ e then (num, den * power 2 e.toNat) else (num * power 2 (-e).toNat, den)

/-- The power of two that leaves a mantissa of at most 53 bits in `num / den`. -/
def exponentFor (num den : Nat) : Int :=
  let guess := max minExponent ((num.log2 : Int) - (den.log2 : Int) - 53)
  let (n, d) := scaleDown num den guess
  if n / d < power 2 (fractionBits + 1) then guess else guess + 1

/-- The bits of the number nearest to `num / den`, or `none` if it exceeds every finite
number. A mantissa that rounding lengthens carries into the exponent by itself. -/
def nearestBits? (num den : Nat) : Option Nat :=
  if num = 0 then some 0
  else
    let e := exponentFor num den
    let (n, d) := scaleDown num den e
    let bits := (e - minExponent).toNat * power 2 fractionBits + roundDiv n d
    if bits < infinityBits then some bits else none

/-- The number with the given bits and sign. -/
def ofBits (negative : Bool) (bits : Nat) : Float :=
  Float.ofBits ((if negative then bits + power 2 63 else bits).toUInt64)

/-- Positive or negative infinity. -/
def infinity (negative : Bool) : Float := ofBits negative infinityBits

/-- The quiet number that is not a number. -/
def nan : Float := ofBits false (infinityBits + power 2 51)

/-- The number nearest to `num / den`, negated if asked; too large a quotient gives
infinity. -/
def nearest (negative : Bool) (num den : Nat) : Float :=
  match nearestBits? num den with
  | some bits => ofBits negative bits
  | none => infinity negative

/-- The number equal to a dyadic value with a mantissa of at most 53 bits. -/
def Dyadic.toFloat (d : Dyadic) : Float :=
  let (num, den) := scaleDown d.mantissa 1 (-d.exponent)
  nearest d.negative num den

/-- The exact remainder of two finite magnitudes, brought to the smaller exponent. -/
def Dyadic.rem (x y : Dyadic) : Dyadic :=
  let e := min x.exponent y.exponent
  let a := x.mantissa * power 2 (x.exponent - e).toNat
  let b := y.mantissa * power 2 (y.exponent - e).toNat
  ⟨x.negative, a % b, e⟩

/-- **Remainder.** The remainder of dividing `x` by `y` toward zero, with the sign of
`x`. It is exact; dividing by zero, or dividing an infinity, gives no number, and an
infinite divisor leaves `x` as it is. -/
def remainder (x y : Float) : Float :=
  if x.isNaN || y.isNaN then nan
  else
    match Dyadic.ofFloat? x, Dyadic.ofFloat? y with
    | none, _ => nan
    | some _, none => x
    | some a, some b => if b.mantissa = 0 then nan else (a.rem b).toFloat

/-- The natural number equal to `x`, if there is one. Negative zero counts as zero. -/
def toNat? (x : Float) : Option Nat :=
  match Dyadic.ofFloat? x with
  | none => none
  | some d =>
    if d.negative && d.mantissa != 0 then none
    else
      let (num, den) := scaleDown d.mantissa 1 (-d.exponent)
      if num % den = 0 then some (num / den) else none

end Badger.Number
