import Mathlib.Algebra.Order.Field.Power
import Mathlib.Data.Nat.Log
import Mathlib.Data.Rat.Cast.Order
import Mathlib.Tactic.FieldSimp
import Mathlib.Tactic.Linarith
import Mathlib.Tactic.Positivity
import Mathlib.Tactic.Ring
import Badger.Number.Decimal

/-!
# Rounding to the nearest number

A finite number that is not negative is a mantissa `m` and an exponent `e`, in one way only
(`Canonical`), and the rationals around `m * 2 ^ e` that round to it form its rounding
interval. This module shows that `nearestBits?` computes just that: on every rational of the
interval around `m * 2 ^ e` it answers the bits of that number.

## Main definitions

* `Canonical`: mantissas and exponents of finite numbers
* `Interval.Contains`: membership in an interval, as a statement about rationals

## Main statements

* `roundDiv_eq`: rounding a quotient, told by the two halves next to the result
* `exponentFor_spec`, `exponentFor_eq`: the exponent that is chosen, and that no other fits
* `nearestBits?_of_contains`: **every rational of a rounding interval is rounded to the
  number in its middle**

## Design notes

The definitions compare natural numbers; the statements are about the rationals these stand
for, so that a power of two may have a negative exponent. Below a power of two the numbers
lie twice as close, and there the exponent chosen for a rational is one smaller than that of
the number it is rounded to: the mantissa `2 ^ 53` carries.
-/

namespace Badger.Number

theorem power_eq (base exponent : Nat) : power base exponent = base ^ exponent := rfl

/-- Mantissa and exponent of a finite number: the mantissa has 53 bits, unless the exponent
is already the smallest one. -/
structure Canonical (m : Nat) (e : Int) : Prop where
  lt : m < 2 ^ 53
  le : minExponent ≤ e
  full : e = minExponent ∨ 2 ^ 52 ≤ m

/-! ### Quotients -/

theorem roundDiv_eq_of_le {n d r : Nat} (hd : 0 < d) (hlow : 2 * r * d ≤ 2 * n + d)
    (hhigh : 2 * n ≤ (2 * r + 1) * d)
    (htie : r % 2 = 0 ∨ 2 * r * d < 2 * n + d ∧ 2 * n < (2 * r + 1) * d) :
    roundDiv n d = r := by
  have hdiv := Nat.div_add_mod n d
  have hmod := Nat.mod_lt n hd
  generalize hf : n / d = f at hdiv
  generalize hs : n % d = s at hdiv hmod
  have hle : f ≤ r := by
    by_contra hlt
    have : (r + 1) * d ≤ f * d := Nat.mul_le_mul_right d (by omega)
    nlinarith
  have hge : r ≤ f + 1 := by
    by_contra hlt
    have : (f + 2) * d ≤ r * d := Nat.mul_le_mul_right d (by omega)
    nlinarith
  unfold roundDiv
  simp only [hf, hs]
  obtain rfl | rfl : r = f ∨ r = f + 1 := by omega
  · have hsmall : 2 * s ≤ d := by nlinarith
    rcases htie with heven | hstrict
    · split
      · rfl
      · rw [if_neg (by omega)]
        omega
    · rw [if_pos (by nlinarith)]
  · have hlarge : d ≤ 2 * s := by nlinarith
    rw [if_neg (by omega)]
    rcases htie with heven | hstrict
    · split
      · rfl
      · omega
    · rw [if_pos (by nlinarith)]

/-- **Rounding a quotient.** What is rounded to `r` lies at most one half away from it, and
less than one half if `r` is odd. -/
theorem roundDiv_eq {n d r : Nat} (hd : 0 < d) (hlow : (r : ℚ) - 1 / 2 ≤ n / d)
    (hhigh : (n / d : ℚ) ≤ r + 1 / 2)
    (htie : r % 2 = 0 ∨ (r : ℚ) - 1 / 2 < n / d ∧ (n / d : ℚ) < r + 1 / 2) :
    roundDiv n d = r := by
  have hd' : (0 : ℚ) < d := by exact_mod_cast hd
  rw [le_div_iff₀ hd', lt_div_iff₀ hd', div_lt_iff₀ hd'] at *
  rw [div_le_iff₀ hd'] at hhigh
  refine roundDiv_eq_of_le hd ?_ ?_ (htie.imp id fun h => ⟨?_, ?_⟩)
  · have : (2 * r * d : ℚ) ≤ 2 * n + d := by linarith
    exact_mod_cast this
  · have : (2 * n : ℚ) ≤ (2 * r + 1) * d := by linarith
    exact_mod_cast this
  · have : (2 * r * d : ℚ) < 2 * n + d := by linarith [h.1]
    exact_mod_cast this
  · have : (2 * n : ℚ) < (2 * r + 1) * d := by linarith [h.2]
    exact_mod_cast this

/-- Moving a power of two into a quotient. -/
theorem scaleDown_spec (num : Nat) {den : Nat} (hden : 0 < den) (e : Int) :
    0 < (scaleDown num den e).2 ∧
      ((scaleDown num den e).1 : ℚ) / (scaleDown num den e).2 = num / den / 2 ^ e := by
  unfold scaleDown
  have hden' : (den : ℚ) ≠ 0 := by positivity
  split
  · next he =>
    obtain ⟨n, rfl⟩ := Int.eq_ofNat_of_zero_le he
    refine ⟨Nat.mul_pos hden (Nat.pow_pos (by decide)), ?_⟩
    simp only [power_eq, Int.toNat_natCast, Nat.cast_mul, Nat.cast_pow,
      Nat.cast_ofNat, zpow_natCast]
    rw [div_div]
  · next he =>
    obtain ⟨n, rfl⟩ : ∃ n : Nat, e = -(n : Int) := ⟨(-e).toNat, by omega⟩
    refine ⟨hden, ?_⟩
    simp only [power_eq, neg_neg, Int.toNat_natCast, Nat.cast_mul, Nat.cast_pow, Nat.cast_ofNat,
      zpow_neg, zpow_natCast]
    field_simp

/-! ### The exponent -/

/-- Where the exponent fits that leaves a mantissa of 53 bits in `q`, or the smallest one. -/
structure Fits (q : ℚ) (e : Int) : Prop where
  le : minExponent ≤ e
  lt : q < 2 ^ (e + 53)
  full : e = minExponent ∨ 2 ^ (e + 52) ≤ q

/-- At most one exponent fits. -/
theorem Fits.unique {q : ℚ} {e e' : Int} (h : Fits q e) (h' : Fits q e') : e = e' := by
  have key : ∀ {a b : Int}, Fits q a → Fits q b → a ≤ b := by
    intro a b ha hb
    by_contra hlt
    rcases ha.full with rfl | hfull
    · exact hlt hb.le
    · have hpow : (2 : ℚ) ^ (b + 53) ≤ 2 ^ (a + 52) :=
        zpow_le_zpow_right₀ (by norm_num) (by omega)
      linarith [hb.lt]
  exact Int.le_antisymm (key h h') (key h' h)

/-- A positive quotient lies between the powers of two that the lengths of numerator and
denominator tell. -/
theorem log2_quotient {num den : Nat} (hnum : 0 < num) (hden : 0 < den) :
    (2 : ℚ) ^ ((num.log2 : Int) - den.log2 - 1) ≤ num / den ∧
      (num / den : ℚ) < 2 ^ ((num.log2 : Int) - den.log2 + 1) := by
  have hnumLow : (2 : ℚ) ^ num.log2 ≤ num := by
    exact_mod_cast Nat.log2_self_le (Nat.ne_of_gt hnum)
  have hnumHigh : (num : ℚ) < 2 ^ (num.log2 + 1) := by
    exact_mod_cast Nat.lt_log2_self
  have hdenLow : (2 : ℚ) ^ den.log2 ≤ den := by
    exact_mod_cast Nat.log2_self_le (Nat.ne_of_gt hden)
  have hdenHigh : (den : ℚ) < 2 ^ (den.log2 + 1) := by
    exact_mod_cast Nat.lt_log2_self
  have hden' : (0 : ℚ) < den := by positivity
  constructor
  · rw [le_div_iff₀ hden']
    calc (2 : ℚ) ^ ((num.log2 : Int) - den.log2 - 1) * den
        ≤ 2 ^ ((num.log2 : Int) - den.log2 - 1) * 2 ^ (den.log2 + 1) := by gcongr
      _ = 2 ^ num.log2 := by
        rw [← zpow_natCast, ← zpow_natCast, ← zpow_add₀ (by norm_num)]
        congr 1
        push_cast
        ring
      _ ≤ num := hnumLow
  · rw [div_lt_iff₀ hden']
    calc (num : ℚ) < 2 ^ (num.log2 + 1) := hnumHigh
      _ = 2 ^ ((num.log2 : Int) - den.log2 + 1) * 2 ^ den.log2 := by
        rw [← zpow_natCast, ← zpow_natCast, ← zpow_add₀ (by norm_num)]
        congr 1
        push_cast
        ring
      _ ≤ 2 ^ ((num.log2 : Int) - den.log2 + 1) * den := by gcongr

/-- **The exponent that is chosen fits.** -/
theorem exponentFor_spec {num den : Nat} (hnum : 0 < num) (hden : 0 < den) :
    Fits (num / den) (exponentFor num den) := by
  obtain ⟨hlow, hhigh⟩ := log2_quotient hnum hden
  unfold exponentFor
  generalize hguess : max minExponent ((num.log2 : Int) - den.log2 - 53) = guess
  obtain ⟨hd, hscale⟩ := scaleDown_spec num hden guess
  have htwo : (0 : ℚ) < 2 ^ guess := by positivity
  have hd' : (0 : ℚ) < (scaleDown num den guess).2 := by exact_mod_cast hd
  have hfloor : ((scaleDown num den guess).1 / (scaleDown num den guess).2 <
      power 2 (fractionBits + 1)) ↔ (num / den : ℚ) < 2 ^ (guess + 53) := by
    rw [Nat.div_lt_iff_lt_mul hd, zpow_add₀ (by norm_num), mul_comm ((2 : ℚ) ^ guess),
      ← div_lt_iff₀ htwo, ← hscale, div_lt_iff₀ hd']
    norm_cast
  simp only [hfloor]
  split
  · next hlt =>
    refine ⟨by omega, hlt, ?_⟩
    rcases Int.le_total ((num.log2 : Int) - den.log2 - 53) minExponent with h | h
    · exact .inl (by omega)
    · refine .inr (le_trans (le_of_eq ?_) hlow)
      congr 1
      omega
  · next hge =>
    refine ⟨by omega, ?_, .inr ?_⟩
    · refine lt_of_lt_of_le hhigh (zpow_le_zpow_right₀ (by norm_num) (by omega))
    · rw [show guess + 1 + 52 = guess + 53 by ring]
      exact not_lt.mp hge

theorem exponentFor_eq {num den : Nat} (hnum : 0 < num) (hden : 0 < den) {e : Int}
    (h : Fits (num / den) e) : exponentFor num den = e :=
  (exponentFor_spec hnum hden).unique h

/-- The bits that `nearestBits?` answers, by the exponent that fits and the rounded
mantissa. -/
theorem nearestBits?_eq {num den r : Nat} {e : Int} (hnum : 0 < num) (hden : 0 < den)
    (hfits : Fits (num / den) e) (hlow : (r : ℚ) - 1 / 2 ≤ num / den / 2 ^ e)
    (hhigh : (num / den / 2 ^ e : ℚ) ≤ r + 1 / 2)
    (htie : r % 2 = 0 ∨
      (r : ℚ) - 1 / 2 < num / den / 2 ^ e ∧ (num / den / 2 ^ e : ℚ) < r + 1 / 2)
    (hbits : (e - minExponent).toNat * 2 ^ 52 + r < infinityBits) :
    nearestBits? num den = some ((e - minExponent).toNat * 2 ^ 52 + r) := by
  obtain ⟨hd, hscale⟩ := scaleDown_spec num hden e
  rw [← hscale] at hlow hhigh htie
  have hround := roundDiv_eq hd hlow hhigh htie
  unfold nearestBits?
  rw [if_neg (Nat.ne_of_gt hnum)]
  simp only [exponentFor_eq hnum hden hfits, hround]
  exact if_pos hbits

/-! ### Rounding intervals -/

/-- Whether a rational lies in an interval. -/
def Interval.Contains (i : Interval) (q : ℚ) : Prop :=
  if i.closed then (i.low : ℚ) / i.den ≤ q ∧ q ≤ i.high / i.den
  else (i.low : ℚ) / i.den < q ∧ q < i.high / i.den

/-- A power with an integer exponent, as a quotient of two natural numbers. -/
theorem power_div_power {base : Nat} (hbase : 0 < base) (e : Int) :
    (power base e.toNat : ℚ) / power base (-e).toNat = (base : ℚ) ^ e := by
  have hbase' : (base : ℚ) ≠ 0 := by positivity
  simp only [power_eq, Nat.cast_pow, ← zpow_natCast]
  rw [← zpow_sub₀ hbase', show (e.toNat : Int) - (-e).toNat = e by omega]

/-- The distance from a mantissa to the lower end of its interval, in quarters. -/
def quartersBelow (m : Nat) (e : Int) : Nat :=
  if m = 2 ^ 52 ∧ minExponent < e then 1 else 2

/-- The unit of the ends of an interval, a quarter of that of the mantissa. -/
theorem quarter_eq (e : Int) :
    (power 2 (e - 2).toNat : ℚ) / power 2 (2 - e).toNat = 2 ^ (e - 2) := by
  have hpower := power_div_power (show 0 < 2 by decide) (e - 2)
  rw [neg_sub] at hpower
  exact_mod_cast hpower

theorem Interval.around_low (m : Nat) (e : Int) :
    ((around m e).low : ℚ) / (around m e).den =
      (4 * m - quartersBelow m e : Nat) * 2 ^ (e - 2) := by
  rw [← quarter_eq, ← mul_div_assoc]
  simp only [around, Nat.cast_mul]
  rfl

theorem Interval.around_high (m : Nat) (e : Int) :
    ((around m e).high : ℚ) / (around m e).den = (4 * m + 2) * 2 ^ (e - 2) := by
  rw [← quarter_eq, ← mul_div_assoc]
  simp only [around, Nat.cast_mul, Nat.cast_add, Nat.cast_ofNat]

/-- What membership in a rounding interval says. -/
structure Near (m : Nat) (e : Int) (q : ℚ) : Prop where
  low : ((4 * m - quartersBelow m e : Nat) : ℚ) * 2 ^ (e - 2) ≤ q
  high : q ≤ (4 * m + 2) * 2 ^ (e - 2)
  strict : m % 2 = 0 ∨ ((4 * m - quartersBelow m e : Nat) : ℚ) * 2 ^ (e - 2) < q ∧
    q < (4 * m + 2) * 2 ^ (e - 2)

theorem Interval.contains_around_iff {m : Nat} {e : Int} {q : ℚ} :
    (around m e).Contains q ↔ Near m e q := by
  unfold Contains
  rw [around_low, around_high]
  have hclosed : (around m e).closed = true ↔ m % 2 = 0 := by
    simp [around]
  split
  · next h =>
    exact ⟨fun hq => ⟨hq.1, hq.2, .inl (hclosed.mp h)⟩, fun hq => ⟨hq.low, hq.high⟩⟩
  · next h =>
    refine ⟨fun hq => ⟨le_of_lt hq.1, le_of_lt hq.2, .inr hq⟩, fun hq => ?_⟩
    exact hq.strict.resolve_left fun heven => h (hclosed.mpr heven)

/-- A power of two in quarters of another. -/
theorem two_zpow_eq (e : Int) (k : Nat) : (2 : ℚ) ^ (e + k) = 2 ^ (k + 2) * 2 ^ (e - 2) := by
  rw [← zpow_natCast, ← zpow_add₀ (by norm_num)]
  congr 1
  push_cast
  ring

section Nearest

variable {m : Nat} {e : Int} {q : ℚ}

/-- Membership, with the lower end that holds of every mantissa. -/
theorem Near.half (h : Near m e q) :
    (4 * m - 2 : ℚ) * 2 ^ (e - 2) ≤ q ∧ (m % 2 = 0 ∨ (4 * m - 2 : ℚ) * 2 ^ (e - 2) < q) := by
  have hunit : (0 : ℚ) < 2 ^ (e - 2) := by positivity
  have hle : (4 * m - 2 : ℚ) ≤ (4 * m - quartersBelow m e : Nat) := by
    have hquarters : quartersBelow m e ≤ 2 := by
      unfold quartersBelow
      split <;> omega
    have : 4 * m ≤ (4 * m - quartersBelow m e) + 2 := by omega
    have : (4 * m : ℚ) ≤ (4 * m - quartersBelow m e : Nat) + 2 := by exact_mod_cast this
    linarith
  have hlow := mul_le_mul_of_nonneg_right hle (le_of_lt hunit)
  exact ⟨le_trans hlow h.low, h.strict.imp id fun hstrict => lt_of_le_of_lt hlow hstrict.1⟩

/-- What rounds to zero by its numerator is zero. -/
theorem Near.of_zero (hc : Canonical m e) (h : Near m e 0) : m = 0 ∧ e = minExponent := by
  have hunit : (0 : ℚ) < 2 ^ (e - 2) := by positivity
  have hm : m = 0 := by
    by_contra hm
    have hm' : (1 : ℚ) ≤ m := by exact_mod_cast Nat.one_le_iff_ne_zero.mpr hm
    have := h.half.1
    have : (0 : ℚ) < (4 * m - 2) * 2 ^ (e - 2) := mul_pos (by linarith) hunit
    linarith
  refine ⟨hm, hc.full.resolve_right ?_⟩
  omega

/-- Where no carry happens, the exponent of the number fits. -/
theorem Near.fits (hc : Canonical m e) (h : Near m e q)
    (hfull : e = minExponent ∨ 2 ^ (e + 52) ≤ q) : Fits q e := by
  refine ⟨hc.le, ?_, hfull⟩
  have hunit : (0 : ℚ) < 2 ^ (e - 2) := by positivity
  have hm : (m : ℚ) + 1 ≤ 2 ^ 53 := by exact_mod_cast hc.lt
  have htop : (2 : ℚ) ^ (e + 53) = 2 ^ 55 * 2 ^ (e - 2) := two_zpow_eq e 53
  have hlt : (4 * m + 2 : ℚ) * 2 ^ (e - 2) < 2 ^ 55 * 2 ^ (e - 2) :=
    mul_lt_mul_of_pos_right (by linarith) hunit
  linarith [h.high]

/-- A carry happens only just below a power of two. -/
theorem Near.carries (hc : Canonical m e) (h : Near m e q) (he : e ≠ minExponent)
    (hlt : q < 2 ^ (e + 52)) :
    m = 2 ^ 52 ∧ (2 ^ 54 - 1 : ℚ) * 2 ^ (e - 2) ≤ q := by
  have hunit : (0 : ℚ) < 2 ^ (e - 2) := by positivity
  have htop : (2 : ℚ) ^ (e + 52) = 2 ^ 54 * 2 ^ (e - 2) := two_zpow_eq e 52
  have hfull := hc.full.resolve_left he
  have hm : m = 2 ^ 52 := by
    by_contra hne
    have hm' : (2 ^ 52 + 1 : ℚ) ≤ m := by
      exact_mod_cast (show 2 ^ 52 + 1 ≤ m by omega)
    have : (2 ^ 54 : ℚ) * 2 ^ (e - 2) ≤ (4 * m - 2) * 2 ^ (e - 2) :=
      mul_le_mul_of_nonneg_right (by linarith) (le_of_lt hunit)
    linarith [h.half.1]
  refine ⟨hm, ?_⟩
  have hquarters : quartersBelow m e = 1 := if_pos ⟨hm, lt_of_le_of_ne hc.le (Ne.symm he)⟩
  have hlow := h.low
  rw [hquarters, hm] at hlow
  norm_num at hlow ⊢
  exact hlow

/-- **Rounding to the nearest number.** Every rational of the rounding interval of a number
is rounded to it. -/
theorem nearestBits?_of_contains (hc : Canonical m e) {num den : Nat} (hden : 0 < den)
    (h : (Interval.around m e).Contains (num / den))
    (hbits : (e - minExponent).toNat * 2 ^ 52 + m < infinityBits) :
    nearestBits? num den = some ((e - minExponent).toNat * 2 ^ 52 + m) := by
  rw [Interval.contains_around_iff] at h
  have hunit : (0 : ℚ) < 2 ^ (e - 2) := by positivity
  rcases Nat.eq_zero_or_pos num with rfl | hnum
  · obtain ⟨rfl, rfl⟩ := Near.of_zero hc (by simpa using h)
    rfl
  by_cases hfull : e = minExponent ∨ (2 : ℚ) ^ (e + 52) ≤ num / den
  · have hone : (2 : ℚ) ^ e = 4 * 2 ^ (e - 2) := by
      have htwo := two_zpow_eq e 0
      norm_num at htwo ⊢
      exact htwo
    have hpos : (0 : ℚ) < 2 ^ e := by positivity
    refine nearestBits?_eq hnum hden (h.fits hc hfull) ?_ ?_ ?_ hbits
    · rw [le_div_iff₀ hpos, hone]
      linarith [h.half.1]
    · rw [div_le_iff₀ hpos, hone]
      linarith [h.high]
    · rw [lt_div_iff₀ hpos, div_lt_iff₀ hpos, hone]
      rcases h.half.2 with heven | hlow
      · exact .inl heven
      · refine h.strict.imp id fun hstrict => ⟨by linarith, by linarith [hstrict.2]⟩
  · obtain ⟨he, hlt⟩ := not_or.mp hfull
    rw [not_le] at hlt
    obtain ⟨rfl, hlow⟩ := h.carries hc he hlt
    have hle := hc.le
    have htop : (2 : ℚ) ^ (e + 52) = 2 ^ 54 * 2 ^ (e - 2) := two_zpow_eq e 52
    have hmid : (2 : ℚ) ^ (e - 1 + 52) = 2 ^ 53 * 2 ^ (e - 2) := by
      rw [show e - 1 + 52 = e + 51 by ring]
      exact two_zpow_eq e 51
    have hone : (2 : ℚ) ^ (e - 1) = 2 * 2 ^ (e - 2) := by
      rw [show e - 1 = 1 + (e - 2) by ring, zpow_add₀ (by norm_num), zpow_one]
    have hpos : (0 : ℚ) < 2 ^ (e - 1) := by positivity
    -- The exponent chosen is one smaller, and the mantissa is rounded up to `2 ^ 53`.
    have hfits : Fits (num / den) (e - 1) := by
      refine ⟨by omega, ?_, .inr ?_⟩
      · rw [show e - 1 + 53 = e + 52 by ring]
        exact hlt
      · rw [hmid]
        linarith
    have hcarry : (e - 1 - minExponent).toNat * 2 ^ 52 + 2 ^ 53 =
        (e - minExponent).toNat * 2 ^ 52 + 2 ^ 52 := by
      omega
    rw [← hcarry] at hbits ⊢
    refine nearestBits?_eq hnum hden hfits ?_ ?_ (.inl (by decide)) hbits
    · rw [le_div_iff₀ hpos, hone]
      push_cast
      linarith
    · rw [div_le_iff₀ hpos, hone]
      push_cast
      linarith

end Nearest

end Badger.Number
