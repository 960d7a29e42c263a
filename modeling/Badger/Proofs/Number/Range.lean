import Badger.Proofs.Number.Shortest

/-!
# Numbers out of range

A quotient is rounded to a finite number as long as it lies less than half a unit above the
greatest one. From there on it is out of range.

## Main definitions

* `overflowBound`: half a unit above the greatest finite number
* `decimalValue`: the value of digits with an optional point

## Main statements

* `succ_le_roundDiv_iff`: where a quotient is rounded up from an odd number
* `nearestBits?_eq_none_iff`: **which quotients are out of range**
* `numeralValue?_eq_none_iff`: **which numerals are**

## Design notes

The greatest finite number has an odd mantissa. A quotient just in the middle between it and the
power of two that follows is therefore rounded up, so the bound itself is out of range.
-/

namespace Badger.Number

/-- **Half a unit above the greatest finite number**, whose mantissa is `2 ^ 53 - 1` and whose
exponent is 971. -/
def overflowBound : ℚ := 2 ^ 1024 - 2 ^ 970

theorem overflowBound_eq : overflowBound = (2 ^ 54 - 1) * 2 ^ (970 : ℤ) := by
  have hunit : (2 : ℚ) ^ (970 : ℤ) = 2 ^ 970 := zpow_natCast 2 970
  have hall : (2 : ℚ) ^ 1024 = 2 ^ 54 * 2 ^ 970 := by rw [← pow_add]
  rw [overflowBound, hunit, hall]
  generalize (2 : ℚ) ^ 970 = unit
  ring

/-- Above an odd number, a quotient in the middle is rounded up. -/
theorem succ_le_roundDiv_iff {n d m : Nat} (hd : 0 < d) (hodd : m % 2 = 1) :
    m + 1 ≤ roundDiv n d ↔ (2 * m + 1) * d ≤ 2 * n := by
  have hdiv := Nat.div_add_mod n d
  have hmod := Nat.mod_lt n hd
  unfold roundDiv
  generalize n / d = f at hdiv
  generalize n % d = s at hdiv hmod
  simp only
  rcases Nat.lt_trichotomy f m with hlt | rfl | hgt
  · have hsmall : (f + 1) * d ≤ m * d := Nat.mul_le_mul_right d hlt
    refine iff_of_false ?_ (by nlinarith)
    split
    · omega
    · split <;> omega
  · have hiff : (2 * f + 1) * d ≤ 2 * n ↔ d ≤ 2 * s := by
      constructor <;> intro h <;> nlinarith
    rw [hiff]
    split
    · omega
    · split <;> omega
  · have hlarge : (m + 1) * d ≤ f * d := Nat.mul_le_mul_right d hgt
    refine iff_of_true ?_ (by nlinarith)
    split
    · omega
    · split <;> omega

/-- What is rounded is one of the two natural numbers next to the quotient. -/
theorem roundDiv_bounds {n d low high : Nat} (hd : 0 < d) (hlow : low * d ≤ n)
    (hhigh : n < high * d) : low ≤ roundDiv n d ∧ roundDiv n d ≤ high := by
  have hfloor : low ≤ n / d := (Nat.le_div_iff_mul_le hd).mpr hlow
  have hceil : n / d < high := (Nat.div_lt_iff_lt_mul hd).mpr hhigh
  rcases Interval.roundDiv_mem n d with h | h <;> omega

/-- Where an exponent fits, what is rounded has at most 53 bits, and no less unless the exponent is
the smallest one. -/
theorem Fits.mantissa {n d : Nat} {e : Int} (hd : 0 < d) (h : Fits (n / d * 2 ^ e) e) :
    n < 2 ^ 53 * d ∧ (minExponent < e → 2 ^ 52 * d ≤ n) := by
  have hd' : (0 : ℚ) < d := by exact_mod_cast hd
  have hunit : (0 : ℚ) < 2 ^ e := by positivity
  constructor
  · have hlt := h.lt
    rw [zpow_add₀ (by norm_num), mul_comm ((2 : ℚ) ^ e), mul_lt_mul_iff_left₀ hunit,
      div_lt_iff₀ hd'] at hlt
    exact_mod_cast hlt
  · intro he
    have hle := h.full.resolve_left he.ne'
    rw [zpow_add₀ (by norm_num), mul_comm ((2 : ℚ) ^ e), mul_le_mul_iff_left₀ hunit,
      le_div_iff₀ hd'] at hle
    exact_mod_cast hle

/-- The bits of a quotient, by the exponent that is chosen for it. -/
theorem nearestBits?_eq_none_iff_bits {num den : Nat} (hnum : 0 < num) :
    nearestBits? num den = none ↔
      infinityBits ≤ (exponentFor num den - minExponent).toNat * 2 ^ 52 +
        roundDiv (scaleDown num den (exponentFor num den)).1
          (scaleDown num den (exponentFor num den)).2 := by
  unfold nearestBits?
  rw [if_neg (Nat.ne_of_gt hnum)]
  rcases lt_or_ge ((exponentFor num den - minExponent).toNat * 2 ^ 52 +
    roundDiv (scaleDown num den (exponentFor num den)).1
      (scaleDown num den (exponentFor num den)).2) infinityBits with h | h
  · refine iff_of_false (fun hnone => ?_) (Nat.not_le.mpr h)
    have hsome := (if_pos h).symm.trans hnone
    cases hsome
  · exact iff_of_true (if_neg (Nat.not_lt.mpr h)) h

/-- **Which quotients are out of range.** -/
theorem nearestBits?_eq_none_iff {num den : Nat} (hden : 0 < den) :
    nearestBits? num den = none ↔ overflowBound ≤ num / den := by
  have hbound := overflowBound_eq
  rcases Nat.eq_zero_or_pos num with rfl | hnum
  · refine iff_of_false (by simp [nearestBits?]) ?_
    rw [hbound, Nat.cast_zero, zero_div, not_le]
    positivity
  have hfits := exponentFor_spec hnum hden
  rw [nearestBits?_eq_none_iff_bits hnum]
  generalize exponentFor num den = e at hfits
  obtain ⟨hd, hscale⟩ := scaleDown_spec num hden e
  generalize (scaleDown num den e).1 = n at hscale
  generalize (scaleDown num den e).2 = d at hd hscale
  have hd' : (0 : ℚ) < d := by exact_mod_cast hd
  have hunit : (0 : ℚ) < 2 ^ e := by positivity
  have hquotient : (num / den : ℚ) = n / d * 2 ^ e := by
    rw [hscale, div_mul_cancel₀ _ hunit.ne']
  rw [hquotient] at hfits ⊢
  obtain ⟨hhigh, hfull⟩ := hfits.mantissa hd
  have hinfinity : infinityBits = 2047 * 2 ^ 52 := rfl
  have hmin : minExponent = -1074 := rfl
  -- powers next to the unit of the bound
  have hnext : (2 : ℚ) ^ (971 : ℤ) = 2 * 2 ^ (970 : ℤ) := by
    rw [show (971 : ℤ) = 1 + 970 by norm_num, zpow_add₀ (by norm_num), zpow_one]
  have hlater : (2 : ℚ) ^ (972 : ℤ) = 4 * 2 ^ (970 : ℤ) := by
    rw [show (972 : ℤ) = 2 + 970 by norm_num, zpow_add₀ (by norm_num)]
    norm_num
  have hpositive : (0 : ℚ) < 2 ^ (970 : ℤ) := by positivity
  rcases lt_trichotomy e 971 with hlt | rfl | hgt
  · obtain ⟨-, hround⟩ := roundDiv_bounds hd (Nat.zero_mul d ▸ Nat.zero_le n) hhigh
    refine iff_of_false (by omega) ?_
    have hpower : (2 : ℚ) ^ e ≤ 2 ^ (970 : ℤ) := zpow_le_zpow_right₀ (by norm_num) (by omega)
    have hratio : (n / d : ℚ) < 2 ^ 53 := by
      rw [div_lt_iff₀ hd']
      exact_mod_cast hhigh
    rw [not_le, hbound]
    generalize (2 : ℚ) ^ (970 : ℤ) = unit at hpower hpositive
    calc (n / d : ℚ) * 2 ^ e < 2 ^ 53 * 2 ^ e := by gcongr
      _ ≤ 2 ^ 53 * unit := by gcongr
      _ < (2 ^ 54 - 1) * unit := by linarith
  · have hodd := succ_le_roundDiv_iff (n := n) hd (by decide : (2 ^ 53 - 1) % 2 = 1)
    have hbits : infinityBits ≤ (971 - minExponent).toNat * 2 ^ 52 + roundDiv n d ↔
        2 ^ 53 - 1 + 1 ≤ roundDiv n d := by omega
    rw [hbits, hodd, hbound, hnext, ← mul_assoc, mul_le_mul_iff_left₀ hpositive,
      div_mul_eq_mul_div, le_div_iff₀ hd']
    have hcast : (2 * (2 ^ 53 - 1) + 1) * d ≤ 2 * n ↔
        (((2 * (2 ^ 53 - 1) + 1) * d : Nat) : ℚ) ≤ (2 * n : Nat) := Nat.cast_le.symm
    rw [hcast, mul_comm (n : ℚ)]
    norm_num
  · obtain ⟨hround, -⟩ := roundDiv_bounds hd (hfull (by omega)) hhigh
    refine iff_of_true (by omega) ?_
    have hpower : (2 : ℚ) ^ (972 : ℤ) ≤ 2 ^ e := zpow_le_zpow_right₀ (by norm_num) (by omega)
    have hratio : (2 ^ 52 : ℚ) ≤ n / d := by
      rw [le_div_iff₀ hd']
      exact_mod_cast hfull (by omega)
    rw [hbound]
    rw [hlater] at hpower
    generalize (2 : ℚ) ^ (970 : ℤ) = unit at hpower hpositive
    calc ((2 : ℚ) ^ 54 - 1) * unit ≤ (2 : ℚ) ^ 52 * (4 * unit) := by linarith
      _ ≤ (n / d : ℚ) * 2 ^ e :=
        mul_le_mul hratio hpower (by linarith) (div_nonneg n.cast_nonneg hd'.le)

/-- **The value of digits with an optional point.** -/
def decimalValue (t : Text) : ℚ := (fixedPoint t).1 * 10 ^ (fixedPoint t).2

/-- **Which numerals are out of range.** -/
theorem numeralValue?_eq_none_iff (lexeme : Text) :
    Piece.numeralValue? lexeme = none ↔ overflowBound ≤ decimalValue lexeme := by
  obtain ⟨hden, hratio⟩ := decimalRatio_spec (fixedPoint lexeme).1 (fixedPoint lexeme).2
  rw [decimalValue, ← hratio, ← nearestBits?_eq_none_iff hden]
  unfold Piece.numeralValue?
  exact Option.map_eq_none_iff

end Badger.Number
