import Mathlib
import Badger.Proofs.Number.Rounding

/-!
# Bits of numbers

A finite number that is not negative is told by its bits, which are smaller than those of
infinity. Taken apart and put together again the bits are the same, so two such numbers
are equal only if their bits are, and mantissa and exponent can be read off them.

## Main statements

* `toBits_ofBits`: **the bits of a finite number are kept**
* `ofFloat?_ofBits`: its mantissa and exponent are canonical, and determine the bits

## Design notes

The floating-point type keeps numbers in unpacked form, a sign with a positive mantissa and
an exponent, and equality of numbers is equality there. Packing undoes unpacking, unless the bits
are those of something that is not a number.
-/

namespace Badger.Number

open Float.Model (Format)
open Float.Model.UnpackedFloat (packedNaN unpackExponent unpackExponent_def
  unpackExponent_packComponents unpack pack_unpack_of_valid isNaN_unpack_iff_of_valid)

/-! ### Bits -/

/-- The exponent of a finite number is not that of infinity. -/
theorem unpackExponent_ne {b : BitVec 64} (h : b.toNat < infinityBits) :
    @unpackExponent Format.binary64 b ≠ -1#_ := by
  intro heq
  have hall := congrArg BitVec.toNat heq
  rw [unpackExponent_def, BitVec.extractLsb'_toNat, Nat.shiftRight_eq_div_pow] at hall
  have hlt : b.toNat < 0x7FF0000000000000 := h
  change b.toNat / 2 ^ 52 % 2 ^ 11 = 2047 at hall
  omega

/-- **Bits of finite numbers** that are not negative are kept. -/
theorem toBits_ofBits {n : Nat} (h : n < infinityBits) :
    (ofBits false n).toBits.toNat = n ∧ (ofBits false n).isNaN = false := by
  have hlt : n < 0x7FF0000000000000 := h
  have hn : n.toUInt64.toBitVec.toNat = n := by
    simp
    omega
  have hfinite := unpackExponent_ne (b := n.toUInt64.toBitVec) (by rwa [hn])
  have hvalid : Format.binary64.Valid n.toUInt64.toBitVec := ⟨fun hall => absurd hall hfinite⟩
  have hbits : (ofBits false n).toBits.toBitVec = n.toUInt64.toBitVec :=
    pack_unpack_of_valid hvalid
  refine ⟨?_, ?_⟩
  · show (ofBits false n).toBits.toBitVec.toNat = n
    rw [hbits, hn]
  · show (unpack Format.binary64 (ofBits false n).toBits.toBitVec).isNaN = false
    rw [hbits, Bool.eq_false_iff, Ne, isNaN_unpack_iff_of_valid hvalid]
    intro hnan
    rw [hnan, packedNaN, unpackExponent_packComponents] at hfinite
    exact hfinite rfl

/-! ### Mantissa and exponent -/

/-- **Mantissa and exponent** of a finite number are canonical, and the bits are made of
them. -/
theorem ofFloat?_ofBits {n : Nat} (h : n < infinityBits) :
    ∃ m e, Dyadic.ofFloat? (ofBits false n) = some ⟨false, m, e⟩ ∧ Canonical m e ∧
      e ≤ 971 ∧ n = (e - minExponent).toNat * 2 ^ 52 + m := by
  have hlt : n < 0x7FF0000000000000 := h
  have hmin : minExponent = -1074 := rfl
  have hmod : n / 2 ^ 52 % 2 ^ 11 = n / 2 ^ 52 := Nat.mod_eq_of_lt (by omega)
  have hsign : ¬2 ^ 63 ≤ n := by omega
  unfold Dyadic.ofFloat?
  simp only [(toBits_ofBits h).1, power_eq, fractionBits, hmod, hsign, decide_false]
  rw [if_neg (by omega)]
  split
  · next hzero =>
    refine ⟨n % 2 ^ 52, minExponent, rfl, ⟨by omega, by omega, .inl rfl⟩, by omega, ?_⟩
    omega
  · next hnonzero =>
    refine ⟨n % 2 ^ 52 + 2 ^ 52, _, rfl, ⟨by omega, by omega, .inr (by omega)⟩, by omega, ?_⟩
    omega

end Badger.Number
