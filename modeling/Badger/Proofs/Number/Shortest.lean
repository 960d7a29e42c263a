import Badger.Proofs.Number.Bits
import Badger.Token.Piece

/-!
# The text of a number reads back

The digits written for a finite number are a multiple of a power of ten inside its rounding
interval, in positional notation. Read as a numeral they give the number again, so numbers
with the same text are equal.

## Main statements

* `Interval.multiple?_contains`: a multiple that is found lies in the interval
* `shortest_contains`: **the shortest digits lie in the rounding interval**
* `fixedPoint_positional`: positional notation keeps the value
* `isNumeral_toText`: it starts with a digit and holds only digits and points
* `numeralValue?_toText`: **the text of a finite number that is not negative reads back**

## Design notes

The search tries 25 powers of ten, from one above the number. That it ends within them is a
matter of size: the last power is smaller than half the gap to the next number, which follows
from `10 ^ 3 < 2 ^ 10` and `2 ^ 33 < 10 ^ 10` for exponents of the range in question.
-/

namespace Badger.Number

/-! ### Multiples inside an interval -/

namespace Interval

variable {i : Interval}

/-- The unit in which multiples of a power of ten are counted. -/
theorem ten_zpow_eq (e : Int) :
    (0 : ℚ) < power 10 (-e).toNat ∧ (10 : ℚ) ^ e = power 10 e.toNat / power 10 (-e).toNat := by
  have hpower := power_div_power (show 0 < 10 by decide) e
  refine ⟨?_, by exact_mod_cast hpower.symm⟩
  exact_mod_cast Nat.pow_pos (n := (-e).toNat) (show 0 < 10 by decide)

theorem div_le_iff_mul_le (hden : 0 < i.den) (a k : Nat) (e : Int) :
    (a : ℚ) / i.den ≤ k * 10 ^ e ↔
      a * power 10 (-e).toNat ≤ k * (i.den * power 10 e.toNat) := by
  have hden' : (0 : ℚ) < i.den := by exact_mod_cast hden
  obtain ⟨hscale, hpower⟩ := ten_zpow_eq e
  rw [hpower, ← mul_div_assoc, div_le_div_iff₀ hden' hscale, mul_assoc, mul_comm (power _ _ : ℚ)]
  norm_cast

theorem le_div_iff_le_mul (hden : 0 < i.den) (a k : Nat) (e : Int) :
    (k * 10 ^ e : ℚ) ≤ a / i.den ↔
      k * (i.den * power 10 e.toNat) ≤ a * power 10 (-e).toNat := by
  have hden' : (0 : ℚ) < i.den := by exact_mod_cast hden
  obtain ⟨hscale, hpower⟩ := ten_zpow_eq e
  rw [hpower, ← mul_div_assoc, div_le_div_iff₀ hscale hden', mul_assoc, mul_comm (power _ _ : ℚ)]
  norm_cast

/-- The test on natural numbers is membership of the multiple. -/
theorem holds_iff (hden : 0 < i.den) (k : Nat) (e : Int) :
    i.holds (power 10 (-e).toNat) (i.den * power 10 e.toNat) k = true ↔
      i.Contains (k * 10 ^ e) := by
  unfold holds Contains
  rw [← not_le (a := (k * 10 ^ e : ℚ)), ← not_le (b := (k * 10 ^ e : ℚ))]
  simp only [div_le_iff_mul_le hden, le_div_iff_le_mul hden]
  split <;> simp

theorem roundDiv_mem (n d : Nat) : roundDiv n d = n / d ∨ roundDiv n d = n / d + 1 := by
  unfold roundDiv
  have := Nat.mod_lt (n / d) (show 0 < 2 by decide)
  grind

/-- **A multiple that is found lies in the interval.** -/
theorem multiple?_contains (hden : 0 < i.den) {e : Int} {k : Nat} (h : i.multiple? e = some k) :
    i.Contains (k * 10 ^ e) := by
  rw [← holds_iff hden]
  unfold multiple? at h
  generalize i.den * power 10 e.toNat = unit at h ⊢
  simp only at h
  split at h
  · next hk hk' =>
    cases h
    rcases roundDiv_mem (i.value * power 10 (-e).toNat) unit with hr | hr
    · rwa [hr]
    · rwa [hr]
  · next hk hk' =>
    cases h
    exact hk
  · next hk hk' =>
    cases h
    exact hk'
  · cases h

/-- The search finds a multiple if one of the powers that it tries has one. -/
theorem descend_contains (hden : 0 < i.den) {steps : Nat} {e : Int} {n : Nat} (hn : n < steps)
    (hfound : (i.multiple? (e - n)).isSome) :
    i.Contains ((i.descend steps e).1 * 10 ^ (i.descend steps e).2) := by
  induction steps generalizing e n with
  | zero => omega
  | succ steps ih =>
    rw [descend]
    split
    · next k hk => exact multiple?_contains hden hk
    · next hnone =>
      cases n with
      | zero => simp [hnone] at hfound
      | succ n =>
        refine ih (n := n) (by omega) ?_
        rwa [show e - 1 - (n : Int) = e - (n + 1 : Nat) by omega]

/-- A power of ten that is smaller than the distance to the upper end has a multiple in the
interval. -/
theorem multiple?_isSome (hden : 0 < i.den) {e : Int} (hlow : i.low ≤ i.value)
    (hgap : (10 : ℚ) ^ e < i.high / i.den - i.value / i.den) : (i.multiple? e).isSome := by
  have hden' : (0 : ℚ) < i.den := by exact_mod_cast hden
  have hten : (0 : ℚ) < 10 ^ e := by positivity
  generalize hk : i.value * power 10 (-e).toNat / (i.den * power 10 e.toNat) = k
  have hunit : 0 < i.den * power 10 e.toNat := Nat.mul_pos hden (Nat.pow_pos (by decide))
  -- The value lies between this multiple and the next one.
  have hbelow : (k * 10 ^ e : ℚ) ≤ i.value / i.den := by
    rw [le_div_iff_le_mul hden, ← hk]
    exact Nat.div_mul_le_self _ _
  have habove : (i.value / i.den : ℚ) < (k + 1 : Nat) * 10 ^ e := by
    rw [← not_le, le_div_iff_le_mul hden, ← hk, not_le, Nat.mul_comm (_ / _ + 1)]
    exact Nat.lt_mul_div_succ _ hunit
  have hin : i.Contains ((k + 1 : Nat) * 10 ^ e) := by
    have hlow' : (i.low / i.den : ℚ) ≤ i.value / i.den := by
      gcongr
    have hhigh : ((k + 1 : Nat) * 10 ^ e : ℚ) < i.high / i.den := by
      push_cast
      linarith
    unfold Contains
    split
    · exact ⟨by linarith, le_of_lt hhigh⟩
    · exact ⟨by linarith, hhigh⟩
  rw [← holds_iff hden] at hin
  unfold multiple?
  simp only [hk, hin]
  split <;> simp_all

end Interval

/-! ### The search ends -/

/-- Powers of ten below powers of two. -/
theorem ten_zpow_lt_two_zpow {t b : Int} (hpos : 0 ≤ t → 10 * t < 3 * b)
    (hneg : t < 0 → 33 * t < 10 * b) : (10 : ℚ) ^ t < 2 ^ b := by
  rcases Int.lt_or_le t 0 with ht | ht
  · refine lt_of_pow_lt_pow_left₀ 10 (by positivity) ?_
    obtain ⟨n, rfl⟩ : ∃ n : Nat, t = -(n : Int) := ⟨(-t).toNat, by omega⟩
    calc ((10 : ℚ) ^ (-(n : Int))) ^ 10 = ((10 ^ 10 : ℚ) ^ n)⁻¹ := by
          rw [zpow_neg, zpow_natCast, inv_pow, ← pow_mul, ← pow_mul, Nat.mul_comm]
      _ ≤ ((2 ^ 33 : ℚ) ^ n)⁻¹ := by
          gcongr
          norm_num
      _ = (2 : ℚ) ^ (33 * -(n : Int)) := by
          rw [← pow_mul, ← zpow_natCast, ← zpow_neg]
          congr 1
          push_cast
          ring
      _ < (2 : ℚ) ^ (10 * b) := zpow_lt_zpow_right₀ (by norm_num) (hneg ht)
      _ = ((2 : ℚ) ^ b) ^ 10 := by
          rw [← zpow_natCast, ← zpow_mul, Int.mul_comm]
          rfl
  · refine lt_of_pow_lt_pow_left₀ 3 (by positivity) ?_
    obtain ⟨n, rfl⟩ := Int.eq_ofNat_of_zero_le ht
    calc ((10 : ℚ) ^ (n : Int)) ^ 3 = (10 ^ 3 : ℚ) ^ n := by
          rw [zpow_natCast, ← pow_mul, ← pow_mul, Nat.mul_comm]
      _ ≤ (2 ^ 10 : ℚ) ^ n := by
          gcongr
          norm_num
      _ = (2 : ℚ) ^ (10 * (n : Int)) := by
          rw [← pow_mul, ← zpow_natCast]
          rfl
      _ < (2 : ℚ) ^ (3 * b) := zpow_lt_zpow_right₀ (by norm_num) (hpos ht)
      _ = ((2 : ℚ) ^ b) ^ 3 := by
          rw [← zpow_natCast, ← zpow_mul, Int.mul_comm]
          rfl

/-- **The shortest digits lie in the rounding interval.** -/
theorem shortest_contains {m : Nat} {e : Int} (hc : Canonical m e) (hpos : 0 < m) (he : e ≤ 971) :
    (Interval.around m e).Contains ((shortest m e).1 * 10 ^ (shortest m e).2) := by
  have hden : 0 < (Interval.around m e).den := Nat.pow_pos (by decide)
  have hmin : minExponent = -1074 := rfl
  have hlog : m.log2 ≤ 52 := by
    have := (Nat.log2_lt (Nat.ne_of_gt hpos)).mpr hc.lt
    omega
  have hle := hc.le
  refine Interval.descend_contains hden (n := 24) (by decide) (Interval.multiple?_isSome hden ?_ ?_)
  · exact Nat.mul_le_mul_right _ (Nat.sub_le _ _)
  · have hgap : ((Interval.around m e).high : ℚ) / (Interval.around m e).den -
        (Interval.around m e).value / (Interval.around m e).den = 2 ^ (e - 1) := by
      rw [← sub_div, show e - 1 = 1 + (e - 2) by ring, zpow_add₀ (by norm_num), ← quarter_eq,
        ← mul_div_assoc]
      congr 1
      simp only [Interval.around]
      push_cast
      ring
    rw [hgap]
    apply ten_zpow_lt_two_zpow <;> unfold decimalCeiling <;> omega

/-! ### Digits -/

/-- The byte of a digit character. -/
theorem toNat_byte_digit {n : Nat} {c : Char} (hc : c ∈ Nat.toDigits 10 n) :
    48 ≤ c.toNat ∧ c.toNat ≤ 57 ∧ (Text.byte c).toNat = c.toNat := by
  have hdigit := Nat.isDigit_of_mem_toDigits (by decide) (by decide) hc
  rw [Char.isDigit_iff_toNat] at hdigit
  have hzero : '0'.toNat = 48 := rfl
  have hnine : '9'.toNat = 57 := rfl
  refine ⟨by omega, by omega, ?_⟩
  simp only [Text.byte, Nat.toUInt8_eq, UInt8.toNat_ofNat']
  omega

theorem isDigit_of_mem_ofNat {n : Nat} {b : UInt8} (h : b ∈ Text.ofNat n) : isDigit b = true := by
  obtain ⟨c, hc, rfl⟩ := List.mem_map.mp h
  obtain ⟨hlow, hhigh, hbyte⟩ := toNat_byte_digit hc
  simp only [isDigit, Bool.and_eq_true, decide_eq_true_eq, UInt8.le_iff_toNat_le, hbyte]
  exact ⟨hlow, hhigh⟩

theorem isDigit_of_mem_zeros {n : Nat} {b : UInt8} (h : b ∈ List.replicate n 48) :
    isDigit b = true := by
  rw [List.eq_of_mem_replicate h]
  rfl

theorem ofNat_ne_nil (n : Nat) : Text.ofNat n ≠ [] := by
  simp [Text.ofNat, Nat.toDigits_ne_nil]

theorem digitsValue_append (ds es : Text) :
    digitsValue (ds ++ es) = digitsValue ds * 10 ^ es.length + digitsValue es := by
  have key : ∀ (es : Text) (n : Nat), es.foldl (fun n b => 10 * n + (b.toNat - 48)) n =
      n * 10 ^ es.length + digitsValue es := by
    intro es
    induction es with
    | nil => simp [digitsValue]
    | cons b es ih =>
      intro n
      have hcons : digitsValue (b :: es) =
          (10 * 0 + (b.toNat - 48)) * 10 ^ es.length + digitsValue es := ih _
      rw [List.foldl_cons, ih, hcons, List.length_cons, pow_succ]
      ring
  rw [digitsValue, List.foldl_append, key]
  rfl

theorem digitsValue_zeros (n : Nat) : digitsValue (List.replicate n 48) = 0 := by
  induction n with
  | zero => rfl
  | succ n ih =>
    rw [List.replicate_succ', digitsValue_append, ih]
    rfl

/-- A decimal numeral has the value that it was written for. -/
theorem digitsValue_ofNat (n : Nat) : digitsValue (Text.ofNat n) = n := by
  have key : ∀ (cs : List Char) (k : Nat), (∀ c ∈ cs, (Text.byte c).toNat = c.toNat) →
      (cs.map Text.byte).foldl (fun n b => 10 * n + (b.toNat - 48)) k =
        Nat.ofDigitChars 10 cs k := by
    intro cs
    induction cs with
    | nil => intros; rfl
    | cons c cs ih =>
      intro k h
      rw [List.map_cons, List.foldl_cons, h c List.mem_cons_self, Nat.ofDigitChars_cons]
      exact ih _ fun d hd => h d (List.mem_cons_of_mem _ hd)
  rw [digitsValue, Text.ofNat, key _ _ fun c hc => (toNat_byte_digit hc).2.2,
    Nat.ofDigitChars_ten_toDigits]

/-! ### Positional notation -/

theorem takeWhile_digits {ds : Text} (hds : ∀ b ∈ ds, isDigit b = true) (rest : Text)
    (hrest : ∀ b ∈ rest.head?, isDigit b = false) :
    (ds ++ rest).takeWhile isDigit = ds ∧ (ds ++ rest).dropWhile isDigit = rest := by
  induction ds with
  | nil =>
    cases rest with
    | nil => simp
    | cons b rest => simp [hrest b (by simp)]
  | cons b ds ih =>
    obtain ⟨htake, hdrop⟩ := ih fun c hc => hds c (List.mem_cons_of_mem _ hc)
    simp [hds b List.mem_cons_self, htake, hdrop]

/-- The value of digits without a point. -/
theorem fixedPoint_digits {ds : Text} (hds : ∀ b ∈ ds, isDigit b = true) :
    fixedPoint ds = (digitsValue ds, 0) := by
  obtain ⟨htake, hdrop⟩ := takeWhile_digits hds [] (by simp)
  rw [List.append_nil] at htake hdrop
  simp [fixedPoint, htake, hdrop]

/-- The value of digits with a point. -/
theorem fixedPoint_point {ds es : Text} (hds : ∀ b ∈ ds, isDigit b = true)
    (hes : ∀ b ∈ es, isDigit b = true) :
    fixedPoint (ds ++ Text.byte '.' :: es) = (digitsValue (ds ++ es), -(es.length : Int)) := by
  obtain ⟨htake, hdrop⟩ := takeWhile_digits hds (Text.byte '.' :: es) (by
    intro b hb
    cases hb
    rfl)
  obtain ⟨htake', -⟩ := takeWhile_digits hes [] (by simp)
  rw [List.append_nil] at htake'
  simp [fixedPoint, htake, hdrop, htake']

/-- **Positional notation keeps the value.** -/
theorem fixedPoint_positional (k : Nat) (e : Int) :
    ((fixedPoint (positional k e)).1 : ℚ) * 10 ^ (fixedPoint (positional k e)).2 = k * 10 ^ e := by
  have hdigits : ∀ b ∈ Text.ofNat k, isDigit b = true := fun b => isDigit_of_mem_ofNat
  have hzeros : ∀ (n : Nat), ∀ b ∈ List.replicate n 48, isDigit b = true :=
    fun n b => isDigit_of_mem_zeros
  unfold positional
  split
  · next he =>
    obtain ⟨n, rfl⟩ := Int.eq_ofNat_of_zero_le he
    rw [fixedPoint_digits (by simp only [List.forall_mem_append]; exact ⟨hdigits, hzeros _⟩),
      digitsValue_append, digitsValue_zeros, digitsValue_ofNat]
    simp
  · next he =>
    obtain ⟨n, rfl⟩ : ∃ n : Nat, e = -(n : Int) := ⟨(-e).toNat, by omega⟩
    simp only [neg_neg, Int.toNat_natCast]
    split
    · next hlt =>
      rw [fixedPoint_point (fun b hb => hdigits b (List.mem_of_mem_take hb))
        (fun b hb => hdigits b (List.mem_of_mem_drop hb)), List.take_append_drop,
        digitsValue_ofNat, List.length_drop]
      rw [show (Text.ofNat k).length - ((Text.ofNat k).length - n) = n by omega]
    · next hge =>
      have hsplit (zeros : Text) : utf8 "0." ++ zeros ++ Text.ofNat k =
          [48] ++ Text.byte '.' :: (zeros ++ Text.ofNat k) := rfl
      rw [hsplit, fixedPoint_point (List.forall_mem_singleton.mpr rfl)
        (by simp only [List.forall_mem_append]; exact ⟨hzeros _, hdigits⟩), digitsValue_append,
        digitsValue_append, digitsValue_zeros, digitsValue_ofNat, List.length_append,
        List.length_replicate, show n - (Text.ofNat k).length + (Text.ofNat k).length = n by omega]
      simp [digitsValue]

/-- The quotient that digits times a power of ten stand for. -/
theorem decimalRatio_spec (k : Nat) (e : Int) :
    0 < (decimalRatio k e).2 ∧
      ((decimalRatio k e).1 : ℚ) / (decimalRatio k e).2 = k * 10 ^ e := by
  unfold decimalRatio
  split
  · next he =>
    obtain ⟨n, rfl⟩ := Int.eq_ofNat_of_zero_le he
    simp [power_eq]
  · next he =>
    obtain ⟨n, rfl⟩ : ∃ n : Nat, e = -(n : Int) := ⟨(-e).toNat, by omega⟩
    refine ⟨Nat.pow_pos (by decide), ?_⟩
    simp [power_eq, div_eq_mul_inv]

/-- **The text of a number reads back.** For every finite number that is not negative the
text is a numeral with that number as its value. -/
theorem numeralValue?_toText {n : Nat} (h : n < infinityBits) :
    Piece.numeralValue? (toText (ofBits false n)) = some (ofBits false n) := by
  obtain ⟨m, e, hfloat, hc, he, hn⟩ := ofFloat?_ofBits h
  unfold toText
  rw [if_neg (Bool.eq_false_iff.mp (toBits_ofBits h).2), hfloat]
  simp only [Bool.false_eq_true, if_false]
  rcases Nat.eq_zero_or_pos m with rfl | hm
  · obtain rfl := hc.full.resolve_right (by decide)
    obtain rfl : n = 0 := by simpa using hn
    decide +kernel
  · have hin := shortest_contains hc hm he
    rw [← fixedPoint_positional] at hin
    obtain ⟨hden, hratio⟩ := decimalRatio_spec
      (fixedPoint (positional (shortest m e).1 (shortest m e).2)).1
      (fixedPoint (positional (shortest m e).1 (shortest m e).2)).2
    rw [← hratio] at hin
    have hbits := nearestBits?_of_contains hc hden hin (by omega)
    unfold magnitudeText Piece.numeralValue?
    rw [if_neg (Nat.ne_of_gt hm)]
    simp only [hbits, Option.map_some, ← hn]

/-! ### Shape -/

/-- Texts that start with a digit and hold only digits and points. -/
def IsNumeral (t : Text) : Prop :=
  (∃ b rest, t = b :: rest ∧ isDigit b = true) ∧ ∀ b ∈ t, isDigit b = true ∨ b = Text.byte '.'

theorem isNumeral_append {ds rest : Text} (hne : ds ≠ []) (hds : ∀ b ∈ ds, isDigit b = true)
    (hrest : ∀ b ∈ rest, isDigit b = true ∨ b = Text.byte '.') : IsNumeral (ds ++ rest) := by
  obtain ⟨b, more, rfl⟩ := List.exists_cons_of_ne_nil hne
  refine ⟨⟨b, more ++ rest, rfl, hds b List.mem_cons_self⟩, fun c hc => ?_⟩
  rcases List.mem_append.mp hc with hc | hc
  · exact .inl (hds c hc)
  · exact hrest c hc

theorem isNumeral_positional (k : Nat) (e : Int) : IsNumeral (positional k e) := by
  have hdigits : ∀ b ∈ Text.ofNat k, isDigit b = true := fun b => isDigit_of_mem_ofNat
  have hzeros : ∀ (n : Nat), ∀ b ∈ List.replicate n 48, isDigit b = true :=
    fun n b => isDigit_of_mem_zeros
  unfold positional
  simp only
  split
  · exact isNumeral_append (ofNat_ne_nil k) hdigits fun b hb => .inl (hzeros _ b hb)
  · split
    · next hlt =>
      refine isNumeral_append ?_ (fun b hb => hdigits b (List.mem_of_mem_take hb)) ?_
      · rw [ne_eq, List.take_eq_nil_iff]
        exact fun hnil => hnil.elim (by omega) (ofNat_ne_nil k)
      · rw [List.forall_mem_cons]
        exact ⟨.inr rfl, fun b hb => .inl (hdigits b (List.mem_of_mem_drop hb))⟩
    · rw [List.append_assoc, show utf8 "0." = [48] ++ [Text.byte '.'] from rfl, List.append_assoc]
      refine isNumeral_append (by simp) (List.forall_mem_singleton.mpr rfl) ?_
      simp only [List.forall_mem_append, List.forall_mem_singleton]
      exact ⟨by simp, fun b hb => .inl (hzeros _ b hb), fun b hb => .inl (hdigits b hb)⟩

/-- The text of a finite number that is not negative is a numeral. -/
theorem isNumeral_toText {n : Nat} (h : n < infinityBits) :
    IsNumeral (toText (ofBits false n)) := by
  obtain ⟨m, e, hfloat, -⟩ := ofFloat?_ofBits h
  unfold toText
  rw [if_neg (Bool.eq_false_iff.mp (toBits_ofBits h).2), hfloat]
  simp only [Bool.false_eq_true, if_false]
  unfold magnitudeText
  split
  · exact ⟨⟨_, [], rfl, rfl⟩, List.forall_mem_singleton.mpr (.inl rfl)⟩
  · exact isNumeral_positional _ _

end Badger.Number
