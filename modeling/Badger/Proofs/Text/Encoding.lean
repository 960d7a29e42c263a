import Badger.Proofs.Text.Unquote

/-!
# Encoded characters read back

A character that is written out as UTF-8 is read as that character, whatever text follows it.

## Main definitions

* `Rune.ofChar`: a character as the rune that stands for it in a well-formed text
* `Rune.encodeAll`: the text of some characters

## Main statements

* `Rune.read_encode`: **reading undoes encoding** for one character
* `Rune.all_encodeAll`: the runes of the text of some characters are those of the characters
-/

namespace Badger

namespace Rune

/-- The rune of a character in a well-formed text. -/
def ofChar (c : Char) : Rune := ⟨c, encode c⟩

@[simp] theorem ofChar_char (c : Char) : (ofChar c).char = c := rfl

@[simp] theorem ofChar_raw (c : Char) : (ofChar c).raw = encode c := rfl

/-- **The text of some characters.** These are the texts that are valid UTF-8. -/
def encodeAll (cs : List Char) : Text := cs.flatMap encode

@[simp] theorem encodeAll_nil : encodeAll [] = [] := rfl

@[simp] theorem encodeAll_cons (c : Char) (cs : List Char) :
    encodeAll (c :: cs) = encode c ++ encodeAll cs := rfl

@[simp] theorem encodeAll_append (cs ds : List Char) :
    encodeAll (cs ++ ds) = encodeAll cs ++ encodeAll ds := List.flatMap_append

/-! ### The bytes that a sequence may have -/

theorem isTail_ofNat {n : Nat} (h : n < 64) : isTail (UInt8.ofNat (n + 128)) = true := by
  simp only [isTail, UInt8.le_iff_toNat_le, UInt8.toNat_ofNat', Bool.and_eq_true,
    decide_eq_true_eq, UInt8.reduceToNat]
  omega

theorem tailBits_ofNat {n : Nat} (h : n < 64) : tailBits (UInt8.ofNat (n + 128)) = n := by
  rw [tailBits, UInt8.toNat_ofNat']
  omega

/-- The second byte of a sequence: the first byte of overlong forms, of surrogates and of numbers
above the last character leaves only part of the later bytes. -/
theorem isSecond_ofNat {lead n : Nat} (hlead : lead < 256) (h : n < 64)
    (hthree : lead = 224 → 32 ≤ n) (hsurrogate : lead = 237 → n < 32)
    (hfour : lead = 240 → 16 ≤ n) (hlast : lead = 244 → n < 16) :
    isSecond (UInt8.ofNat lead) (UInt8.ofNat (n + 128)) = true := by
  have htoNat : (UInt8.ofNat lead).toNat = lead := by
    rw [UInt8.toNat_ofNat']
    omega
  unfold isSecond
  simp only [← UInt8.toNat_inj, htoNat, UInt8.reduceToNat]
  split_ifs
  all_goals first
    | simp only [UInt8.le_iff_toNat_le, UInt8.toNat_ofNat', Bool.and_eq_true, decide_eq_true_eq,
        UInt8.reduceToNat]
      omega
    | exact isTail_ofNat h

theorem sequenceLength_ofNat {n : Nat} (h : n < 256) :
    sequenceLength (UInt8.ofNat n) =
      if n < 128 then 1 else if n < 194 then 0 else if n < 224 then 2 else if n < 240 then 3
      else if n < 245 then 4 else 0 := by
  have htoNat : (UInt8.ofNat n).toNat = n := by
    rw [UInt8.toNat_ofNat']
    omega
  unfold sequenceLength
  simp only [UInt8.lt_iff_toNat_lt, htoNat, UInt8.reduceToNat]

/-! ### Reading -/

/-- **Reading undoes encoding.** -/
theorem read_encode (c : Char) (rest : Text) :
    ∃ lead more, encode c = lead :: more ∧ read lead (more ++ rest) = (c, more.length) := by
  have hvalid : c.toNat.isValidChar := c.valid
  have hchar : Char.ofNat c.toNat = c := Char.ofNat_toNat c
  generalize c.toNat = n at hvalid hchar
  subst hchar
  have hbounds : n < 55296 ∨ 57343 < n ∧ n < 1114112 := hvalid
  rcases Nat.lt_or_ge n 128 with hone | hone
  · refine ⟨_, _, encode_one hone, ?_⟩
    unfold read
    rw [sequenceLength_ofNat (by omega), if_pos hone]
    simp only [UInt8.toNat_ofNat', List.length_nil]
    rw [Nat.mod_eq_of_lt (by omega)]
  rcases Nat.lt_or_ge n 2048 with htwo | htwo
  · refine ⟨_, _, encode_two hone htwo, ?_⟩
    have hsecond : isSecond (UInt8.ofNat (n / 64 % 32 + 192)) (UInt8.ofNat (n % 64 + 128)) = true :=
      isSecond_ofNat (by omega) (by omega) (by omega) (by omega) (by omega) (by omega)
    unfold read
    rw [sequenceLength_ofNat (by omega), if_neg (by omega), if_neg (by omega),
      if_pos (by omega)]
    simp only [List.cons_append, hsecond, if_true, tailBits_ofNat (Nat.mod_lt n (by omega)),
      UInt8.toNat_ofNat', List.length_cons, List.length_nil, Prod.mk.injEq, and_true]
    congr 1
    omega
  rcases Nat.lt_or_ge n 65536 with hthree | hthree
  · refine ⟨_, _, encode_three hvalid htwo hthree, ?_⟩
    have hsecond : isSecond (UInt8.ofNat (n / 4096 % 16 + 224))
        (UInt8.ofNat (n / 64 % 64 + 128)) = true :=
      isSecond_ofNat (by omega) (by omega) (by omega) (by omega) (by omega) (by omega)
    have htail : isTail (UInt8.ofNat (n % 64 + 128)) = true := isTail_ofNat (by omega)
    unfold read
    rw [sequenceLength_ofNat (by omega), if_neg (by omega), if_neg (by omega),
      if_neg (by omega), if_pos (by omega)]
    simp only [List.cons_append, hsecond, htail, Bool.and_self, if_true,
      tailBits_ofNat (Nat.mod_lt n (by omega)), tailBits_ofNat (Nat.mod_lt (n / 64) (by omega)),
      UInt8.toNat_ofNat', List.length_cons, List.length_nil, Prod.mk.injEq, and_true]
    congr 1
    omega
  · refine ⟨_, _, encode_four hvalid hthree, ?_⟩
    have hsecond : isSecond (UInt8.ofNat (n / 262144 % 8 + 240))
        (UInt8.ofNat (n / 4096 % 64 + 128)) = true :=
      isSecond_ofNat (by omega) (by omega) (by omega) (by omega) (by omega) (by omega)
    have htail : isTail (UInt8.ofNat (n / 64 % 64 + 128)) = true := isTail_ofNat (by omega)
    have htail' : isTail (UInt8.ofNat (n % 64 + 128)) = true := isTail_ofNat (by omega)
    unfold read
    rw [sequenceLength_ofNat (by omega), if_neg (by omega), if_neg (by omega),
      if_neg (by omega), if_neg (by omega), if_pos (by omega)]
    simp only [List.cons_append, hsecond, htail, htail', Bool.and_self, if_true,
      tailBits_ofNat (Nat.mod_lt n (by omega)), tailBits_ofNat (Nat.mod_lt (n / 64) (by omega)),
      tailBits_ofNat (Nat.mod_lt (n / 4096) (by omega)),
      UInt8.toNat_ofNat', List.length_cons, List.length_nil, Prod.mk.injEq, and_true]
    congr 1
    omega

theorem afterSkip_length (bs rest : Text) : afterSkip bs.length (bs ++ rest) = all rest := by
  induction bs with
  | nil => rfl
  | cons b bs ih => exact ih

/-- A character that is written out in front of a text is the first rune of it. -/
theorem all_encode (c : Char) (rest : Text) : all (encode c ++ rest) = ofChar c :: all rest := by
  obtain ⟨lead, more, hencode, hread⟩ := read_encode c rest
  rw [ofChar, hencode, List.cons_append, all, afterSkip_zero, hread, List.take_left,
    afterSkip_length]

/-- **The runes of the text of some characters**, in front of any text. -/
theorem all_encodeAll (cs : List Char) (rest : Text) :
    all (encodeAll cs ++ rest) = cs.map ofChar ++ all rest := by
  induction cs with
  | nil => rfl
  | cons c cs ih => rw [encodeAll_cons, List.append_assoc, all_encode, ih, List.map_cons,
      List.cons_append]

@[simp] theorem bytes_map_ofChar (cs : List Char) : bytes (cs.map ofChar) = encodeAll cs := by
  induction cs with
  | nil => rfl
  | cons c cs ih => rw [List.map_cons, bytes_cons, ih, encodeAll_cons, ofChar]

end Rune

end Badger
