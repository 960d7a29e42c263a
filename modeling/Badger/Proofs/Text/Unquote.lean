import Mathlib.Algebra.Group.Nat.Defs
import Badger.Number.Numeral
import Badger.Proofs.Token.Stream
import Badger.Text.Quoted

/-!
# Quoted text reads back

A text between quotation marks is written with escape sequences. Undoing them gives the text
again, whatever its bytes are, so quoted texts are equal only if the texts are.

## Main definitions

* `Quoted.unescape?`: the text that stands before a closing quotation mark
* `Quoted.read?`: the text between two quotation marks

## Main statements

* `Rune.raw_eq_encode`: a well-formed sequence is the encoding of its character
* `Quoted.read?_text`: **every quoted text reads back**
* `Quoted.passable_piece`: no mark inside a quoted text is taken for the closing one

## Design notes

What is written for a rune has one of two shapes (`Quoted.Passable`): bytes that stand for
themselves, among them neither a quotation mark nor a backslash, or a backslash, a byte that
may be either, and then only hexadecimal digits. A reader that looks for the closing mark
only has to skip the byte after each backslash.
-/

namespace Badger

/-! ## Encoding -/

namespace Rune

theorem toNat_ofNat {n : Nat} (h : n.isValidChar) : (Char.ofNat n).toNat = n := by
  rw [Char.ofNat, dif_pos h]
  rfl

/-- Later bytes of a sequence are told from all others. -/
theorem toNat_of_isTail {b : UInt8} (h : isTail b = true) : 128 ≤ b.toNat ∧ b.toNat < 192 := by
  simp [isTail, UInt8.le_iff_toNat_le] at h
  omega

/-- The second byte also rules out surrogates and numbers above the last character. -/
theorem toNat_of_isSecond {lead b : UInt8} (h : isSecond lead b = true) :
    (128 ≤ b.toNat ∧ b.toNat < 192) ∧ (lead.toNat = 237 → b.toNat < 160) ∧
      (lead.toNat = 244 → b.toNat < 144) := by
  refine ⟨?_, fun hlead => ?_, fun hlead => ?_⟩
  · unfold isSecond at h
    split_ifs at h
    all_goals first
      | exact toNat_of_isTail h
      | simp [UInt8.le_iff_toNat_le] at h
        omega
  · have heq : lead = 0xED := UInt8.toNat_inj.mp hlead
    simp [isSecond, heq, UInt8.le_iff_toNat_le] at h
    omega
  · have heq : lead = 0xF4 := UInt8.toNat_inj.mp hlead
    simp [isSecond, heq, UInt8.le_iff_toNat_le] at h
    omega

theorem eq_ofNat_of_toNat {b : UInt8} {n : Nat} (h : b.toNat = n) : b = UInt8.ofNat n := by
  rw [← h, UInt8.ofNat_toNat]

section Encode

variable {n : Nat}

theorem encode_one (h : n < 128) : encode (Char.ofNat n) = [UInt8.ofNat n] := by
  have hchar : (Char.ofNat n).val.toNat = n := toNat_ofNat (.inl (by omega))
  simp only [encode, String.utf8EncodeChar, hchar]
  rw [if_pos (by omega)]

theorem encode_two (hlow : 128 ≤ n) (hhigh : n < 2048) :
    encode (Char.ofNat n) = [UInt8.ofNat (n / 64 % 32 + 192), UInt8.ofNat (n % 64 + 128)] := by
  have hchar : (Char.ofNat n).val.toNat = n := toNat_ofNat (.inl (by omega))
  simp only [encode, String.utf8EncodeChar, hchar]
  rw [if_neg (by omega), if_pos (by omega)]

theorem encode_three (hvalid : n.isValidChar) (hlow : 2048 ≤ n) (hhigh : n < 65536) :
    encode (Char.ofNat n) = [UInt8.ofNat (n / 4096 % 16 + 224), UInt8.ofNat (n / 64 % 64 + 128),
      UInt8.ofNat (n % 64 + 128)] := by
  have hchar : (Char.ofNat n).val.toNat = n := toNat_ofNat hvalid
  simp only [encode, String.utf8EncodeChar, hchar]
  rw [if_neg (by omega), if_neg (by omega), if_pos (by omega)]

theorem encode_four (hvalid : n.isValidChar) (hlow : 65536 ≤ n) :
    encode (Char.ofNat n) = [UInt8.ofNat (n / 262144 % 8 + 240),
      UInt8.ofNat (n / 4096 % 64 + 128), UInt8.ofNat (n / 64 % 64 + 128),
      UInt8.ofNat (n % 64 + 128)] := by
  have hchar : (Char.ofNat n).val.toNat = n := toNat_ofNat hvalid
  simp only [encode, String.utf8EncodeChar, hchar]
  rw [if_neg (by omega), if_neg (by omega), if_neg (by omega)]

end Encode

/-- **A well-formed sequence is the encoding of its character**; otherwise the replacement
character stands for one byte. -/
theorem read_eq_encode (lead : UInt8) (rest : Text) :
    read lead rest = (replacement, 0) ∨
      lead :: rest.take (read lead rest).2 = encode (read lead rest).1 := by
  obtain ⟨hone, htwo, hthree, hfour⟩ := lead_bounds lead
  unfold read
  split
  · next hlength =>
    refine .inr ?_
    rw [encode_one (hone hlength), UInt8.ofNat_toNat, List.take_zero]
  · next b more hlength =>
    have hlead := htwo hlength
    split
    · next hsecond =>
      obtain ⟨hb, -, -⟩ := toNat_of_isSecond hsecond
      unfold tailBits
      refine .inr ?_
      rw [encode_two (by omega) (by omega), List.take_succ_cons, List.take_zero]
      simp only [List.cons.injEq, and_true]
      refine ⟨eq_ofNat_of_toNat ?_, eq_ofNat_of_toNat ?_⟩ <;> omega
    · exact .inl rfl
  · next b c more hlength =>
    have hlead := hthree hlength
    split
    · next hsecond =>
      obtain ⟨hsecond, htail⟩ := Bool.and_eq_true_iff.mp hsecond
      obtain ⟨hb, hsurrogate, -⟩ := toNat_of_isSecond hsecond
      have hc := toNat_of_isTail htail
      have hbits := (tailBits_of_isSecond hsecond).1
      unfold tailBits at hbits ⊢
      refine .inr ?_
      rw [encode_three (by unfold Nat.isValidChar; omega) (by omega) (by omega),
        List.take_succ_cons, List.take_succ_cons, List.take_zero]
      simp only [List.cons.injEq, and_true]
      refine ⟨eq_ofNat_of_toNat ?_, eq_ofNat_of_toNat ?_, eq_ofNat_of_toNat ?_⟩ <;> omega
    · exact .inl rfl
  · next b c d more hlength =>
    have hlead := hfour hlength
    split
    · next hsecond =>
      obtain ⟨hsecond, htail'⟩ := Bool.and_eq_true_iff.mp hsecond
      obtain ⟨hsecond, htail⟩ := Bool.and_eq_true_iff.mp hsecond
      obtain ⟨hb, -, hlast⟩ := toNat_of_isSecond hsecond
      have hc := toNat_of_isTail htail
      have hd := toNat_of_isTail htail'
      have hbits := (tailBits_of_isSecond hsecond).2
      unfold tailBits at hbits ⊢
      refine .inr ?_
      rw [encode_four (by unfold Nat.isValidChar; omega) (by omega),
        List.take_succ_cons, List.take_succ_cons, List.take_succ_cons, List.take_zero]
      simp only [List.cons.injEq, and_true]
      refine ⟨eq_ofNat_of_toNat ?_, eq_ofNat_of_toNat ?_, eq_ofNat_of_toNat ?_,
        eq_ofNat_of_toNat ?_⟩ <;> omega
    · exact .inl rfl
  · exact .inl rfl

theorem raw_of_mem_afterSkip {skip : Nat} {t : Text} {r : Rune} (h : r ∈ afterSkip skip t) :
    (∃ b, r.raw = [b] ∧ r.isInvalid = true) ∨ r.raw = encode r.char := by
  induction t generalizing skip with
  | nil => simp at h
  | cons b rest ih =>
      cases skip with
      | succ skip => exact ih h
      | zero =>
          rw [afterSkip_zero, List.mem_cons] at h
          rcases h with rfl | h
          · refine (read_eq_encode b rest).imp (fun hread => ⟨b, ?_⟩) id
            simp [hread, isInvalid]
          · exact ih h

/-- **The bytes of a rune**: one byte outside every well-formed sequence, or the encoding of
its character. -/
theorem raw_eq_encode {t : Text} {r : Rune} (h : r ∈ all t) :
    (∃ b, r.raw = [b] ∧ r.isInvalid = true) ∨ r.raw = encode r.char :=
  raw_of_mem_afterSkip h

theorem encode_ascii {c : Char} (h : c.toNat < 128) : encode c = [Text.byte c] := by
  have hencode := encode_one h
  rw [Char.ofNat_toNat] at hencode
  exact hencode

/-- A character that is not an ASCII character is encoded without ASCII bytes. -/
theorem encode_wide {c : Char} (h : 128 ≤ c.toNat) {b : UInt8} (hb : b ∈ encode c) :
    128 ≤ b.toNat := by
  have hc : 128 ≤ c.val.toNat := h
  unfold encode String.utf8EncodeChar at hb
  simp only at hb
  rw [if_neg (by omega)] at hb
  split_ifs at hb
  all_goals
    simp only [List.mem_cons, List.not_mem_nil, or_false] at hb
    rcases hb with rfl | rfl | rfl | rfl <;> simp only [UInt8.toNat_ofNat'] <;> omega

theorem read_ascii {lead : UInt8} (h : lead.toNat < 128) (rest : Text) :
    read lead rest = (Char.ofNat lead.toNat, 0) := by
  have hlength : sequenceLength lead = 1 := if_pos (UInt8.lt_iff_toNat_lt.mpr h)
  unfold read
  simp only [hlength]

theorem ascii_or_wide_of_mem_afterSkip {skip : Nat} {t : Text} {r : Rune}
    (h : r ∈ afterSkip skip t) :
    (r.char.toNat < 128 ∧ r.raw = [Text.byte r.char]) ∨
      (128 ≤ r.char.toNat ∧ ∀ b ∈ r.raw, 128 ≤ b.toNat) := by
  induction t generalizing skip with
  | nil => simp at h
  | cons lead rest ih =>
    cases skip with
    | succ skip => exact ih h
    | zero =>
      rw [afterSkip_zero, List.mem_cons] at h
      rcases h with rfl | h
      · rcases Nat.lt_or_ge lead.toNat 128 with hlt | hge
        · have hnat := toNat_ofNat (n := lead.toNat) (.inl (by omega))
          refine .inl ?_
          simp [read_ascii hlt, Text.byte, hnat, hlt]
        rcases read_eq_encode lead rest with hread | hencode
        · refine .inr ?_
          rw [hread]
          have hreplacement : 128 ≤ replacement.toNat := by decide
          exact ⟨hreplacement, List.forall_mem_singleton.mpr hge⟩
        · dsimp only
          rw [hencode]
          refine (Nat.lt_or_ge (read lead rest).1.toNat 128).imp (fun hlt => ?_) fun hwide => ?_
          · exact ⟨hlt, encode_ascii hlt⟩
          · exact ⟨hwide, fun _ => encode_wide hwide⟩
      · exact ih h

/-- **A rune is an ASCII character or free of ASCII bytes.** -/
theorem ascii_or_wide {t : Text} {r : Rune} (h : r ∈ all t) :
    (r.char.toNat < 128 ∧ r.raw = [Text.byte r.char]) ∨
      (128 ≤ r.char.toNat ∧ ∀ b ∈ r.raw, 128 ≤ b.toNat) :=
  ascii_or_wide_of_mem_afterSkip h

end Rune

/-! ## Reading quoted text -/

namespace Quoted

/-- The byte that a letter after a backslash stands for, or the byte itself. -/
def control (b : UInt8) : UInt8 :=
  if b = Text.byte 'a' then 0x07
  else if b = Text.byte 'b' then 0x08
  else if b = Text.byte 'f' then 0x0C
  else if b = Text.byte 'n' then 0x0A
  else if b = Text.byte 'r' then 0x0D
  else if b = Text.byte 't' then 0x09
  else if b = Text.byte 'v' then 0x0B
  else b

/-- The text that stands before a closing quotation mark, which has to come last. -/
def unescape? : Text → Option Text
  | [] => none
  | 34 :: rest => if rest.isEmpty then some [] else none
  | 92 :: 120 :: a :: b :: rest =>
    (unescape? rest).map ((Number.hexDigitsValue [a, b]).toUInt8 :: ·)
  | 92 :: 117 :: a :: b :: c :: d :: rest =>
    (unescape? rest).map (Rune.encode (Char.ofNat (Number.hexDigitsValue [a, b, c, d])) ++ ·)
  | 92 :: 85 :: a :: b :: c :: d :: e :: f :: g :: h :: rest =>
    (unescape? rest).map
      (Rune.encode (Char.ofNat (Number.hexDigitsValue [a, b, c, d, e, f, g, h])) ++ ·)
  | 92 :: b :: rest => (unescape? rest).map (control b :: ·)
  | b :: rest => (unescape? rest).map (b :: ·)

/-- **Reading quoted text**: what stands between two double quotes, its escape sequences
undone. -/
def read? : Text → Option Text
  | 34 :: rest => unescape? rest
  | _ => none

/-! ### Steps of the reader -/

theorem unescape?_self {b : UInt8} (hquote : b ≠ 34) (hescape : b ≠ 92) (rest : Text) :
    unescape? (b :: rest) = (unescape? rest).map (b :: ·) := by
  rw [unescape?] <;> simp_all

theorem unescape?_selves {bs : Text} (h : ∀ b ∈ bs, b ≠ 34 ∧ b ≠ 92) (rest : Text) :
    unescape? (bs ++ rest) = (unescape? rest).map (bs ++ ·) := by
  induction bs with
  | nil => simp
  | cons b bs ih =>
    rw [List.forall_mem_cons] at h
    rw [List.cons_append, unescape?_self h.1.1 h.1.2, ih h.2, Option.map_map]
    rfl

theorem unescape?_control {b : UInt8} (hx : b ≠ 120) (hu : b ≠ 117) (hU : b ≠ 85) (rest : Text) :
    unescape? (92 :: b :: rest) = (unescape? rest).map (control b :: ·) := by
  rw [unescape?] <;> simp_all

theorem unescape?_hex2 (a b : UInt8) (rest : Text) :
    unescape? (92 :: 120 :: a :: b :: rest) =
      (unescape? rest).map ((Number.hexDigitsValue [a, b]).toUInt8 :: ·) := by
  rw [unescape?]

theorem unescape?_hex4 (a b c d : UInt8) (rest : Text) :
    unescape? (92 :: 117 :: a :: b :: c :: d :: rest) =
      (unescape? rest).map
        (Rune.encode (Char.ofNat (Number.hexDigitsValue [a, b, c, d])) ++ ·) := by
  rw [unescape?]

theorem unescape?_hex8 (a b c d e f g h : UInt8) (rest : Text) :
    unescape? (92 :: 85 :: a :: b :: c :: d :: e :: f :: g :: h :: rest) =
      (unescape? rest).map
        (Rune.encode (Char.ofNat (Number.hexDigitsValue [a, b, c, d, e, f, g, h])) ++ ·) := by
  rw [unescape?]

/-! ### Hexadecimal digits -/

theorem hexDigit?_hexDigit {n : Nat} (h : n < 16) : Number.hexDigit? (hexDigit n) = some n := by
  have hall : ∀ n < 16, Number.hexDigit? (hexDigit n) = some n := by decide
  exact hall n h

theorem hexDigitsValue_hex (width : Nat) {n : Nat} (h : n < 16 ^ width) :
    Number.hexDigitsValue (hex width n) = n := by
  induction width generalizing n with
  | zero =>
    obtain rfl : n = 0 := by simpa using h
    rfl
  | succ width ih =>
    have hfirst : n / 16 < 16 ^ width :=
      Nat.div_lt_of_lt_mul (by rwa [Nat.pow_succ, Nat.mul_comm] at h)
    have hlast : n % 16 < 16 := Nat.mod_lt _ (by decide)
    have hvalue := ih hfirst
    unfold Number.hexDigitsValue at hvalue ⊢
    rw [hex_succ, List.foldl_append, hvalue, List.foldl_cons, List.foldl_nil,
      hexDigit?_hexDigit hlast, Option.getD_some]
    omega

theorem unescape?_byte {n : Nat} (h : n < 256) (rest : Text) :
    unescape? (escape (Text.byte 'x' :: hex 2 n) ++ rest) =
      (unescape? rest).map (n.toUInt8 :: ·) := by
  have hvalue := hexDigitsValue_hex 2 h
  simp only [hex_succ, hex_zero, List.nil_append, List.cons_append] at hvalue ⊢
  exact (unescape?_hex2 _ _ rest).trans (by rw [hvalue])

theorem unescape?_short {c : Char} (h : c.toNat < 0x10000) (rest : Text) :
    unescape? (escape (Text.byte 'u' :: hex 4 c.toNat) ++ rest) =
      (unescape? rest).map (Rune.encode c ++ ·) := by
  have hvalue := hexDigitsValue_hex 4 h
  simp only [hex_succ, hex_zero, List.nil_append, List.cons_append] at hvalue ⊢
  exact (unescape?_hex4 _ _ _ _ rest).trans (by rw [hvalue, Char.ofNat_toNat])

theorem unescape?_long (c : Char) (rest : Text) :
    unescape? (escape (Text.byte 'U' :: hex 8 c.toNat) ++ rest) =
      (unescape? rest).map (Rune.encode c ++ ·) := by
  have hvalue := hexDigitsValue_hex 8 (n := c.toNat) (by
    have hvalid : c.toNat.isValidChar := c.valid
    unfold Nat.isValidChar at hvalid
    omega)
  simp only [hex_succ, hex_zero, List.nil_append, List.cons_append] at hvalue ⊢
  exact (unescape?_hex8 _ _ _ _ _ _ _ _ rest).trans (by rw [hvalue, Char.ofNat_toNat])

/-! ### What is written for a rune -/

theorem unescape?_escapeChar (c : Char) (rest : Text) :
    unescape? (escapeChar c ++ rest) = (unescape? rest).map (Rune.encode c ++ ·) := by
  -- The bytes of a character below 128 are its number.
  have hbyte (n : Nat) (hn : n < 128) (hc : c.toNat = n) : Rune.encode c = [n.toUInt8] := by
    rw [Rune.encode_ascii (by omega), Text.byte, hc]
  unfold escapeChar
  simp only
  split_ifs with h7 h8 hC hA hD h9 hB hcontrol hshort
  · rw [hbyte _ (by decide) h7]
    exact unescape?_control (by decide) (by decide) (by decide) rest
  · rw [hbyte _ (by decide) h8]
    exact unescape?_control (by decide) (by decide) (by decide) rest
  · rw [hbyte _ (by decide) hC]
    exact unescape?_control (by decide) (by decide) (by decide) rest
  · rw [hbyte _ (by decide) hA]
    exact unescape?_control (by decide) (by decide) (by decide) rest
  · rw [hbyte _ (by decide) hD]
    exact unescape?_control (by decide) (by decide) (by decide) rest
  · rw [hbyte _ (by decide) h9]
    exact unescape?_control (by decide) (by decide) (by decide) rest
  · rw [hbyte _ (by decide) hB]
    exact unescape?_control (by decide) (by decide) (by decide) rest
  · have hlt : c.toNat < 128 := by
      simp only [Bool.or_eq_true, decide_eq_true_eq] at hcontrol
      omega
    rw [hbyte _ hlt rfl]
    exact unescape?_byte (by omega) rest
  · exact unescape?_short hshort rest
  · exact unescape?_long c rest

/-- A character other than the mark and the backslash is encoded without their bytes. -/
theorem encode_selves {c : Char} (hquote : c ≠ '"') (hescape : c ≠ '\\') {b : UInt8}
    (hb : b ∈ Rune.encode c) : b ≠ 34 ∧ b ≠ 92 := by
  rcases Nat.lt_or_ge c.toNat 128 with hlt | hge
  · rw [Rune.encode_ascii hlt, List.mem_singleton] at hb
    have hnat : b.toNat = c.toNat := by
      rw [hb, Text.byte, Nat.toUInt8_eq, UInt8.toNat_ofNat']
      omega
    constructor
    · rintro rfl
      exact hquote (Char.toNat_inj.mp hnat.symm)
    · rintro rfl
      exact hescape (Char.toNat_inj.mp hnat.symm)
  · have hwide := Rune.encode_wide hge hb
    constructor
    all_goals
      rintro rfl
      exact absurd hwide (by decide)

theorem unescape?_inner (c : Char) (rest : Text) :
    unescape? (inner '"' c ++ rest) = (unescape? rest).map (Rune.encode c ++ ·) := by
  unfold inner
  split_ifs with hmark hprintable
  · simp only [Bool.or_eq_true, decide_eq_true_eq] at hmark
    rcases hmark with rfl | rfl
    · exact unescape?_control (by decide) (by decide) (by decide) rest
    · exact unescape?_control (by decide) (by decide) (by decide) rest
  · simp only [Bool.or_eq_true, decide_eq_true_eq, not_or] at hmark
    exact unescape?_selves (fun b => encode_selves hmark.1 hmark.2) rest
  · exact unescape?_escapeChar c rest

/-- Reading undoes what is written for one rune of a text. -/
theorem unescape?_piece {t : Text} {r : Rune} (h : r ∈ Rune.all t) (rest : Text) :
    unescape? (piece '"' r ++ rest) = (unescape? rest).map (r.raw ++ ·) := by
  unfold piece
  split_ifs with hinvalid
  · rcases Rune.raw_eq_encode h with ⟨b, hraw, -⟩ | hraw
    · rw [hraw]
      have hbyte := unescape?_byte (UInt8.toNat_lt b) rest
      simpa using hbyte
    · -- The replacement character written out takes three bytes.
      simp only [Rune.isInvalid, Bool.and_eq_true, beq_iff_eq] at hinvalid
      rw [hraw, hinvalid.1] at hinvalid
      exact absurd hinvalid.2 (by decide)
  · rcases Rune.raw_eq_encode h with ⟨b, -, hvalid⟩ | hraw
    · exact absurd hvalid hinvalid
    · rw [hraw]
      exact unescape?_inner r.char rest

/-- **Every quoted text reads back.** -/
theorem read?_text (t : Text) : read? (text t) = some t := by
  have hpieces : ∀ (rs : List Rune), (∀ r ∈ rs, r ∈ Rune.all t) →
      unescape? ((rs.map (piece '"')).flatten ++ [Text.byte '"']) = some (Rune.bytes rs) := by
    intro rs
    induction rs with
    | nil => intro _; rfl
    | cons r rs ih =>
      intro h
      rw [List.forall_mem_cons] at h
      rw [List.map_cons, List.flatten_cons, List.append_assoc, unescape?_piece h.1, ih h.2]
      rfl
  have hall := hpieces (Rune.all t) fun r hr => hr
  rw [Rune.bytes_all] at hall
  exact hall

/-! ### Shapes -/

/-- What a reader of quoted text passes over in one go: bytes that stand for themselves, or
an escape sequence. -/
def Passable (t : Text) : Prop :=
  (∀ b ∈ t, b ≠ 34 ∧ b ≠ 92) ∨ ∃ b bs, t = 92 :: b :: bs ∧ ∀ c ∈ bs, c ≠ 34 ∧ c ≠ 92

theorem passable_hex (b : UInt8) (width n : Nat) : Passable (escape (b :: hex width n)) := by
  refine .inr ⟨b, hex width n, rfl, ?_⟩
  have hdigit : ∀ k < 16, hexDigit k ≠ 34 ∧ hexDigit k ≠ 92 := by decide
  induction width generalizing n with
  | zero => simp
  | succ width ih =>
    rw [hex_succ, List.forall_mem_append]
    refine ⟨ih _, fun c hc => ?_⟩
    rw [List.mem_singleton.mp hc]
    exact hdigit _ (Nat.mod_lt _ (by decide))

theorem passable_single (b : UInt8) : Passable (escape [b]) :=
  .inr ⟨b, [], rfl, by simp⟩

theorem passable_escapeChar (c : Char) : Passable (escapeChar c) := by
  unfold escapeChar
  simp only
  split_ifs
  all_goals first
    | exact passable_single _
    | exact passable_hex _ _ _

/-- **What is written for a rune** is passed over in one go. -/
theorem passable_piece (r : Rune) : Passable (piece '"' r) := by
  unfold piece
  split
  · exact passable_hex _ _ _
  · unfold inner
    split
    · next hmark =>
      simp only [Bool.or_eq_true, decide_eq_true_eq] at hmark
      rcases hmark with heq | heq <;> rw [heq] <;> exact passable_single _
    · next hmark =>
      simp only [Bool.or_eq_true, decide_eq_true_eq, not_or] at hmark
      split
      · exact .inl fun b => encode_selves hmark.1 hmark.2
      · exact passable_escapeChar r.char

end Quoted

end Badger
