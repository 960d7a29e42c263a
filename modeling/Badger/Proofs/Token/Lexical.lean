import Badger.Proofs.Text.Unquote
import Badger.Proofs.Token.Stream

/-!
# Names and numerals of a text

What the names and numerals among the tokens of a text look like.

## Main definitions

* `IsNameText`: texts that can be names, as far as their bytes go
* `Token.IsLexical`: names that are such texts and no keywords, and numbers that are finite and
  not negative

## Main statements

* `Piece.isLexical_token?`: the token of a piece is lexical
* `TokenStream.isLexical_ofText`: **so are all tokens of a text**

## Design notes

A name may hold letters and digits of any script. A character that is not an ASCII character is
encoded without ASCII bytes, so a name never holds a byte of a blank, of a quotation mark or of
an operator.
-/

namespace Badger

/-- Whether a byte can stand in a name: it belongs to a letter or digit of some script, or is an
underscore. -/
def isNameByte (b : UInt8) : Bool :=
  128 ≤ b.toNat || (65 ≤ b.toNat && b.toNat ≤ 90) || (97 ≤ b.toNat && b.toNat ≤ 122) ||
    b.toNat = 95 || Number.isDigit b

/-- **Texts of names**: of such bytes, and the first is not a digit. -/
def IsNameText (t : Text) : Prop :=
  (∃ b rest, t = b :: rest ∧ Number.isDigit b = false) ∧ ∀ b ∈ t, isNameByte b = true

/-- **Lexical tokens.** A name is the text of one and no keyword, and a number is finite and not
negative. -/
structure Token.IsLexical (t : Token) : Prop where
  name : t.kind = .ident → IsNameText t.lexeme ∧ t.lexeme ∉ TokenKind.keywords.map Prod.fst
  number : t.kind = .number → ∃ n < Number.infinityBits, t.number = Number.ofBits false n

namespace Piece

/-! ### Names -/

theorem toNat_byte {c : Char} (h : c.toNat < 128) : (Text.byte c).toNat = c.toNat := by
  rw [Text.byte, Nat.toUInt8_eq, UInt8.toNat_ofNat']
  omega

theorem isDigit_byte (b : UInt8) :
    Number.isDigit b = true ↔ 48 ≤ b.toNat ∧ b.toNat ≤ 57 := by
  simp [Number.isDigit, UInt8.le_iff_toNat_le]

/-- The numbers of ASCII letters. -/
theorem toNat_isAlpha {c : Char} (h : c.isAlpha = true) :
    (65 ≤ c.toNat ∧ c.toNat ≤ 90) ∨ (97 ≤ c.toNat ∧ c.toNat ≤ 122) := by
  have hcase : c.isUpper = true ∨ c.isLower = true := Bool.or_eq_true_iff.mp h
  have hupper (h : c.isUpper = true) : 65 ≤ c.toNat ∧ c.toNat ≤ 90 :=
    of_decide_eq_true (p := c.val ≥ 'A'.val ∧ c.val ≤ 'Z'.val) h
  have hlower (h : c.isLower = true) : 97 ≤ c.toNat ∧ c.toNat ≤ 122 :=
    (Bool.and_eq_true_iff.mp h).imp (of_decide_eq_true (p := c.val ≥ 'a'.val))
      (of_decide_eq_true (p := c.val ≤ 'z'.val))
  exact hcase.imp hupper hlower

/-- An ASCII character that continues a name is a letter, a digit or the underscore. -/
theorem isNameByte_of_continuesName {c : Char} (h : continuesName c = true) (hlt : c.toNat < 128) :
    isNameByte (Text.byte c) = true := by
  unfold isNameByte
  simp only [continuesName, CharClass.isLetter, CharClass.isDigit, if_pos hlt, Bool.or_eq_true,
    beq_iff_eq, Char.isDigit_iff_toNat] at h
  simp only [Bool.or_eq_true, Bool.and_eq_true, decide_eq_true_eq, isDigit_byte, toNat_byte hlt]
  have hzero : '0'.toNat = 48 := rfl
  have hnine : '9'.toNat = 57 := rfl
  rcases h with (halpha | hdigit) | rfl
  · have := toNat_isAlpha halpha
    omega
  · omega
  · decide

/-- The first character of a name is no digit. -/
theorem startsName_cases {c : Char} (h : startsName c = true) :
    continuesName c = true ∧ (c.toNat < 128 → Number.isDigit (Text.byte c) = false) := by
  simp only [startsName, Bool.or_eq_true, beq_iff_eq] at h
  refine ⟨?_, fun hlt => ?_⟩
  · simp only [continuesName, Bool.or_eq_true, beq_iff_eq]
    exact h.imp .inl id
  · rw [← Bool.not_eq_true, isDigit_byte, toNat_byte hlt]
    rcases h with hletter | rfl
    · rw [CharClass.isLetter, if_pos hlt] at hletter
      have := toNat_isAlpha hletter
      omega
    · decide

/-- The bytes of a character of a name. -/
theorem isNameByte_of_mem_raw {text : Text} {r : Rune} (hr : r ∈ Rune.all text)
    (h : continuesName r.char = true) : ∀ b ∈ r.raw, isNameByte b = true := by
  rcases Rune.ascii_or_wide hr with ⟨hascii, hraw⟩ | ⟨-, hwide⟩
  · rw [hraw, List.forall_mem_singleton]
    exact isNameByte_of_continuesName h hascii
  · intro b hb
    simp [isNameByte, hwide b hb]

theorem mem_of_mem_word {r s : Rune} {rs : List Rune}
    (h : s ∈ r :: rs.takeWhile (continuesName ·.char)) : s ∈ r :: rs :=
  List.cons_subset_cons r (List.takeWhile_subset _) h

/-- The characters of a word. -/
theorem continuesName_word {r : Rune} (rs : List Rune) (h : startsName r.char = true) :
    ∀ s ∈ r :: rs.takeWhile (continuesName ·.char), continuesName s.char = true :=
  List.forall_mem_cons.mpr ⟨(startsName_cases h).1, List.all_eq_true.mp List.all_takeWhile⟩

/-- **A word is the text of a name.** -/
theorem isNameText_word {text : Text} {r : Rune} {rs : List Rune}
    (hr : r ∈ Rune.all text) (hrs : ∀ s ∈ rs, s ∈ Rune.all text) (h : startsName r.char = true) :
    IsNameText (r.raw ++ Rune.bytes (rs.takeWhile (continuesName ·.char))) := by
  obtain ⟨hcontinues, hdigit⟩ := startsName_cases h
  have hfirst : ∀ b ∈ r.raw, Number.isDigit b = false := by
    rcases Rune.ascii_or_wide hr with ⟨hascii, hraw⟩ | ⟨-, hwide⟩
    · rw [hraw, List.forall_mem_singleton]
      exact hdigit hascii
    · intro b hb
      have hbyte := hwide b hb
      rw [← Bool.not_eq_true, isDigit_byte]
      omega
  refine ⟨?_, ?_⟩
  · obtain ⟨b, more, hcons⟩ := List.exists_cons_of_ne_nil (Rune.plain_of_mem_all hr).1
    rw [hcons]
    exact ⟨b, _, rfl, hfirst b (by simp [hcons])⟩
  · rw [List.forall_mem_append]
    refine ⟨isNameByte_of_mem_raw hr hcontinues, fun b hb => ?_⟩
    obtain ⟨raw, hraw, hb⟩ := List.mem_flatten.mp hb
    obtain ⟨s, hs, rfl⟩ := List.mem_map.mp hraw
    have htaken := List.all_eq_true.mp List.all_takeWhile s hs
    exact isNameByte_of_mem_raw (hrs s (List.takeWhile_subset _ hs)) htaken b hb

/-! ### Numerals -/

/-- **A numeral is digits**, or digits, a point and maybe more digits. -/
theorem numeral_shape {r : Rune} (rs : List Rune) (h : isDigit r.char = true) :
    (∃ whole, (numeral (r :: rs)).1 = r :: whole ∧ ∀ s ∈ r :: whole, isDigit s.char = true) ∨
      ∃ whole point part, (numeral (r :: rs)).1 = r :: whole ++ point :: part ∧ point.char = '.' ∧
        (∀ s ∈ r :: whole, isDigit s.char = true) ∧ ∀ s ∈ part, isDigit s.char = true := by
  have hwhole : (r :: rs).takeWhile (isDigit ·.char) = r :: rs.takeWhile (isDigit ·.char) :=
    List.takeWhile_cons_of_pos h
  have hdigits (ss : List Rune) : ∀ s ∈ ss.takeWhile (isDigit ·.char), isDigit s.char = true :=
    List.all_eq_true.mp List.all_takeWhile
  have hfirst : ∀ s ∈ r :: rs.takeWhile (isDigit ·.char), isDigit s.char = true :=
    List.forall_mem_cons.mpr ⟨h, hdigits rs⟩
  unfold numeral
  rw [hwhole]
  split
  · exact .inl ⟨_, rfl, hfirst⟩
  · next point rest _ =>
    split
    · next hpoint => exact .inr ⟨_, point, _, rfl, hpoint, hfirst, hdigits rest⟩
    · exact .inl ⟨_, rfl, hfirst⟩

theorem mem_of_mem_numeral {rs : List Rune} {s : Rune} (h : s ∈ (numeral rs).1) : s ∈ rs := by
  rw [← numeral_append rs]
  exact List.mem_append_left _ h

/-- The characters of a numeral. -/
theorem isDigit_numeral {r : Rune} (rs : List Rune) (h : isDigit r.char = true) :
    ∀ s ∈ (numeral (r :: rs)).1, (isDigit s.char || s.char == '.') = true := by
  rcases numeral_shape rs h with ⟨whole, hshape, hwhole⟩ |
    ⟨whole, point, part, hshape, hpoint, hwhole, hpart⟩
  · intro s hs
    rw [hshape] at hs
    simp [hwhole s hs]
  · rw [hshape, List.forall_mem_append, List.forall_mem_cons (l := part)]
    refine ⟨fun s hs => ?_, ?_, fun s hs => ?_⟩
    · simp [hwhole s hs]
    · simp [hpoint]
    · simp [hpart s hs]

theorem lt_of_nearestBits? {num den n : Nat} (h : Number.nearestBits? num den = some n) :
    n < Number.infinityBits := by
  unfold Number.nearestBits? at h
  split at h
  · cases h
    decide
  · simp only at h
    split at h
    · next hlt =>
      cases h
      exact hlt
    · cases h

/-- The value of a numeral is finite and not negative; so is what stands for one that is above
every number. -/
theorem exists_bits_numeralValue? (lexeme : Text) :
    ∃ n < Number.infinityBits, (numeralValue? lexeme).getD 0 = Number.ofBits false n := by
  cases hvalue : numeralValue? lexeme with
  | none => exact ⟨0, by decide, by decide⟩
  | some x =>
    obtain ⟨n, hn, rfl⟩ := Option.map_eq_some_iff.mp hvalue
    exact ⟨n, lt_of_nearestBits? hn, rfl⟩

/-! ### Pieces -/

/-- What makes the token of a piece lexical. -/
def IsLexical (p : Piece) : Prop :=
  (p.sort = .word → IsNameText p.raw) ∧
    ∀ value, p.sort = .number value →
      ∃ n < Number.infinityBits, value.getD 0 = Number.ofBits false n

theorem isLexical_next {text : Text} (r : Rune) (rs : List Rune)
    (h : ∀ s ∈ r :: rs, s ∈ Rune.all text) : (next r rs).1.IsLexical := by
  rw [List.forall_mem_cons] at h
  unfold next
  split_ifs with hblank hcomment hstring hdigit hname
  · exact ⟨by simp, by simp⟩
  · exact ⟨by simp, by simp⟩
  · exact ⟨by simp, by simp⟩
  · refine ⟨by simp, ?_⟩
    rintro _ ⟨⟩
    exact exists_bits_numeralValue? _
  · exact ⟨fun _ => isNameText_word h.1 h.2 hname, by simp⟩
  · unfold operator IsLexical
    grind

/-- A word is a keyword or a name, and not both. -/
theorem ofWord_cases (word : Text) :
    TokenKind.ofWord word ≠ .number ∧
      (TokenKind.ofWord word = .ident → word ∉ TokenKind.keywords.map Prod.fst) := by
  have hkinds : ∀ w ∈ TokenKind.keywords, w.2 ≠ .number ∧ w.2 ≠ .ident := by decide
  rcases TokenKind.mem_keywords_or word with hmem | ⟨hident, hnotMem⟩
  · exact ⟨(hkinds _ hmem).1, fun hident => absurd hident (hkinds _ hmem).2⟩
  · exact ⟨by simp [hident], fun _ => hnotMem⟩

/-- **The token of a lexical piece is lexical.** -/
theorem isLexical_token? {p : Piece} (hp : p.IsLexical) (hfair : p.Fair) {offset : Nat} {t : Token}
    (h : p.token? offset = some t) : t.IsLexical := by
  unfold token? at h
  split at h
  · cases h
  · cases h
  · cases h
  · next hword =>
    cases h
    obtain ⟨hnumber, hident⟩ := ofWord_cases p.raw
    exact ⟨fun hkind => ⟨hp.1 hword, hident hkind⟩, fun hkind => absurd hkind hnumber⟩
  · next value hvalue =>
    cases h
    exact ⟨by simp, fun _ => hp.2 value hvalue⟩
  · cases h
    exact ⟨by simp, by simp⟩
  · next kind hkind =>
    cases h
    have hspelled := (hfair.2 kind hkind).2
    refine ⟨?_, ?_⟩
    · rintro rfl
      exact absurd hspelled (by simp [show TokenKind.ident.spellings = [] by decide])
    · rintro rfl
      exact absurd hspelled (by simp [show TokenKind.number.spellings = [] by decide])

end Piece

namespace TokenStream

theorem isLexical_tokensFrom {ps : List Piece} (hps : ∀ p ∈ ps, p.IsLexical ∧ p.Fair)
    (offset : Nat) : ∀ t ∈ tokensFrom offset ps, t.IsLexical := by
  induction ps generalizing offset with
  | nil =>
    rw [tokensFrom_nil, List.forall_mem_singleton]
    exact ⟨nofun, nofun⟩
  | cons p ps ih =>
    rw [List.forall_mem_cons] at hps
    have hrest := ih hps.2 (offset + p.raw.length)
    rw [tokensFrom]
    cases htoken : p.token? offset with
    | none => exact hrest
    | some t =>
      rw [List.forall_mem_cons]
      exact ⟨Piece.isLexical_token? hps.1.1 hps.1.2 htoken, hrest⟩

/-- **All tokens of a text are lexical.** -/
theorem isLexical_ofText (text : Text) : ∀ t ∈ (ofText text).tokens, t.IsLexical :=
  isLexical_tokensFrom (fun p hp =>
    ⟨Piece.forall_mem_cut Piece.isLexical_next p hp, Piece.fair_of_mem_cut hp⟩) 0

end TokenStream

end Badger
