import Badger.Proofs.Grammar.Basic
import Badger.Token.Stream
import Mathlib.Tactic.SplitIfs

/-!
# The tokens of a text

Where the tokens of a text lie and how they are written.

## Main definitions

* `Rune.Plain`: a rune that takes up room, and one byte if it is an ASCII character
* `Piece.Fair`: a piece that takes up room and, if it is an operator, is written as one
* `TokenStream.bodyFrom`: the tokens of some pieces, without an end token

## Main statements

* `Rune.plain_of_mem_all`: every rune of a text is plain
* `Piece.cut_induction`: what holds of no runes, and of more runes with one more piece in front,
  holds of the runes and the pieces of a text
* `Piece.fair_of_mem_cut`, `Piece.width_cut_le`: the pieces of a text are fair and fit into it
* `TokenStream.ofText_tokens`: the tokens of a text lie inside it and are spelled, and the end
  token comes last and only there
* `TokenStream.pairwise_ofText`: the tokens of a text stand one after the other
* `StrictReading.error?_ofText`: what a strict reader reports is the first problem with a piece

## Design notes

The character of an ill-formed sequence is the replacement character, and a sequence of several
bytes never stands for an ASCII character other than the one with number zero, which starts no
token. An operator is therefore written as its bytes.
-/

namespace Badger

/-! ## Runes -/

namespace Rune

/-- A rune takes up room, and an ASCII character takes up one byte, which is its own. -/
def Plain (r : Rune) : Prop :=
  r.raw ≠ [] ∧ (0 < r.char.toNat → r.char.toNat < 128 → r.raw = [Text.byte r.char])

theorem toNat_ofNat_eq_or (n : Nat) : (Char.ofNat n).toNat = n ∨ (Char.ofNat n).toNat = 0 := by
  by_cases hvalid : n.isValidChar
  · rw [Char.ofNat, dif_pos hvalid]
    exact .inl rfl
  · rw [Char.ofNat, dif_neg hvalid]
    exact .inr rfl

/-- The first bytes of the sequences of each length. -/
theorem lead_bounds (lead : UInt8) :
    (sequenceLength lead = 1 → lead.toNat < 128) ∧
    (sequenceLength lead = 2 → 194 ≤ lead.toNat ∧ lead.toNat < 224) ∧
    (sequenceLength lead = 3 → 224 ≤ lead.toNat ∧ lead.toNat < 240) ∧
    (sequenceLength lead = 4 → 240 ≤ lead.toNat ∧ lead.toNat < 245) := by
  unfold sequenceLength
  simp only [UInt8.lt_iff_toNat_lt]
  have h128 : (0x80 : UInt8).toNat = 128 := rfl
  have h194 : (0xC2 : UInt8).toNat = 194 := rfl
  have h224 : (0xE0 : UInt8).toNat = 224 := rfl
  have h240 : (0xF0 : UInt8).toNat = 240 := rfl
  have h245 : (0xF5 : UInt8).toNat = 245 := rfl
  rw [h128, h194, h224, h240, h245]
  refine ⟨?_, ?_, ?_, ?_⟩
  all_goals intro h; split_ifs at h <;> omega

/-- The second byte rules out overlong forms. -/
theorem tailBits_of_isSecond {lead b : UInt8} (h : isSecond lead b = true) :
    (lead.toNat = 224 → 32 ≤ tailBits b) ∧ (lead.toNat = 240 → 16 ≤ tailBits b) := by
  unfold isSecond at h
  unfold tailBits
  refine ⟨fun hlead => ?_, fun hlead => ?_⟩
  · have heq : lead = 0xE0 := UInt8.toNat_inj.mp hlead
    simp [heq, UInt8.le_iff_toNat_le] at h
    omega
  · have heq : lead = 0xF0 := UInt8.toNat_inj.mp hlead
    simp [heq, UInt8.le_iff_toNat_le] at h
    omega

/-- **A character that is read** is that of a single byte, or it is no ASCII character but the
first. -/
theorem read_cases (lead : UInt8) (rest : Text) :
    (lead.toNat < 128 ∧ read lead rest = (Char.ofNat lead.toNat, 0)) ∨
      (read lead rest).1.toNat = 0 ∨ 128 ≤ (read lead rest).1.toNat := by
  have hwide (n : Nat) (hn : 128 ≤ n) :
      (Char.ofNat n).toNat = 0 ∨ 128 ≤ (Char.ofNat n).toNat := by
    rcases toNat_ofNat_eq_or n with h | h <;> omega
  have hreplacement : 128 ≤ replacement.toNat := by decide
  obtain ⟨hone, htwo, hthree, hfour⟩ := lead_bounds lead
  unfold read
  split
  · next hlength => exact .inl ⟨hone hlength, rfl⟩
  · next hlength =>
    have hlead := htwo hlength
    split
    · exact .inr (hwide _ (by omega))
    · exact .inr (.inr hreplacement)
  · next hlength =>
    have hlead := hthree hlength
    split
    · next hsecond =>
      have hbits := tailBits_of_isSecond (Bool.and_eq_true_iff.mp hsecond).1
      exact .inr (hwide _ (by omega))
    · exact .inr (.inr hreplacement)
  · next hlength =>
    have hlead := hfour hlength
    split
    · next hsecond =>
      have hbits := tailBits_of_isSecond
        (Bool.and_eq_true_iff.mp (Bool.and_eq_true_iff.mp hsecond).1).1
      exact .inr (hwide _ (by omega))
    · exact .inr (.inr hreplacement)
  · exact .inr (.inr hreplacement)

theorem plain_of_mem_afterSkip {skip : Nat} {t : Text} {r : Rune} (h : r ∈ afterSkip skip t) :
    r.Plain := by
  induction t generalizing skip with
  | nil => simp at h
  | cons b rest ih =>
      cases skip with
      | succ skip => exact ih h
      | zero =>
          rw [afterSkip_zero, List.mem_cons] at h
          rcases h with rfl | h
          · refine ⟨List.cons_ne_nil _ _, fun hpos hlt => ?_⟩
            rcases read_cases b rest with ⟨-, hread⟩ | hzero | hwide
            · rw [hread] at hpos ⊢
              have hchar : (Char.ofNat b.toNat).toNat = b.toNat :=
                (toNat_ofNat_eq_or _).resolve_right (Nat.ne_of_gt hpos)
              simp [Text.byte, hchar]
            · exact absurd hpos (by simp [hzero])
            · exact absurd hlt (Nat.not_lt.mpr hwide)
          · exact ih h

theorem plain_of_mem_all {t : Text} {r : Rune} (h : r ∈ all t) : r.Plain :=
  plain_of_mem_afterSkip h

end Rune

/-! ## Pieces -/

namespace Piece

/-- A piece takes up room, and an operator is written as one. -/
def Fair (p : Piece) : Prop :=
  p.raw ≠ [] ∧ ∀ kind, p.sort = .operator kind → kind ≠ .eof ∧ p.raw ∈ kind.spellings

/-- How many bytes some pieces take up. -/
def width : List Piece → Nat
  | [] => 0
  | p :: ps => p.raw.length + width ps

/-! ### What each scanner takes -/

/-- What a scanner took and what it left are the runes that it was given. -/
def Splits (raw : Text) (rest rs : List Rune) : Prop :=
  ∃ taken, rs = taken ++ rest ∧ raw = Rune.bytes taken

theorem Splits.cons {raw : Text} {rest rs : List Rune} (h : Splits raw rest rs) (r : Rune) :
    Splits (r.raw ++ raw) rest (r :: rs) := by
  obtain ⟨taken, rfl, rfl⟩ := h
  exact ⟨r :: taken, rfl, rfl⟩

theorem splits_takeWhile (p : Rune → Bool) (rs : List Rune) :
    Splits (Rune.bytes (rs.takeWhile p)) (rs.dropWhile p) rs :=
  ⟨rs.takeWhile p, List.takeWhile_append_dropWhile.symm, rfl⟩

theorem splits_stringBody (rs : List Rune) :
    Splits (stringBody rs).2.1 (stringBody rs).2.2 rs := by
  fun_induction stringBody rs with
  | case1 => exact ⟨[], rfl, rfl⟩
  | case2 r rs _ => exact ⟨[r], rfl, by simp⟩
  | case3 r _ _ => exact ⟨[r], rfl, by simp⟩
  | case4 r _ _ e rest value raw after hresult ih =>
      rw [hresult] at ih
      have hsplits := (ih.cons e).cons r
      rwa [← List.append_assoc] at hsplits
  | case5 r rs _ _ value raw after hresult ih =>
      rw [hresult] at ih
      exact ih.cons r

theorem splits_commentBody (rs : List Rune) :
    Splits (commentBody rs).1 (commentBody rs).2.2 rs := by
  obtain ⟨taken, hrs, hraw⟩ := splits_takeWhile (fun r => r.char != '\n') rs
  unfold commentBody
  split
  · next hrest =>
    rw [hrest] at hrs
    exact ⟨taken, hrs, hraw⟩
  · next newline rest hrest =>
    rw [hrest] at hrs
    refine ⟨taken ++ [newline], by simpa using hrs, ?_⟩
    show Rune.bytes _ ++ newline.raw = _
    rw [hraw, Rune.bytes_append]
    simp

theorem numeral_append (rs : List Rune) : (numeral rs).1 ++ (numeral rs).2 = rs := by
  have hwhole : rs.takeWhile (isDigit ·.char) ++ rs.dropWhile (isDigit ·.char) = rs :=
    List.takeWhile_append_dropWhile
  unfold numeral
  split
  · next hrest =>
    rw [hrest] at hwhole
    exact hwhole
  · next point rest hrest =>
    rw [hrest] at hwhole
    split
    · simpa using hwhole
    · exact hwhole

/-- A numeral starts with its first digit. -/
theorem numeral_eq_cons {r : Rune} (rs : List Rune) (h : isDigit r.char = true) :
    ∃ more, (numeral (r :: rs)).1 = r :: more := by
  have hwhole : (r :: rs).takeWhile (isDigit ·.char) = r :: rs.takeWhile (isDigit ·.char) :=
    List.takeWhile_cons_of_pos h
  unfold numeral
  rw [hwhole]
  split
  · exact ⟨_, rfl⟩
  · split
    · exact ⟨_, rfl⟩
    · exact ⟨_, rfl⟩

/-- An operator of one character. -/
theorem single_mem_spellings {c : Char} {kind : TokenKind} (h : TokenKind.single? c = some kind) :
    0 < c.toNat ∧ c.toNat < 128 ∧ kind ≠ .eof ∧ [Text.byte c] ∈ kind.spellings := by
  have hall : ∀ p ∈ TokenKind.singles, 0 < p.1.toNat ∧ p.1.toNat < 128 ∧ p.2 ≠ .eof ∧
      [Text.byte p.1] ∈ p.2.spellings := by decide
  exact hall (c, kind) (mem_of_lookup h)

/-- An operator of two characters. -/
theorem double_mem_spellings {c d : Char} {kind : TokenKind}
    (h : TokenKind.double? c d = some kind) :
    (0 < c.toNat ∧ c.toNat < 128) ∧ (0 < d.toNat ∧ d.toNat < 128) ∧ kind ≠ .eof ∧
      [Text.byte c, Text.byte d] ∈ kind.spellings := by
  have hall : ∀ p ∈ TokenKind.doubles, (0 < p.1.1.toNat ∧ p.1.1.toNat < 128) ∧
      (0 < p.1.2.toNat ∧ p.1.2.toNat < 128) ∧ p.2 ≠ .eof ∧
      [Text.byte p.1.1, Text.byte p.1.2] ∈ p.2.spellings := by decide
  exact hall ((c, d), kind) (mem_of_lookup h)

/-- A fair piece cut off some runes, and what is left of them. -/
def Cuts (cutting : Piece × List Rune) (rs : List Rune) : Prop :=
  cutting.1.Fair ∧ Splits cutting.1.raw cutting.2 rs

/-- A piece that is no operator and starts with a rune. -/
theorem cuts_of_splits {sort : PieceSort} {r : Rune} {raw : Text} {rest rs : List Rune}
    (hsort : ∀ kind, sort ≠ .operator kind) (hr : r.Plain) (h : Splits raw rest rs) :
    Cuts (⟨sort, r.raw ++ raw⟩, rest) (r :: rs) :=
  ⟨⟨by simp [hr.1], fun kind hkind => absurd hkind (hsort kind)⟩, h.cons r⟩

/-- **An operator is written as its characters.** -/
theorem cuts_single {r : Rune} (hr : r.Plain) {kind : TokenKind}
    (h : TokenKind.single? r.char = some kind) (rs : List Rune) :
    Cuts (⟨.operator kind, r.raw⟩, rs) (r :: rs) := by
  obtain ⟨hpos, hlt, hne, hmem⟩ := single_mem_spellings h
  refine ⟨⟨hr.1, ?_⟩, ⟨[r], rfl, by simp⟩⟩
  rintro _ ⟨⟩
  refine ⟨hne, ?_⟩
  show r.raw ∈ _
  rw [hr.2 hpos hlt]
  exact hmem

theorem cuts_double {r s : Rune} (hr : r.Plain) (hs : s.Plain) {kind : TokenKind}
    (h : TokenKind.double? r.char s.char = some kind) (rest : List Rune) :
    Cuts (⟨.operator kind, r.raw ++ s.raw⟩, rest) (r :: s :: rest) := by
  obtain ⟨hr', hs', hne, hmem⟩ := double_mem_spellings h
  refine ⟨⟨by simp [hr.1], ?_⟩, ⟨[r, s], rfl, by simp⟩⟩
  rintro _ ⟨⟩
  refine ⟨hne, ?_⟩
  show r.raw ++ s.raw ∈ _
  rw [hr.2 hr'.1 hr'.2, hs.2 hs'.1 hs'.2]
  exact hmem

theorem cuts_unknown {r : Rune} (hr : r.Plain) (rs : List Rune) :
    Cuts (⟨.unknown r.char, r.raw⟩, rs) (r :: rs) :=
  ⟨⟨hr.1, fun _ h => by cases h⟩, ⟨[r], rfl, by simp⟩⟩

theorem cuts_operator {r : Rune} {rs : List Rune} (hr : r.Plain) (hrs : ∀ s ∈ rs, s.Plain) :
    Cuts (operator r rs) (r :: rs) := by
  cases rs with
  | nil =>
      unfold operator
      cases hsingle : TokenKind.single? r.char with
      | some kind => exact cuts_single hr hsingle []
      | none => exact cuts_unknown hr []
  | cons s rest =>
      unfold operator
      cases hdouble : TokenKind.double? r.char s.char with
      | some kind =>
          simp only [hdouble]
          exact cuts_double hr (hrs s List.mem_cons_self) hdouble rest
      | none =>
          simp only [hdouble]
          cases hsingle : TokenKind.single? r.char with
          | some kind => exact cuts_single hr hsingle (s :: rest)
          | none => exact cuts_unknown hr (s :: rest)

theorem operator_sort (r : Rune) (rs : List Rune) :
    (∃ kind, (operator r rs).1.sort = .operator kind) ∨
      ∃ c, (operator r rs).1.sort = .unknown c := by
  unfold operator
  dsimp only
  repeat' split
  all_goals simp

/-- **Each piece is fair and loses nothing.** -/
theorem cuts_next {r : Rune} {rs : List Rune} (hr : r.Plain) (hrs : ∀ s ∈ rs, s.Plain) :
    Cuts (next r rs) (r :: rs) := by
  unfold next
  split_ifs with hblank hcomment hstring hdigit hname
  · have hnone : Splits [] rs rs := ⟨[], rfl, rfl⟩
    have hcuts := cuts_of_splits (by simp : ∀ kind, PieceSort.blank ≠ .operator kind) hr hnone
    rwa [List.append_nil] at hcuts
  · exact cuts_of_splits (by simp) hr (splits_commentBody rs)
  · exact cuts_of_splits (by simp) hr (splits_stringBody rs)
  · obtain ⟨more, hmore⟩ := numeral_eq_cons rs hdigit
    refine ⟨⟨?_, fun _ h => by cases h⟩, ⟨_, (numeral_append (r :: rs)).symm, rfl⟩⟩
    show Rune.bytes (numeral (r :: rs)).1 ≠ []
    rw [hmore]
    simp [hr.1]
  · exact cuts_of_splits (by simp) hr (splits_takeWhile _ rs)
  · exact cuts_operator hr hrs

/-! ### All pieces -/

/-- What follows a piece is shorter than what it was cut from. -/
theorem rest_of_next {r : Rune} {rs : List Rune} (hrs : ∀ s ∈ r :: rs, s.Plain) :
    (next r rs).2.length ≤ rs.length ∧ (∀ s ∈ (next r rs).2, s.Plain) ∧
      (Rune.bytes (r :: rs)).length =
        (next r rs).1.raw.length + (Rune.bytes (next r rs).2).length := by
  rw [List.forall_mem_cons] at hrs
  obtain ⟨hfair, taken, heq, hraw⟩ := cuts_next hrs.1 hrs.2
  have hroom : 0 < taken.length := by
    rw [List.length_pos_iff]
    rintro rfl
    exact hfair.1 hraw
  have hlength := congrArg List.length heq
  rw [List.length_cons, List.length_append] at hlength
  refine ⟨by omega, fun s hs => ?_, ?_⟩
  · have hmem : s ∈ r :: rs := heq ▸ List.mem_append_right _ hs
    exact List.forall_mem_cons.mpr hrs s hmem
  · rw [heq, Rune.bytes_append, List.length_append, hraw]

theorem cutRunes_fair (fuel : Nat) {rs : List Rune} (hrs : ∀ r ∈ rs, r.Plain) :
    (∀ p ∈ cutRunes fuel rs, p.Fair) ∧ width (cutRunes fuel rs) ≤ (Rune.bytes rs).length := by
  induction fuel generalizing rs with
  | zero => simp [width]
  | succ fuel ih =>
      cases rs with
      | nil => simp [width]
      | cons r rs =>
          rw [List.forall_mem_cons] at hrs
          obtain ⟨hfair, taken, heq, hraw⟩ := cuts_next hrs.1 hrs.2
          have hrest : ∀ s ∈ (next r rs).2, s.Plain := by
            have hall : ∀ s ∈ taken ++ (next r rs).2, s.Plain := by
              rw [← heq, List.forall_mem_cons]
              exact hrs
            exact fun s hs => hall s (List.mem_append_right _ hs)
          obtain ⟨hpieces, hwidth⟩ := ih hrest
          rw [cutRunes_succ, List.forall_mem_cons, heq, Rune.bytes_append, List.length_append]
          refine ⟨⟨hfair, hpieces⟩, ?_⟩
          show (next r rs).1.raw.length + width _ ≤ _
          rw [hraw]
          exact Nat.add_le_add_left hwidth _

/-- **Induction over the pieces of a text.** What holds of no runes, and of some runes once it holds
of those behind their first piece, holds of all runes and the pieces cut from them. -/
theorem cut_induction (text : Text) {motive : List Rune → List Piece → Prop}
    (nil : motive [] [])
    (cons : ∀ r rs ps, (∀ s ∈ r :: rs, s ∈ Rune.all text) → ((next r rs).2 = [] → ps = []) →
      motive (next r rs).2 ps → motive (r :: rs) ((next r rs).1 :: ps)) :
    motive (Rune.all text) (cut text) := by
  suffices hruns : ∀ fuel rs, (∀ s ∈ rs, s ∈ Rune.all text) → rs.length ≤ fuel →
      motive rs (cutRunes fuel rs) from hruns _ _ (fun _ hs => hs) Nat.le.refl
  intro fuel
  induction fuel with
  | zero =>
      intro rs _ hfuel
      obtain rfl := List.length_eq_zero_iff.mp (Nat.le_zero.mp hfuel)
      exact nil
  | succ fuel ih =>
      intro rs hrs hfuel
      cases rs with
      | nil => exact nil
      | cons r rs =>
          have hplain : ∀ s ∈ r :: rs, s.Plain := fun s hs => Rune.plain_of_mem_all (hrs s hs)
          obtain ⟨hlength, -, -⟩ := rest_of_next hplain
          rw [List.forall_mem_cons] at hplain
          obtain ⟨-, taken, heq, -⟩ := cuts_next hplain.1 hplain.2
          have hrest : ∀ s ∈ (next r rs).2, s ∈ Rune.all text :=
            fun s hs => hrs s (heq ▸ List.mem_append_right taken hs)
          rw [List.length_cons] at hfuel
          rw [cutRunes_succ]
          refine cons r rs _ hrs (fun hnone => ?_) (ih _ hrest (by omega))
          rw [hnone, cutRunes_nil]

/-- **What holds of each piece when it is cut off** holds of all pieces of a text. -/
theorem forall_mem_cut {text : Text} {P : Piece → Prop}
    (h : ∀ r rs, (∀ s ∈ r :: rs, s ∈ Rune.all text) → P (next r rs).1) :
    ∀ p ∈ cut text, P p := by
  refine cut_induction text (motive := fun _ ps => ∀ p ∈ ps, P p) (by simp) ?_
  intro r rs ps hrs _ hps
  exact List.forall_mem_cons.mpr ⟨h r rs hrs, hps⟩

/-- The pieces of a text are fair. -/
theorem fair_of_mem_cut {text : Text} {p : Piece} (h : p ∈ cut text) : p.Fair :=
  (cutRunes_fair _ fun _ => Rune.plain_of_mem_all).1 p h

/-- The pieces of a text fit into it. -/
theorem width_cut_le (text : Text) : width (cut text) ≤ text.length := by
  have hplain : ∀ r ∈ Rune.all text, r.Plain := fun _ => Rune.plain_of_mem_all
  have hwidth := (cutRunes_fair (Rune.all text).length hplain).2
  rwa [Rune.bytes_all] at hwidth

/-! ## Tokens -/

/-- A word is a name, or spelled as the keyword that it is. -/
theorem spelled_word (raw : Text) (number : Float) (offset : Int) :
    Token.Spelled ⟨TokenKind.ofWord raw, raw, number, offset⟩ ∧ TokenKind.ofWord raw ≠ .eof := by
  have hall : ∀ w ∈ TokenKind.keywords, w.1 ∈ w.2.spellings ∧ w.2 ≠ .eof := by decide
  rcases TokenKind.mem_keywords_or raw with hmem | ⟨hident, -⟩
  · exact ⟨.inr (hall _ hmem).1, (hall _ hmem).2⟩
  · rw [hident]
    exact ⟨.inl (by decide : TokenKind.ident.spellings = []), by simp⟩

/-- The token of a fair piece is spelled, is not the end token, and starts where the piece
does. -/
theorem Fair.token? {p : Piece} (hp : p.Fair) {offset : Nat} {t : Token}
    (h : p.token? offset = some t) : t.Spelled ∧ t.kind ≠ .eof ∧ t.offset = offset := by
  unfold Piece.token? at h
  split at h
  · cases h
  · cases h
  · cases h
  · cases h
    exact ⟨(spelled_word _ _ _).1, (spelled_word _ 0 0).2, rfl⟩
  · cases h
    exact ⟨.inl (by decide : TokenKind.number.spellings = []), by simp, rfl⟩
  · cases h
    exact ⟨.inl (by decide : TokenKind.string.spellings = []), by simp, rfl⟩
  · next kind hkind =>
    cases h
    exact ⟨.inr (hp.2 kind hkind).2, (hp.2 kind hkind).1, rfl⟩

end Piece

namespace TokenStream

/-- The tokens of some pieces, without an end token. -/
def bodyFrom (offset : Nat) : List Piece → List Token
  | [] => []
  | p :: ps => (p.token? offset).toList ++ bodyFrom (offset + p.raw.length) ps

theorem tokensFrom_append (offset : Nat) (ps qs : List Piece) :
    tokensFrom offset (ps ++ qs) =
      bodyFrom offset ps ++ tokensFrom (offset + Piece.width ps) qs := by
  induction ps generalizing offset with
  | nil => rfl
  | cons p ps ih =>
      rw [List.cons_append, tokensFrom, ih, bodyFrom, Piece.width, Nat.add_assoc]
      cases p.token? offset <;> rfl

theorem tokensFrom_eq (offset : Nat) (ps : List Piece) :
    tokensFrom offset ps = bodyFrom offset ps ++ [Token.endAt (offset + Piece.width ps : Nat)] := by
  have happend := tokensFrom_append offset ps []
  rwa [List.append_nil] at happend

/-- The tokens of fair pieces lie where the pieces do, and the end token comes after them. -/
theorem tokensFrom_fair {ps : List Piece} (hps : ∀ p ∈ ps, p.Fair) (offset : Nat) :
    ∃ body, tokensFrom offset ps = body ++ [Token.endAt (offset + Piece.width ps : Nat)] ∧
      ∀ t ∈ body, t.kind ≠ .eof ∧ t.Spelled ∧ (offset : Int) ≤ t.offset ∧
        t.offset < (offset + Piece.width ps : Nat) := by
  induction ps generalizing offset with
  | nil => exact ⟨[], by simp [Piece.width], by simp⟩
  | cons p ps ih =>
      rw [List.forall_mem_cons] at hps
      obtain ⟨body, hbody, htokens⟩ := ih hps.2 (offset + p.raw.length)
      have hroom : 0 < p.raw.length := List.length_pos_iff.mpr hps.1.1
      have hwidth : Piece.width (p :: ps) = p.raw.length + Piece.width ps := rfl
      have hlater : ∀ t ∈ body, t.kind ≠ .eof ∧ t.Spelled ∧ (offset : Int) ≤ t.offset ∧
          t.offset < (offset + Piece.width (p :: ps) : Nat) := by
        intro t ht
        obtain ⟨hne, hspelled, hlow, hhigh⟩ := htokens t ht
        exact ⟨hne, hspelled, by omega, by omega⟩
      rw [tokensFrom, hbody, Nat.add_assoc, ← hwidth]
      cases htoken : p.token? offset with
      | none => exact ⟨body, rfl, hlater⟩
      | some t =>
          obtain ⟨hspelled, hne, hoffset⟩ := hps.1.token? htoken
          refine ⟨t :: body, rfl, ?_⟩
          rw [List.forall_mem_cons]
          exact ⟨⟨hne, hspelled, by omega, by omega⟩, hlater⟩

/-- **The tokens of a text** lie inside it and are spelled, and the end token comes last and only
there. -/
theorem ofText_tokens (text : Text) :
    ∃ body ending, (ofText text).tokens = body ++ [ending] ∧ ending.kind = .eof ∧
      ∀ t ∈ body, t.kind ≠ .eof ∧ t.Spelled ∧ 0 ≤ t.offset ∧
        t.offset < (text.length : Int) := by
  have hfair : ∀ p ∈ Piece.cut text, p.Fair := fun _ => Piece.fair_of_mem_cut
  obtain ⟨body, hbody, htokens⟩ := tokensFrom_fair hfair 0
  refine ⟨body, _, hbody, rfl, fun t ht => ?_⟩
  obtain ⟨hne, hspelled, hlow, hhigh⟩ := htokens t ht
  have hwidth := Piece.width_cut_le text
  exact ⟨hne, hspelled, by omega, by omega⟩

/-- **Each token of a text stands after the ones before it**, and no two stand at one place. -/
theorem pairwise_tokensFrom {ps : List Piece} (hps : ∀ p ∈ ps, p.Fair) (offset : Nat) :
    (tokensFrom offset ps).Pairwise fun t u => t.offset < u.offset := by
  induction ps generalizing offset with
  | nil => exact List.pairwise_singleton _ _
  | cons p ps ih =>
      rw [List.forall_mem_cons] at hps
      have hothers := ih hps.2 (offset + p.raw.length)
      rw [tokensFrom]
      cases htoken : p.token? offset with
      | none => exact hothers
      | some t =>
          refine List.pairwise_cons.mpr ⟨fun u hu => ?_, hothers⟩
          -- the piece takes up room, and everything else comes after it
          have hroom : 0 < p.raw.length := List.length_pos_iff.mpr hps.1.1
          have hoffset := (hps.1.token? htoken).2.2
          obtain ⟨body, hbody, htokens⟩ := tokensFrom_fair hps.2 (offset + p.raw.length)
          rw [hbody, List.mem_append, List.mem_singleton] at hu
          rcases hu with hu | rfl
          · have hlow := (htokens u hu).2.2.1
            omega
          · show t.offset < ((offset + p.raw.length + Piece.width ps : Nat) : Int)
            omega

theorem pairwise_ofText (text : Text) :
    (ofText text).tokens.Pairwise fun t u => t.offset < u.offset :=
  pairwise_tokensFrom (fun _ => Piece.fair_of_mem_cut) 0

end TokenStream

/-! ## Reading strictly -/

namespace StrictReading

open TokenStream (tokensFrom lineBreaksFrom)

theorem tokens_takeAll (r : StrictReading) (offset : Nat) (ps : List Piece) :
    (r.takeAll offset ps).tokens.toList = r.tokens.toList ++ tokensFrom offset ps := by
  induction ps generalizing r offset with
  | nil => simp [takeAll]
  | cons p ps ih =>
      rw [takeAll, ih, tokensFrom]
      cases htoken : p.token? offset <;> simp [take, htoken]

theorem lines_takeAll (r : StrictReading) (offset : Nat) (ps : List Piece) :
    (r.takeAll offset ps).lines = r.lines ++ (lineBreaksFrom offset ps).toArray := by
  induction ps generalizing r offset with
  | nil => simp [takeAll]
  | cons p ps ih =>
      rw [takeAll, ih]
      simp [take]

/-- **The first problem with some pieces** is placed by the line breaks up to it, unless there has
been one before. -/
theorem error?_takeAll (r : StrictReading) (offset : Nat) (ps : List Piece) :
    (∀ p ∈ ps, p.problem? = none) ∧ (r.takeAll offset ps).error? = r.error? ∨
      ∃ before p after problem, ps = before ++ p :: after ∧ (∀ q ∈ before, q.problem? = none) ∧
        p.problem? = some problem ∧
        (r.takeAll offset ps).error? = r.error?.or (some (Diagnostic.locate problem
          (offset + Piece.width before : Nat)
          (r.lines ++ (lineBreaksFrom offset (before ++ [p])).toArray))) := by
  induction ps generalizing r offset with
  | nil => exact .inl ⟨List.forall_mem_nil _, rfl⟩
  | cons p ps ih =>
      rw [takeAll]
      cases hproblem : p.problem? with
      | none =>
          have hsame : (r.take offset p).error? = r.error? := by simp [take, hproblem]
          rcases ih (r.take offset p) (offset + p.raw.length) with
            ⟨hnone, herror⟩ | ⟨before, q, after, problem, rfl, hbefore, hq, herror⟩
          · exact .inl ⟨List.forall_mem_cons.mpr ⟨hproblem, hnone⟩, herror.trans hsame⟩
          · refine .inr ⟨p :: before, q, after, problem, rfl,
              List.forall_mem_cons.mpr ⟨hproblem, hbefore⟩, hq, ?_⟩
            rw [herror, hsame]
            simp [take, Piece.width, Nat.add_assoc]
      | some problem =>
          refine .inr ⟨[], p, ps, problem, rfl, List.forall_mem_nil _, hproblem, ?_⟩
          have hfirst : (r.take offset p).error? = r.error?.or (some (Diagnostic.locate problem
              (offset : Nat) (r.lines ++ (p.lineBreaks offset).toArray))) := by
            simp [take, hproblem]
          -- what comes later does not replace it
          have hlater : (r.take offset p).error?.isSome = true := by
            rw [hfirst]
            cases r.error? <;> rfl
          have hkeep : ((r.take offset p).takeAll (offset + p.raw.length) ps).error? =
              (r.take offset p).error? := by
            rcases ih (r.take offset p) (offset + p.raw.length) with
              ⟨-, herror⟩ | ⟨_, _, _, _, -, -, -, herror⟩
            · exact herror
            · rw [herror, Option.or_of_isSome hlater]
          rw [hkeep, hfirst]
          simp [Piece.width]

theorem tokens_ofText (text : Text) :
    (ofText text).tokens.toList = (TokenStream.ofText text).tokens := by
  rw [ofText, tokens_takeAll]
  rfl

theorem lines_ofText (text : Text) : (ofText text).lines = (TokenStream.ofText text).lines := by
  rw [ofText, lines_takeAll]
  simp [TokenStream.ofText, TokenStream.ofPieces]

/-- **The problem with a text** is that of its first piece with one. -/
theorem error?_ofText (text : Text) :
    (∀ p ∈ Piece.cut text, p.problem? = none) ∧ (ofText text).error? = none ∨
      ∃ before p after problem, Piece.cut text = before ++ p :: after ∧
        (∀ q ∈ before, q.problem? = none) ∧ p.problem? = some problem ∧
        (ofText text).error? = some (Diagnostic.locate problem (Piece.width before : Nat)
          (lineBreaksFrom 0 (before ++ [p])).toArray) := by
  rcases error?_takeAll {} 0 (Piece.cut text) with
    hnone | ⟨before, p, after, problem, hcut, hbefore, hp, herror⟩
  · exact .inl hnone
  · refine .inr ⟨before, p, after, problem, hcut, hbefore, hp, ?_⟩
    rw [ofText, herror]
    simp

theorem stream_of_none {text : Text} (h : (ofText text).error? = none) :
    (ofText text).stream = .ok (TokenStream.ofText text) := by
  rw [stream, h]
  simp only [tokens_ofText, lines_ofText]

theorem stream_of_some {r : StrictReading} {d : Diagnostic} (h : r.error? = some d) :
    r.stream = .error d := by
  rw [stream, h]

end StrictReading

namespace TokenStream

/-- Reading strictly only refuses texts: what is read is the same. -/
theorem eq_ofText_of_read {strict : Bool} {text : Text} {stream : TokenStream}
    (h : read strict text = .ok stream) : stream = ofText text := by
  unfold read ofTextStrict at h
  split at h
  · cases herror : (StrictReading.ofText text).error? with
    | none =>
        rw [StrictReading.stream_of_none herror] at h
        exact (Except.ok.inj h).symm
    | some d =>
        rw [StrictReading.stream_of_some herror] at h
        cases h
  · cases h
    rfl

theorem ne_scope_of_problem {p : Piece} {problem : Problem} (h : p.problem? = some problem)
    (q : ScopeProblem) : problem ≠ .scope q := by
  obtain ⟨sort, raw⟩ := p
  rintro rfl
  cases sort with
  | number value => cases value <;> cases h
  | _ => cases h

/-- What is wrong with a text that cannot be read has nothing to do with names. -/
theorem ne_scope_of_read {strict : Bool} {text : Text} {d : Diagnostic}
    (h : read strict text = .error d) (q : ScopeProblem) : d.problem ≠ .scope q := by
  unfold read ofTextStrict at h
  split at h
  · rcases StrictReading.error?_ofText text with
      ⟨-, hnone⟩ | ⟨before, p, after, problem, -, -, hp, hsome⟩
    · rw [StrictReading.stream_of_none hnone] at h
      cases h
    · rw [StrictReading.stream_of_some hsome] at h
      cases h
      exact ne_scope_of_problem hp q
  · cases h

end TokenStream

end Badger
