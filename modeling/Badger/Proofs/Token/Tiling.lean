import Badger.Proofs.Token.Literal

/-!
# Tokens tile their text

The tokens of a text stand one behind the other without overlap, each of them where it is written.
Between them there are only blanks, comments and characters that start no token.

## Main definitions

* `Token.Occupies`, `Token.Covers`: the bytes of a token
* `IsPassedOver`: what may stand between tokens
* `Tiles`: tokens that tile a text

## Main statements

* `Token.Occupies.unique`: a token has one extent
* `Piece.StandsAt.occupies`: a token has the bytes of the piece that it is read off
* `Piece.StandsAt.isPassedOver`: what no token is read off is passed over
* `TokenStream.tiles_ofText`: **the tokens of a text tile it**
-/

namespace Badger

/-! ## The bytes of a token -/

namespace Token

/-- **A token occupies the bytes** from `o` on and before `e`: a string literal those up to its
closing mark, and any other token those that it is written as. -/
structure Occupies (text : Text) (t : Token) (o e : Nat) : Prop where
  offset : t.offset = o
  literal : t.kind = .string → IsLiteral text o e
  written : t.kind ≠ .string →
    (text.drop o).take t.lexeme.length = t.lexeme ∧ e = o + t.lexeme.length

/-- **A token has one extent.** -/
theorem Occupies.unique {text : Text} {t : Token} {o o' e e' : Nat} (h : t.Occupies text o e)
    (h' : t.Occupies text o' e') : o = o' ∧ e = e' := by
  obtain rfl : o = o' := Int.ofNat_inj.mp (h.offset.symm.trans h'.offset)
  refine ⟨rfl, ?_⟩
  by_cases hkind : t.kind = .string
  · exact (h.literal hkind).unique (h'.literal hkind)
  · rw [(h.written hkind).2, (h'.written hkind).2]

theorem occupies_endAt (text : Text) :
    (endAt text.length).Occupies text text.length text.length where
  offset := rfl
  literal := nofun
  written _ := ⟨rfl, rfl⟩

/-- A token covers the bytes that it occupies. -/
def Covers (text : Text) (t : Token) (i : Nat) : Prop :=
  ∃ o e, t.Occupies text o e ∧ o ≤ i ∧ i < e

end Token

/-! ## What stands between tokens -/

/-- Bytes that no token covers. -/
def IsFree (text : Text) (tokens : List Token) (i : Nat) : Prop := ∀ t ∈ tokens, ¬t.Covers text i

/-- **A byte is passed over**: it is a blank, or part of a comment, which ends with its line, or of
a character that is not recognized. -/
inductive IsPassedOver (text : Text) (tokens : List Token) (i : Nat) : Prop
  | blank {c : Char} (hc : c ∈ [' ', '\t', '\r', '\n']) (h : text[i]? = some (Text.byte c))
  | comment {o : Nat} (hopening : text[o]? = some (Text.byte '#')) (hle : o ≤ i)
      (hfree : ∀ j, o ≤ j → j ≤ i → IsFree text tokens j)
      (hline : ∀ j, o ≤ j → j < i → text[j]? ≠ some Text.newline)
  | character {before after : List Rune} {r : Rune} (hall : Rune.all text = before ++ r :: after)
      (hlow : (Rune.bytes before).length ≤ i)
      (hhigh : i < (Rune.bytes before).length + r.raw.length)
      (hchar : Piece.IsUnrecognized r.char)

/-- **Tokens tile a text.** They stand one behind the other, and only the last one is the end
token, at the end of the text. Each occupies some bytes, and no two the same. What none of them
covers is passed over. -/
structure Tiles (text : Text) (tokens : List Token) : Prop where
  increasing : tokens.Pairwise fun t u => t.offset < u.offset
  ended : ∃ body, tokens = body ++ [Token.endAt text.length] ∧ ∀ t ∈ body, t.kind ≠ .eof
  inside : ∀ t ∈ tokens, ∃ o e, t.Occupies text o e ∧ o ≤ e ∧ e ≤ text.length ∧
    (t.kind ≠ .eof → o < e)
  disjoint : tokens.Pairwise fun t u =>
    ∀ o e o' e', t.Occupies text o e → u.Occupies text o' e' → e ≤ o'
  covered : ∀ i < text.length, (∃ t ∈ tokens, t.Covers text i) ∨ IsPassedOver text tokens i

/-! ## The bytes of a piece -/

namespace Piece

variable {text : Text} {o : Nat} {p : Piece}

/-- A token is a string literal if its piece is one, and any other one is written as its piece. -/
theorem Fair.kind_token? (hp : p.Fair) {offset : Nat} {t : Token} (h : p.token? offset = some t) :
    (t.kind = .string ∧ ∃ value, p.sort = .string value) ∨
      t.kind ≠ .string ∧ t.lexeme = p.raw := by
  have hkeywords : ∀ w ∈ TokenKind.keywords, w.2 ≠ .string := by decide
  unfold Piece.token? at h
  split at h
  · cases h
  · cases h
  · cases h
  · cases h
    refine .inr ⟨?_, rfl⟩
    rcases TokenKind.mem_keywords_or p.raw with hmem | ⟨hident, -⟩
    · exact hkeywords _ hmem
    · show TokenKind.ofWord p.raw ≠ .string
      simp [hident]
  · cases h
    exact .inr ⟨nofun, rfl⟩
  · next value hsort =>
    cases h
    exact .inl ⟨rfl, value, hsort⟩
  · next kind hsort =>
    cases h
    refine .inr ⟨?_, rfl⟩
    rintro rfl
    exact absurd (hp.2 _ hsort).2 (by simp [show TokenKind.string.spellings = [] by decide])

/-- **A token has the bytes of the piece** that it is read off. -/
theorem StandsAt.occupies (h : StandsAt text o p) {t : Token} (ht : p.token? o = some t) :
    t.Occupies text o (o + p.raw.length) := by
  have hfair : p.Fair := fair_of_mem_cut h.mem_cut
  have hoffset := (hfair.token? ht).2.2
  rcases hfair.kind_token? ht with ⟨hkind, value, hsort⟩ | ⟨hkind, hlexeme⟩
  · obtain ⟨sort, raw⟩ := p
    cases hsort
    exact ⟨hoffset, fun _ => h.isLiteral, fun hne => absurd hkind hne⟩
  · obtain ⟨before, after, htext, rfl⟩ := h.exists_split
    refine ⟨hoffset, fun heq => absurd heq hkind, fun _ => ⟨?_, by rw [hlexeme]⟩⟩
    rw [htext, hlexeme, List.drop_left, List.take_left]

/-- A byte of a piece is covered by the token of this piece, and by no other one. -/
theorem StandsAt.covers_iff (h : StandsAt text o p) {i : Nat} (hlow : o ≤ i)
    (hhigh : i < o + p.raw.length) {t : Token} (ht : t ∈ (TokenStream.ofText text).tokens) :
    t.Covers text i ↔ p.token? o = some t := by
  constructor
  · rintro ⟨o', e, hoccupies, hlow', hhigh'⟩
    rcases TokenStream.mem_ofText_iff.mp ht with ⟨o'', q, hq, hqt⟩ | rfl
    · obtain ⟨rfl, rfl⟩ := hoccupies.unique (hq.occupies hqt)
      obtain ⟨rfl, rfl⟩ := h.unique hq ⟨hlow, hhigh⟩ ⟨hlow', hhigh'⟩
      exact hqt
    · obtain ⟨rfl, rfl⟩ := hoccupies.unique (Token.occupies_endAt text)
      omega
  · intro htoken
    exact ⟨o, _, h.occupies htoken, hlow, hhigh⟩

/-- A newline in a comment is its last byte. -/
theorem getElem?_commentBody_ne {rs : List Rune} (hrs : ∀ r ∈ rs, r ∈ Rune.all text) {i : Nat}
    (hi : i + 1 < (commentBody rs).1.length) : (commentBody rs).1[i]? ≠ some Text.newline := by
  obtain ⟨body, hnewline, hcases⟩ := commentBody_cases hrs
  intro hget
  rcases hcases with hopen | ⟨rest, hclosed⟩
  · rw [hopen] at hget
    exact hnewline (List.mem_of_getElem? hget)
  · rw [hclosed] at hi hget
    rw [List.length_append, List.length_singleton] at hi
    rw [List.getElem?_append_left (by omega)] at hget
    exact hnewline (List.mem_of_getElem? hget)

/-- No token covers a byte of a piece that no token is read off. -/
theorem StandsAt.isFree (h : StandsAt text o p) (hnone : p.token? o = none) {i : Nat} (hlow : o ≤ i)
    (hhigh : i < o + p.raw.length) : IsFree text (TokenStream.ofText text).tokens i := by
  intro t ht hcovers
  rw [h.covers_iff hlow hhigh ht, hnone] at hcovers
  cases hcovers

theorem StandsAt.getElem?_eq (h : StandsAt text o p) {j : Nat} (hj : j < p.raw.length) :
    text[o + j]? = p.raw[j]? := by
  obtain ⟨before, after, htext, rfl⟩ := h.exists_split
  rw [htext, List.getElem?_append_right (Nat.le_add_right _ _), Nat.add_sub_cancel_left,
    List.getElem?_append_left hj]

theorem StandsAt.isPassedOver_blank {raw : Text} (h : StandsAt text o ⟨.blank, raw⟩) {i : Nat}
    (hlow : o ≤ i) (hhigh : i < o + raw.length) (tokens : List Token) :
    IsPassedOver text tokens i := by
  obtain ⟨head, r, rs, rest, hall, -, -, hblank, rfl⟩ := h.exists_shape
  have hr : r ∈ Rune.all text := hall ▸ List.mem_append_right _ List.mem_cons_self
  have hc : r.char ∈ [' ', '\t', '\r', '\n'] := by
    simpa [isBlank, or_assoc] using hblank
  have hascii : r.char.toNat < 128 := by
    simp only [List.mem_cons, List.not_mem_nil, or_false] at hc
    rcases hc with hc | hc | hc | hc <;> rw [hc] <;> decide
  have hraw : r.raw = [Text.byte r.char] := Rune.raw_of_char hr hascii rfl
  have hone : r.raw.length = 1 := by rw [hraw, List.length_singleton]
  obtain rfl : i = o := by
    change i < o + r.raw.length at hhigh
    omega
  have hget := h.getElem?_eq (j := 0) (by rw [hone]; exact Nat.one_pos)
  exact .blank hc (hget.trans (by rw [hraw]; rfl))

theorem StandsAt.isPassedOver_comment {closed : Bool} {raw : Text}
    (h : StandsAt text o ⟨.comment closed, raw⟩) {i : Nat} (hlow : o ≤ i)
    (hhigh : i < o + raw.length) :
    IsPassedOver text (TokenStream.ofText text).tokens i := by
  obtain ⟨head, r, rs, rest, hall, -, -, hcomment, hraw⟩ := h.exists_shape
  have hmem : ∀ s ∈ r :: rs, s ∈ Rune.all text := fun s hs => hall ▸ List.mem_append_right _ hs
  change raw = _ at hraw
  rw [Rune.raw_of_char (hmem r List.mem_cons_self) (by decide) hcomment,
    List.singleton_append] at hraw
  have hlength : raw.length = (commentBody rs).1.length + 1 := by rw [hraw, List.length_cons]
  refine .comment (o := o) ?_ hlow
    (fun j hj hji => h.isFree rfl hj (Nat.lt_of_le_of_lt hji hhigh)) fun j hj hji => ?_
  · have hget := h.getElem?_eq (j := 0) (show 0 < raw.length by omega)
    exact hget.trans (by rw [hraw]; rfl)
  · obtain ⟨k, rfl⟩ := Nat.exists_eq_add_of_le hj
    rw [h.getElem?_eq (show k < raw.length by omega), hraw]
    cases k with
    | zero =>
        show some (Text.byte '#') ≠ some Text.newline
        decide
    | succ k =>
        rw [List.getElem?_cons_succ]
        exact getElem?_commentBody_ne (fun s hs => hmem s (List.mem_cons_of_mem r hs)) (by omega)

/-- **What no token is read off is passed over.** -/
theorem StandsAt.isPassedOver (h : StandsAt text o p) (hnone : p.token? o = none) {i : Nat}
    (hlow : o ≤ i) (hhigh : i < o + p.raw.length) :
    IsPassedOver text (TokenStream.ofText text).tokens i := by
  obtain ⟨sort, raw⟩ := p
  cases sort with
  | blank => exact h.isPassedOver_blank hlow hhigh _
  | comment closed => exact h.isPassedOver_comment hlow hhigh
  | unknown c =>
      obtain ⟨head, r, rs, rest, hall, rfl, -, rfl, rfl, hchar⟩ := h.exists_shape
      exact .character hall hlow hhigh hchar
  | _ => cases hnone

end Piece

namespace TokenStream

open Piece (StandsAt)

theorem exists_occupies {text : Text} {t : Token} (h : t ∈ (ofText text).tokens) :
    ∃ o e, t.Occupies text o e ∧ o ≤ e ∧ e ≤ text.length ∧ (t.kind ≠ .eof → o < e) := by
  rcases mem_ofText_iff.mp h with ⟨o, p, hp, hpt⟩ | rfl
  · have hroom := List.length_pos_iff.mpr hp.raw_ne_nil
    exact ⟨o, _, hp.occupies hpt, by omega, hp.le_length, fun _ => by omega⟩
  · exact ⟨_, _, Token.occupies_endAt text, Nat.le_refl _, Nat.le_refl _, fun hne => absurd rfl hne⟩

/-- A token ends before the next one starts. -/
theorem le_of_occupies {text : Text} {t u : Token} {o e o' e' : Nat}
    (ht : t ∈ (ofText text).tokens) (hu : u ∈ (ofText text).tokens) (hte : t.Occupies text o e)
    (hue : u.Occupies text o' e') (hlt : o < o') : e ≤ o' := by
  rcases mem_ofText_iff.mp ht with ⟨_, p, hp, hpt⟩ | rfl
  · obtain ⟨rfl, rfl⟩ := hte.unique (hp.occupies hpt)
    rcases mem_ofText_iff.mp hu with ⟨_, q, hq, hqu⟩ | rfl
    · obtain ⟨rfl, -⟩ := hue.unique (hq.occupies hqu)
      rcases hp.separate hq with ⟨hsame, -⟩ | hbefore | hbehind
      · omega
      · exact hbefore
      · omega
    · obtain ⟨rfl, -⟩ := hue.unique (Token.occupies_endAt text)
      exact hp.le_length
  · -- nothing stands behind the end of the text
    obtain ⟨rfl, -⟩ := hte.unique (Token.occupies_endAt text)
    obtain ⟨_, _, hue', hle, hinside, -⟩ := exists_occupies hu
    obtain ⟨rfl, -⟩ := hue.unique hue'
    omega

/-- **The tokens of a text tile it.** -/
theorem tiles_ofText (text : Text) : Tiles text (ofText text).tokens where
  increasing := pairwise_ofText text
  ended := by
    obtain ⟨body, ending, htokens, -, hbody⟩ := ofText_tokens text
    obtain ⟨-, rfl⟩ := eq_bodyFrom htokens
    exact ⟨body, htokens, fun t ht => (hbody t ht).1⟩
  inside _ ht := exists_occupies ht
  disjoint := by
    refine (pairwise_ofText text).imp_of_mem fun {t u} ht hu hlt o e o' e' hte hue => ?_
    rw [hte.offset, hue.offset, Int.ofNat_lt] at hlt
    exact le_of_occupies ht hu hte hue hlt
  covered i hi := by
    obtain ⟨o, p, hp, hlow, hhigh⟩ := Piece.exists_standsAt hi
    cases htoken : p.token? o with
    | none => exact .inr (hp.isPassedOver htoken hlow hhigh)
    | some t =>
        have ht : t ∈ (ofText text).tokens := mem_ofText_iff.mpr (.inl ⟨o, p, hp, htoken⟩)
        exact .inl ⟨t, ht, (hp.covers_iff hlow hhigh ht).mpr htoken⟩

end TokenStream

end Badger
