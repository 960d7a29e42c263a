import Badger.Proofs.Token.Concatenation
import Mathlib.Data.List.Induction

/-!
# Where pieces stand

The pieces of a text tile it: every byte lies in one of them, and two of them do not overlap. The
tokens of a text are told by the pieces that stand in it.

## Main definitions

* `Piece.IsUnrecognized`: characters that start no token and are passed over
* `Piece.Shape`: what the first character tells about a piece
* `Piece.StandsAt`: a piece stands at an offset of a text

## Main statements

* `Piece.shape_next`: each piece has the shape of its sort
* `Piece.StandsAt.exists_runes`: a piece is the one at the front of the runes behind some others
* `Piece.StandsAt.exists_shape`: a piece is written at its offset, and has its shape there
* `Piece.exists_standsAt`, `Piece.StandsAt.separate`: **every byte lies in exactly one piece**
* `TokenStream.mem_ofText_iff`: the tokens of a text are those of the pieces that stand in it
-/

namespace Badger

namespace Piece

/-! ## What a piece is cut from -/

/-- **A character that is not recognized**: no token starts with it, no comment, and it is no
blank. -/
structure IsUnrecognized (c : Char) : Prop where
  blank : isBlank c = false
  comment : c ≠ '#'
  mark : c ≠ '"'
  digit : isDigit c = false
  name : startsName c = false
  single : TokenKind.single? c = none
  double : ∀ d, TokenKind.double? c d = none

/-- An operator of two characters starts with one that is an operator itself. -/
theorem double?_eq_none {c : Char} (h : TokenKind.single? c = none) (d : Char) :
    TokenKind.double? c d = none := by
  have hall : ∀ p ∈ TokenKind.doubles, (TokenKind.single? p.1.1).isSome = true := by decide
  cases hdouble : TokenKind.double? c d with
  | none => rfl
  | some kind =>
      have hsome := hall ((c, d), kind) (mem_of_lookup hdouble)
      rw [h] at hsome
      cases hsome

/-- **What the first character tells about a piece** that is cut off the runes `r :: rs` and leaves
`rest`. -/
def Shape (r : Rune) (rs : List Rune) (p : Piece) (rest : List Rune) : Prop :=
  match p.sort with
  | .blank => isBlank r.char = true ∧ p.raw = r.raw
  | .comment _ => r.char = '#' ∧ p.raw = r.raw ++ (commentBody rs).1
  | .string _ => r.char = '"' ∧ p.raw = r.raw ++ (stringBody rs).2.1 ∧ rest = (stringBody rs).2.2
  | .number value => value = numeralValue? p.raw
  | .unknown c => r.char = c ∧ p.raw = r.raw ∧ IsUnrecognized c
  | .word | .operator _ => True

theorem shape_operator {r : Rune} (hblank : isBlank r.char = false) (hcomment : r.char ≠ '#')
    (hmark : r.char ≠ '"') (hdigit : isDigit r.char = false) (hname : startsName r.char = false)
    (rs : List Rune) : Shape r rs (operator r rs).1 (operator r rs).2 := by
  have hunknown (hsingle : TokenKind.single? r.char = none) : IsUnrecognized r.char :=
    ⟨hblank, hcomment, hmark, hdigit, hname, hsingle, double?_eq_none hsingle⟩
  unfold operator
  dsimp only
  repeat' split
  · trivial
  · next hsingle => exact ⟨rfl, rfl, hunknown hsingle⟩
  · trivial
  · trivial
  · next hsingle => exact ⟨rfl, rfl, hunknown hsingle⟩

/-- **Each piece has the shape of its sort.** -/
theorem shape_next (r : Rune) (rs : List Rune) : Shape r rs (next r rs).1 (next r rs).2 := by
  unfold next
  split_ifs with hblank hcomment hmark hdigit hname
  · exact ⟨hblank, rfl⟩
  · exact ⟨hcomment, rfl⟩
  · exact ⟨hmark, rfl, rfl⟩
  · exact rfl
  · trivial
  · rw [Bool.not_eq_true] at hblank hdigit hname
    exact shape_operator hblank hcomment hmark hdigit hname rs

/-! ## Where a piece stands -/

variable {text : Text} {o o' : Nat} {p p' : Piece}

/-- **A piece stands at an offset** of a text if the pieces before it end there. -/
def StandsAt (text : Text) (o : Nat) (p : Piece) : Prop :=
  ∃ before after, cut text = before ++ p :: after ∧ width before = o

@[simp] theorem width_append (ps qs : List Piece) : width (ps ++ qs) = width ps + width qs := by
  induction ps with
  | nil => simp [width]
  | cons p ps ih => rw [List.cons_append, width, width, ih, Nat.add_assoc]

/-- **A piece is cut off** the runes that are left behind those of the pieces before it. -/
theorem StandsAt.exists_runes (h : StandsAt text o p) :
    ∃ head r rs, Rune.all text = head ++ r :: rs ∧ (Rune.bytes head).length = o ∧
      p = (next r rs).1 := by
  obtain ⟨before, after, hcut, rfl⟩ := h
  refine cut_induction text (motive := fun rs ps => ∀ before after, ps = before ++ p :: after →
    ∃ head r ss, rs = head ++ r :: ss ∧ (Rune.bytes head).length = width before ∧
      p = (next r ss).1) ?_ ?_ before after hcut
  · intro before after hnil
    simp at hnil
  · intro r rs ps hrs _ ih before after hps
    cases before with
    | nil =>
        obtain ⟨rfl, rfl⟩ := List.cons_eq_cons.mp hps
        exact ⟨[], r, rs, rfl, rfl, rfl⟩
    | cons q before =>
        obtain ⟨rfl, hrest⟩ := List.cons_eq_cons.mp hps
        obtain ⟨head, r', ss, heq, hlength, hp⟩ := ih before after hrest
        have hplain : ∀ s ∈ r :: rs, s.Plain := fun s hs => Rune.plain_of_mem_all (hrs s hs)
        obtain ⟨-, taken, htaken, hraw⟩ :=
          cuts_next (hplain r List.mem_cons_self) fun s hs => hplain s (List.mem_cons_of_mem r hs)
        refine ⟨taken ++ head, r', ss, ?_, ?_, hp⟩
        · rw [htaken, heq, List.append_assoc]
        · rw [Rune.bytes_append, List.length_append, hlength, ← hraw, width]

/-- **A piece is written at its offset**, and has the shape of its sort there. -/
theorem StandsAt.exists_shape (h : StandsAt text o p) :
    ∃ head r rs rest, Rune.all text = head ++ r :: rs ∧ (Rune.bytes head).length = o ∧
      text = Rune.bytes head ++ (p.raw ++ Rune.bytes rest) ∧ Shape r rs p rest := by
  obtain ⟨head, r, rs, hall, hlength, rfl⟩ := h.exists_runes
  have hrs : ∀ s ∈ r :: rs, s ∈ Rune.all text := fun s hs => hall ▸ List.mem_append_right _ hs
  refine ⟨head, r, rs, (next r rs).2, hall, hlength, ?_, shape_next r rs⟩
  rw [← (after_bytes_next hrs).2.2, ← Rune.bytes_append, ← hall, Rune.bytes_all]

theorem StandsAt.exists_split (h : StandsAt text o p) :
    ∃ before after, text = before ++ (p.raw ++ after) ∧ before.length = o := by
  obtain ⟨head, _, _, rest, -, hlength, htext, -⟩ := h.exists_shape
  exact ⟨_, _, htext, hlength⟩

theorem StandsAt.mem_cut (h : StandsAt text o p) : p ∈ cut text := by
  obtain ⟨before, after, hcut, -⟩ := h
  rw [hcut]
  exact List.mem_append_right _ List.mem_cons_self

theorem StandsAt.raw_ne_nil (h : StandsAt text o p) : p.raw ≠ [] :=
  (fair_of_mem_cut h.mem_cut).1

theorem StandsAt.le_length (h : StandsAt text o p) : o + p.raw.length ≤ text.length := by
  obtain ⟨before, after, htext, hlength⟩ := h.exists_split
  rw [htext, List.length_append, List.length_append, hlength]
  omega

/-- **Every byte lies in a piece.** -/
theorem exists_standsAt {i : Nat} (h : i < text.length) :
    ∃ o p, StandsAt text o p ∧ o ≤ i ∧ i < o + p.raw.length := by
  suffices hpieces : ∀ ps, i < width ps → ∃ before p after, ps = before ++ p :: after ∧
      width before ≤ i ∧ i < width before + p.raw.length by
    rw [← width_cut] at h
    obtain ⟨before, p, after, hcut, hle, hlt⟩ := hpieces (cut text) h
    exact ⟨_, p, ⟨before, after, hcut, rfl⟩, hle, hlt⟩
  intro ps
  induction ps using List.reverseRecOn with
  | nil => simp [width]
  | append_singleton ps p ih =>
      intro hi
      by_cases hbefore : i < width ps
      · obtain ⟨before, q, after, rfl, hle, hlt⟩ := ih hbefore
        exact ⟨before, q, after ++ [p], by simp, hle, hlt⟩
      · simp only [width_append, width, Nat.add_zero] at hi
        exact ⟨ps, p, [], rfl, Nat.not_lt.mp hbefore, hi⟩

/-- **Pieces do not overlap.** -/
theorem StandsAt.separate (h : StandsAt text o p) (h' : StandsAt text o' p') :
    o = o' ∧ p = p' ∨ o + p.raw.length ≤ o' ∨ o' + p'.raw.length ≤ o := by
  obtain ⟨before, after, hcut, rfl⟩ := h
  obtain ⟨before', after', hcut', rfl⟩ := h'
  rw [hcut] at hcut'
  rcases List.append_eq_append_iff.mp hcut' with ⟨rest, rfl, hrest⟩ | ⟨rest, rfl, hrest⟩
  · cases rest with
    | nil =>
        obtain ⟨rfl, -⟩ := List.cons_eq_cons.mp hrest
        exact .inl ⟨by simp, rfl⟩
    | cons q rest =>
        obtain ⟨rfl, -⟩ := List.cons_eq_cons.mp hrest
        refine .inr (.inl ?_)
        rw [width_append, width]
        omega
  · cases rest with
    | nil =>
        obtain ⟨rfl, -⟩ := List.cons_eq_cons.mp hrest
        exact .inl ⟨by simp, rfl⟩
    | cons q rest =>
        obtain ⟨rfl, -⟩ := List.cons_eq_cons.mp hrest
        refine .inr (.inr ?_)
        rw [width_append, width]
        omega

/-- Two pieces in which one byte lies are the same. -/
theorem StandsAt.unique {i : Nat} (h : StandsAt text o p) (h' : StandsAt text o' p')
    (hi : o ≤ i ∧ i < o + p.raw.length) (hi' : o' ≤ i ∧ i < o' + p'.raw.length) :
    o = o' ∧ p = p' := by
  rcases h.separate h' with hsame | hbefore | hbehind
  · exact hsame
  · omega
  · omega

end Piece

namespace TokenStream

open Piece (StandsAt)

theorem mem_bodyFrom_iff {offset : Nat} {ps : List Piece} {t : Token} :
    t ∈ bodyFrom offset ps ↔
      ∃ before p after, ps = before ++ p :: after ∧
        p.token? (offset + Piece.width before) = some t := by
  induction ps generalizing offset with
  | nil => simp [bodyFrom]
  | cons q ps ih =>
      rw [bodyFrom, List.mem_append, Option.mem_toList, ih]
      constructor
      · rintro (hfirst | ⟨before, p, after, rfl, htoken⟩)
        · exact ⟨[], q, ps, rfl, hfirst⟩
        · refine ⟨q :: before, p, after, rfl, ?_⟩
          rwa [Piece.width, ← Nat.add_assoc]
      · rintro ⟨before, p, after, hps, htoken⟩
        cases before with
        | nil =>
            obtain ⟨rfl, -⟩ := List.cons_eq_cons.mp hps
            exact .inl htoken
        | cons r before =>
            obtain ⟨rfl, rfl⟩ := List.cons_eq_cons.mp hps
            refine .inr ⟨before, p, after, rfl, ?_⟩
            rwa [Piece.width, ← Nat.add_assoc] at htoken

/-- **The tokens of a text** are those of its pieces, and the end token. -/
theorem mem_ofText_iff {text : Text} {t : Token} :
    t ∈ (ofText text).tokens ↔
      (∃ o p, StandsAt text o p ∧ p.token? o = some t) ∨ t = Token.endAt text.length := by
  have htokens : (ofText text).tokens = tokensFrom 0 (Piece.cut text) := rfl
  rw [htokens, tokensFrom_eq, List.mem_append, List.mem_singleton, mem_bodyFrom_iff,
    Piece.width_cut, Nat.zero_add]
  refine or_congr ⟨?_, ?_⟩ Iff.rfl
  · rintro ⟨before, p, after, hcut, htoken⟩
    rw [Nat.zero_add] at htoken
    exact ⟨_, p, ⟨before, after, hcut, rfl⟩, htoken⟩
  · rintro ⟨_, p, ⟨before, after, hcut, rfl⟩, htoken⟩
    exact ⟨before, p, after, hcut, by rwa [Nat.zero_add]⟩

end TokenStream

end Badger
