import Badger.Proofs.Token.LineBreaks
import Badger.Proofs.Token.Tiling

/-!
# The line table is exact

The line table of a text holds the offsets of its newline bytes in increasing order, whether they
stand between tokens, in a string literal or at the end of a comment. It holds one more offset if a
comment is still open where the text ends, and this is the end of the text.

## Main definitions

* `EndsInComment`: texts that end inside a comment

## Main statements

* `Piece.mem_newlines_iff`, `Piece.pairwise_newlines`: the offsets of newline bytes
* `Piece.StandsAt.exists_code`: every piece starts in code
* `endsInComment_iff`: a text ends inside a comment if its last region is one
* `TokenStream.lines_exact`: **the line table of a text holds its newlines and the end of an open
  comment**

## Design notes

The end of a comment is told without the lexer: by a number sign that belongs to no token and has no
newline behind it. Any other number sign of the same comment would do as well.
-/

namespace Badger

/-! ## Newline bytes -/

namespace Piece

theorem mem_newlines_iff {offset : Nat} {t : Text} {x : Int} :
    x ∈ newlines offset t ↔ ∃ i, t[i]? = some Text.newline ∧ x = (offset + i : Nat) := by
  induction t generalizing offset with
  | nil => simp [newlines]
  | cons b t ih =>
      have htail : x ∈ newlines (offset + 1) t ↔
          ∃ i, (b :: t)[i + 1]? = some Text.newline ∧ x = (offset + (i + 1) : Nat) := by
        rw [ih]
        simp only [List.getElem?_cons_succ, Nat.add_assoc, Nat.add_comm 1]
      have hhead : (∃ i, (b :: t)[i]? = some Text.newline ∧ x = (offset + i : Nat)) ↔
          b = Text.newline ∧ x = offset ∨
            ∃ i, (b :: t)[i + 1]? = some Text.newline ∧ x = (offset + (i + 1) : Nat) := by
        constructor
        · rintro ⟨i, hi, rfl⟩
          cases i with
          | zero => exact .inl ⟨by simpa using hi, rfl⟩
          | succ i => exact .inr ⟨i, hi, rfl⟩
        · rintro (⟨rfl, rfl⟩ | ⟨i, hi, rfl⟩)
          · exact ⟨0, rfl, rfl⟩
          · exact ⟨i + 1, hi, rfl⟩
      rw [hhead, ← htail, newlines]
      split
      · next hb => simp [hb]
      · next hb => simp [hb]

/-- The offsets of newline bytes increase. -/
theorem pairwise_newlines (offset : Nat) (t : Text) :
    (newlines offset t).Pairwise (· < ·) := by
  induction t generalizing offset with
  | nil => exact .nil
  | cons b t ih =>
      rw [newlines]
      split
      · refine .cons (fun x hx => ?_) (ih _)
        have := (bounds_of_mem_newlines hx).1
        omega
      · exact ih _

/-! ## Comments -/

variable {text : Text} {o : Nat} {p : Piece}

/-- **Every piece starts in code.** It ends in the region of its sort, and if this is not code
again then the text ends with the piece. -/
theorem StandsAt.exists_code (h : StandsAt text o p) :
    ∃ before after, text = before ++ (p.raw ++ after) ∧ Region.code.after before = .code ∧
      EndsIn p.sort (Region.code.after p.raw) ∧
      (Region.code.after p.raw = .code ∨ after = []) := by
  obtain ⟨first, last, hcut, -⟩ := h
  have hpieces := cut_induction text
    (motive := fun rs ps => ∀ first, ps = first ++ p :: last →
      ∃ before after, Rune.bytes rs = before ++ (p.raw ++ after) ∧
        Region.code.after before = .code ∧ EndsIn p.sort (Region.code.after p.raw) ∧
        (Region.code.after p.raw = .code ∨ after = []))
    (by simp) fun r rs ps hrs hnil ih first hps => by
      obtain ⟨hsort, hend, hbytes⟩ := after_bytes_next hrs
      cases first with
      | nil =>
          obtain ⟨rfl, -⟩ := List.cons_eq_cons.mp hps
          exact ⟨[], _, hbytes, rfl, hsort, hend.imp_right fun hnone => by rw [hnone]; rfl⟩
      | cons q first =>
          obtain ⟨rfl, hrest⟩ := List.cons_eq_cons.mp hps
          obtain ⟨before, after, heq, hcode, hends⟩ := ih first hrest
          -- another piece follows, so this one leads back to code
          have hfirst := hend.resolve_right fun hnone => by simp [hnil hnone] at hrest
          refine ⟨(next r rs).1.raw ++ before, after, ?_, ?_, hends⟩
          · rw [hbytes, heq, List.append_assoc]
          · rw [Region.after_append, hfirst, hcode]
  rw [Rune.bytes_all] at hpieces
  exact hpieces first hcut

/-- **A comment** is its number sign and what follows up to the end of the line. -/
theorem StandsAt.exists_comment {closed : Bool} {raw : Text}
    (h : StandsAt text o ⟨.comment closed, raw⟩) :
    ∃ body, Text.newline ∉ body ∧
      raw = Text.byte '#' :: body ++ if closed then [Text.newline] else [] := by
  obtain ⟨head, r, rs, hall, -, hp⟩ := h.exists_runes
  have hmem : ∀ s ∈ r :: rs, s ∈ Rune.all text := fun s hs => hall ▸ List.mem_append_right _ hs
  have hshape := shape_next r rs
  rw [← hp] at hshape
  obtain ⟨hcomment, hraw⟩ := hshape
  have hnext : (next r rs).1.sort = .comment (commentBody rs).2.1 := by
    simp [next, isBlank, hcomment]
  rw [← hp] at hnext
  obtain rfl : closed = (commentBody rs).2.1 := PieceSort.comment.inj hnext
  change raw = _ at hraw
  rw [hraw, Rune.raw_of_char (hmem r List.mem_cons_self) (by decide) hcomment]
  obtain ⟨body, hnewline, hopen | ⟨rest, hclosed⟩⟩ :=
    commentBody_cases fun s hs => hmem s (List.mem_cons_of_mem r hs)
  · exact ⟨body, hnewline, by simp [hopen]⟩
  · exact ⟨body, hnewline, by simp [hclosed]⟩

/-- **A number sign that belongs to no token** stands in a comment. -/
theorem StandsAt.isComment_of_sign (h : StandsAt text o p) (hnone : p.token? o = none)
    (hsign : Text.byte '#' ∈ p.raw) : ∃ closed, p.sort = .comment closed := by
  obtain ⟨head, r, rs, rest, hall, -, -, hshape⟩ := h.exists_shape
  have hr : r ∈ Rune.all text := hall ▸ List.mem_append_right _ List.mem_cons_self
  have hchar (hraw : p.raw = r.raw) : r.char = '#' := by
    by_contra hne
    exact Rune.byte_notMem_raw hr (by decide) hne (hraw ▸ hsign)
  obtain ⟨sort, raw⟩ := p
  cases sort with
  | comment closed => exact ⟨closed, rfl⟩
  | blank =>
      obtain ⟨hblank, hraw⟩ := hshape
      rw [hchar hraw] at hblank
      exact absurd hblank (by decide)
  | unknown c =>
      obtain ⟨rfl, hraw, hunknown⟩ := hshape
      exact absurd (hchar hraw) hunknown.comment
  | word | number _ | string _ | operator _ => cases hnone

/-- A text whose last region is a comment ends with the piece of one. -/
theorem exists_open_comment (h : Region.code.after text = .comment) :
    ∃ o raw, StandsAt text o ⟨.comment false, raw⟩ ∧ o + raw.length = text.length := by
  have hlast := cut_induction text
    (motive := fun rs ps => Region.code.after (Rune.bytes rs) = .comment →
      ∃ first raw, ps = first ++ [⟨.comment false, raw⟩])
    (fun hnil => by cases hnil) fun r rs ps hrs hnil ih hregion => by
      obtain ⟨hsort, hend, hbytes⟩ := after_bytes_next hrs
      rw [hbytes, Region.after_append] at hregion
      rcases hend with hcode | hnone
      · rw [hcode] at hregion
        obtain ⟨first, raw, rfl⟩ := ih hregion
        exact ⟨(next r rs).1 :: first, raw, rfl⟩
      · rw [hnone] at hregion
        change Region.code.after (next r rs).1.raw = .comment at hregion
        rw [hregion] at hsort
        obtain rfl := hnil hnone
        generalize (next r rs).1 = p at hsort
        obtain ⟨sort, raw⟩ := p
        cases sort with
        | comment closed =>
            cases closed with
            | false => exact ⟨[], raw, rfl⟩
            | true => cases hsort
        | string _ => exact absurd rfl hsort
        | _ => cases hsort
  rw [Rune.bytes_all] at hlast
  obtain ⟨first, raw, hcut⟩ := hlast h
  refine ⟨width first, raw, ⟨first, [], hcut, rfl⟩, ?_⟩
  rw [← width_cut text, hcut, width_append]
  rfl

end Piece

/-! ## Texts that end inside a comment -/

/-- **A text ends inside a comment**: a number sign that belongs to no token opens a comment, and
no newline follows. -/
def EndsInComment (text : Text) : Prop :=
  ∃ o, text[o]? = some (Text.byte '#') ∧ IsFree text (TokenStream.ofText text).tokens o ∧
    ∀ j, o ≤ j → text[j]? ≠ some Text.newline

/-- A number sign in no token, without a newline behind it, leaves the text in a comment. -/
theorem EndsInComment.after_eq {text : Text} (h : EndsInComment text) :
    Region.code.after text = .comment := by
  obtain ⟨i, hsign, hfree, hline⟩ := h
  obtain ⟨hlt, -⟩ := List.getElem?_eq_some_iff.mp hsign
  obtain ⟨o, p, hp, hlow, hhigh⟩ := Piece.exists_standsAt hlt
  have hnone : p.token? o = none := by
    by_contra hne
    obtain ⟨t, ht⟩ := Option.ne_none_iff_exists'.mp hne
    have hmem := TokenStream.mem_ofText_iff.mpr (.inl ⟨o, p, hp, ht⟩)
    exact hfree t hmem ((hp.covers_iff hlow hhigh hmem).mpr ht)
  obtain ⟨k, rfl⟩ := Nat.exists_eq_add_of_le hlow
  rw [hp.getElem?_eq (by omega)] at hsign
  obtain ⟨closed, hclosed⟩ := hp.isComment_of_sign hnone (List.mem_of_getElem? hsign)
  obtain ⟨sort, raw⟩ := p
  obtain rfl : sort = .comment closed := hclosed
  obtain ⟨body, -, hraw⟩ := hp.exists_comment
  cases closed with
  | true =>
      -- the newline that ends the comment stands behind the sign
      have hlength : raw.length = body.length + 2 := by simp [hraw]
      refine absurd ?_ (hline (o + (body.length + 1)) (by simp only at hhigh; omega))
      rw [hp.getElem?_eq (by simp only; omega)]
      simp [hraw]
  | false =>
      obtain ⟨before, after, htext, hcode, hsort, hend⟩ := hp.exists_code
      have hregion : Region.code.after raw = .comment := hsort
      have hnil : after = [] := hend.resolve_left fun hcode => by
        rw [hregion] at hcode
        cases hcode
      rw [htext, hnil, List.append_nil, Region.after_append, hcode, hregion]

/-- **A text ends inside a comment** exactly if its last region is one. -/
theorem endsInComment_iff {text : Text} :
    EndsInComment text ↔ Region.code.after text = .comment := by
  refine ⟨EndsInComment.after_eq, fun hregion => ?_⟩
  obtain ⟨o, raw, hp, hlength⟩ := Piece.exists_open_comment hregion
  obtain ⟨body, hnewline, hraw⟩ := hp.exists_comment
  have hroom : 0 < raw.length := List.length_pos_iff.mpr hp.raw_ne_nil
  refine ⟨o, ?_, hp.isFree rfl (Nat.le_refl o) (by simp only; omega), fun j hj hline => ?_⟩
  · exact (hp.getElem?_eq (j := 0) hroom).trans (by rw [hraw]; rfl)
  · obtain ⟨hlt, -⟩ := List.getElem?_eq_some_iff.mp hline
    obtain ⟨k, rfl⟩ := Nat.exists_eq_add_of_le hj
    rw [hp.getElem?_eq (by simp only; omega)] at hline
    have hmem : Text.newline ∈ Text.byte '#' :: body := by
      simpa [hraw] using List.mem_of_getElem? hline
    rcases List.mem_cons.mp hmem with hsign | hbody
    · exact absurd hsign (by decide)
    · exact hnewline hbody

namespace TokenStream

/-- **The line table of a text** increases, and holds exactly the offsets of the newline bytes and,
if the text ends inside a comment, the end of the text. -/
theorem lines_exact (text : Text) :
    (ofText text).lines.toList.Pairwise (· < ·) ∧
    ∀ x : Int, x ∈ (ofText text).lines ↔
      (∃ i, text[i]? = some Text.newline ∧ x = (i : Nat)) ∨
        EndsInComment text ∧ x = text.length := by
  have htable := toList_lines text
  constructor
  · rw [htable, List.pairwise_append]
    refine ⟨Piece.pairwise_newlines 0 text, ?_, fun x hx y hy => ?_⟩
    · split <;> simp
    · have := (Piece.bounds_of_mem_newlines hx).2
      split at hy
      · rw [List.mem_singleton.mp hy]
        omega
      · cases hy
  · intro x
    rw [← Array.mem_toList_iff, htable, List.mem_append, Piece.mem_newlines_iff, endsInComment_iff]
    refine or_congr (by simp only [Nat.zero_add]) ?_
    split
    · next hregion => simp [hregion]
    · next hregion => simp [hregion]

end TokenStream

end Badger
