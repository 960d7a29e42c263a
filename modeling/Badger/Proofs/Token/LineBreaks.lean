import Badger.Proofs.Token.Concatenation
import Mathlib.Data.List.Pairwise

/-!
# The line breaks of a text

The line table of a text holds the offsets of its newline bytes, wherever they stand, and one more
entry if the text ends in a comment: the end of the text. Two texts on separate lines have the line
breaks of both and that of the newline between them.

## Main statements

* `Piece.length_newlines`, `Piece.bounds_of_mem_newlines`: the offsets of newline bytes
* `TokenStream.lineBreaks_next`: where a piece breaks lines
* `TokenStream.toList_lines`: **the line table of a text**
* `TokenStream.ofText_separateLines`: **the tokens and the line table of two texts on separate
  lines**
-/

namespace Badger

/-! ## Newline bytes -/

namespace Piece

theorem newlines_append (offset : Nat) (t u : Text) :
    newlines offset (t ++ u) = newlines offset t ++ newlines (offset + t.length) u := by
  induction t generalizing offset with
  | nil => rfl
  | cons b t ih =>
      rw [List.cons_append, newlines, newlines, ih, List.length_cons, Nat.add_right_comm,
        Nat.add_assoc]
      split <;> rfl

/-- A text that starts further on has its newlines further on. -/
theorem newlines_add (offset k : Nat) (t : Text) :
    newlines (offset + k) t = (newlines offset t).map (· + (k : Int)) := by
  induction t generalizing offset with
  | nil => rfl
  | cons b t ih =>
      rw [newlines, newlines, Nat.add_right_comm, ih]
      split <;> simp

/-- There is one entry for each newline byte. -/
theorem length_newlines (offset : Nat) (t : Text) :
    (newlines offset t).length = t.count Text.newline := by
  induction t generalizing offset with
  | nil => rfl
  | cons b t ih =>
      rw [newlines, List.count_cons]
      split
      · next h => simp [ih, h]
      · next h => simp [ih, h]

/-- Newlines lie inside the text. -/
theorem bounds_of_mem_newlines {offset : Nat} {t : Text} {o : Int} (h : o ∈ newlines offset t) :
    (offset : Int) ≤ o ∧ o < (offset + t.length : Nat) := by
  induction t generalizing offset with
  | nil => cases h
  | cons b t ih =>
      have htail (h : o ∈ newlines (offset + 1) t) :
          (offset : Int) ≤ o ∧ o < (offset + (b :: t).length : Nat) := by
        have := ih h
        rw [List.length_cons]
        omega
      rw [newlines] at h
      split at h
      · rcases List.mem_cons.mp h with rfl | h
        · rw [List.length_cons]
          omega
        · exact htail h
      · exact htail h

end Piece

/-! ## Regions -/

/-- Behind a newline that is in no string literal there is code. -/
theorem Region.after_newline {a : Text} (h : ¬EndsInString a) (b : Text) :
    Region.code.after (a ++ Text.newline :: b) = Region.code.after b := by
  have hstep : (Region.code.after a).step Text.newline = .code := by
    rw [EndsInString, not_or] at h
    cases hm : Region.code.after a with
    | code => rfl
    | comment => rfl
    | quoted => exact absurd hm h.1
    | escaped => exact absurd hm h.2
  rw [Region.after_append, Region.after, hstep]

/-! ## Line tables -/

namespace TokenStream

open Piece (newlines newlines_append newlines_add)

/-- A piece breaks lines where it has newlines, and at its end if it is a comment without one. -/
theorem lineBreaks_next {text : Text} {r : Rune} {rs : List Rune}
    (hrs : ∀ s ∈ r :: rs, s ∈ Rune.all text) (offset : Nat) :
    (Piece.next r rs).1.lineBreaks offset = newlines offset (Piece.next r rs).1.raw ++
      if Region.code.after (Piece.next r rs).1.raw = .comment then
        [((offset + (Piece.next r rs).1.raw.length : Nat) : Int)] else [] := by
  obtain ⟨hsort, -, -⟩ := Piece.after_bytes_next hrs
  have hiff : (Piece.next r rs).1.sort = .comment false ↔
      Region.code.after (Piece.next r rs).1.raw = .comment := by
    generalize (Piece.next r rs).1 = p at hsort
    obtain ⟨sort, raw⟩ := p
    cases sort with
    | comment closed =>
        have hregion : Region.code.after raw = if closed then .code else .comment := hsort
        cases closed <;> simp [hregion]
    | string value => simp [show Region.code.after raw ≠ .comment from hsort]
    | _ => simp [show Region.code.after raw = .code from hsort]
  rw [Piece.lineBreaks]
  simp only [hiff]

/-- **The line table of a text** holds the offsets of its newline bytes, and the end of the text
if it ends in a comment. -/
theorem toList_lines (text : Text) :
    (ofText text).lines.toList = newlines 0 text ++
      if Region.code.after text = .comment then [(text.length : Int)] else [] := by
  have hbreaks := Piece.cut_induction text
    (motive := fun rs ps => ∀ offset, lineBreaksFrom offset ps =
      newlines offset (Rune.bytes rs) ++
        if Region.code.after (Rune.bytes rs) = .comment then
          [((offset + (Rune.bytes rs).length : Nat) : Int)] else [])
    (fun _ => rfl) fun r rs ps hrs hnil ih offset => by
      obtain ⟨-, hend, hbytes⟩ := Piece.after_bytes_next hrs
      rw [lineBreaksFrom_cons, lineBreaks_next hrs, hbytes, newlines_append, List.append_assoc,
        List.append_assoc, Region.after_append, List.length_append, ih, Nat.add_assoc]
      rcases hend with hcode | hnone
      · rw [hcode, if_neg (by decide), List.nil_append]
      · simp [hnone, newlines, Region.after]
  rw [Rune.bytes_all] at hbreaks
  have hlines := hbreaks 0
  rwa [Nat.zero_add] at hlines

/-- **Two texts on separate lines are read one after the other**, unless the first one ends inside
a string literal: the tokens of the first one without its end token, and those of the second one
moved behind it; the line breaks of the first one, the newline between the two, and the line breaks
of the second one moved behind it. -/
theorem ofText_separateLines {a : Text} (h : ¬EndsInString a) (b : Text) :
    (∃ body, (ofText a).tokens = body ++ [Token.endAt a.length] ∧
      (ofText (a ++ Text.newline :: b)).tokens =
        body ++ (ofText b).tokens.map (Token.mapPos (· + (a.length + 1 : Nat)))) ∧
    (ofText (a ++ Text.newline :: b)).lines =
      (ofText a).lines.filter (· < (a.length : Int)) ++ #[(a.length : Int)] ++
        (ofText b).lines.map (· + ((a.length + 1 : Nat) : Int)) := by
  constructor
  · obtain ⟨body, ending, htokens, -⟩ := ofText_tokens a
    obtain ⟨-, rfl⟩ := eq_bodyFrom htokens
    exact ⟨body, htokens, ofText_append htokens h b⟩
  · -- all entries of the first table but the one for an open comment lie inside the text
    have hbelow : (ofText a).lines.toList.filter (· < (a.length : Int)) = newlines 0 a := by
      rw [toList_lines, List.filter_append, List.filter_eq_self.mpr fun o ho => ?_]
      · split <;> simp
      · have := (Piece.bounds_of_mem_newlines ho).2
        rw [Nat.zero_add] at this
        exact decide_eq_true this
    have hnewline : newlines a.length (Text.newline :: b) =
        (a.length : Int) :: (newlines 0 b).map (· + ((a.length + 1 : Nat) : Int)) := by
      rw [newlines, if_pos rfl, ← newlines_add, Nat.zero_add]
    apply Array.toList_inj.mp
    rw [Array.toList_append, Array.toList_append, Array.toList_filter, hbelow, Array.toList_map,
      toList_lines, toList_lines, Region.after_newline h, newlines_append, Nat.zero_add, hnewline,
      List.map_append, List.append_assoc, List.append_assoc]
    have hend :
        ((a ++ Text.newline :: b).length : Int) = b.length + ((a.length + 1 : Nat) : Int) := by
      rw [List.length_append, List.length_cons]
      omega
    rw [hend]
    split <;> simp

/-- A comment ends at the line break, which keeps two signs of one kind apart; its quotation mark
opens no string. -/
theorem ofText_separateLines_comment :
    let a := utf8 "a & # \""
    let b := utf8 "& \"b"
    ¬EndsInString a ∧
      (ofText (a ++ Text.newline :: b)).tokens.map (fun t => (t.kind, t.offset)) =
        [(.ident, 0), (.and, 2), (.and, 8), (.string, 10), (.eof, 12)] ∧
      (ofText (a ++ Text.newline :: b)).lines = #[7] := by
  have hclosed : ¬EndsInString (utf8 "a & # \"") := by decide
  obtain ⟨⟨body, htokens, hboth⟩, hlines⟩ := ofText_separateLines hclosed (utf8 "& \"b")
  refine ⟨hclosed, ?_, ?_⟩
  · obtain ⟨rfl, -⟩ := eq_bodyFrom htokens
    rw [hboth]
    decide
  · apply Array.toList_inj.mp
    rw [hlines, Array.toList_append, Array.toList_append, Array.toList_filter, Array.toList_map]
    decide

end TokenStream

end Badger
