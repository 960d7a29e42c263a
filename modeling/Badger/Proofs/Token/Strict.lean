import Badger.Proofs.Number.Range
import Badger.Proofs.Source.Lines
import Badger.Proofs.Token.Placement

/-!
# Reading strictly and permissively

A strict reader takes the same tokens and line breaks off a text as one that passes over what is no
token. It reports the first thing that the other one passes over, and places it by the line breaks
that it has seen until then. These tell the same place as all line breaks of the text.

## Main definitions

* `StrictReading.Refuses`: what a strict reader refuses, and where

## Main statements

* `LineTable.locate_append`: a place depends only on the line breaks before it
* `TokenStream.lineBreaksFrom_bounds`: line breaks lie in the pieces that they are read off
* `StrictReading.refuses_iff`: what is refused are the pieces with a problem
* `StrictReading.ofText_agrees`: **how the two readers agree**

## Design notes

The line break of a comment without a newline stands at the end of its piece, and not inside it.
Such a comment is the last piece of a text, so no error comes after it.
-/

namespace Badger

/-! ## Places -/

namespace LineTable

variable {before after after' : List Int} {offset : Int}

/-- **A place depends only on the line breaks before it.** -/
theorem locate_append (hbefore : ∀ o ∈ before, o < offset) (hafter : ∀ o ∈ after, offset ≤ o)
    (hafter' : ∀ o ∈ after', offset ≤ o) (problem : Problem) :
    Diagnostic.locate problem offset (before ++ after).toArray =
      Diagnostic.locate problem offset (before ++ after').toArray := by
  have hcount := countBelow_append hbefore hafter
  have hcount' := countBelow_append hbefore hafter'
  have hcolumn : columnOf (before ++ after).toArray offset =
      columnOf (before ++ after').toArray offset := by
    unfold columnOf
    rw [hcount, hcount']
    cases hlength : before.length with
    | zero => rfl
    | succ k =>
        have hk : k < before.length := by omega
        show offset - Array.getD _ k 0 = offset - Array.getD _ k 0
        rw [getD_toArray, getD_toArray, List.getD_append _ _ _ _ hk, List.getD_append _ _ _ _ hk]
  unfold Diagnostic.locate lineOf
  rw [hcount, hcount', hcolumn]

end LineTable

/-! ## Line breaks of pieces -/

namespace Piece

/-- Line breaks lie in the piece, or at its end if it is a comment without a newline. -/
theorem bounds_of_mem_lineBreaks {p : Piece} {offset : Nat} {x : Int}
    (h : x ∈ p.lineBreaks offset) :
    (offset : Int) ≤ x ∧ (p.sort ≠ .comment false → x < (offset + p.raw.length : Nat)) := by
  rw [lineBreaks, List.mem_append] at h
  rcases h with h | h
  · have hbounds := bounds_of_mem_newlines h
    exact ⟨hbounds.1, fun _ => hbounds.2⟩
  · split at h
    · next hsort =>
      rw [List.mem_singleton] at h
      exact ⟨by omega, fun hne => absurd hsort hne⟩
    · cases h

/-- **A comment without a newline is the last piece** of a text. -/
theorem sort_ne_of_mem_before {text : Text} {before after : List Piece} {p : Piece}
    (h : cut text = before ++ p :: after) : ∀ q ∈ before, q.sort ≠ .comment false := by
  refine cut_induction text (motive := fun _ ps => ∀ before, ps = before ++ p :: after →
    ∀ q ∈ before, q.sort ≠ .comment false) ?_ ?_ before h
  · intro before hnil
    simp at hnil
  · intro r rs ps hrs hlast ih before hps
    cases before with
    | nil => exact List.forall_mem_nil _
    | cons q before =>
        obtain ⟨rfl, hrest⟩ := List.cons_eq_cons.mp hps
        refine List.forall_mem_cons.mpr ⟨fun hsort => ?_, ih before hrest⟩
        obtain ⟨hends, hcode | hnone, -⟩ := after_bytes_next hrs
        · rw [hsort, hcode] at hends
          cases hends
        · rw [hlast hnone] at hrest
          simp at hrest

end Piece

namespace TokenStream

open Piece (width)

theorem lineBreaksFrom_append (offset : Nat) (ps qs : List Piece) :
    lineBreaksFrom offset (ps ++ qs) =
      lineBreaksFrom offset ps ++ lineBreaksFrom (offset + width ps) qs := by
  induction ps generalizing offset with
  | nil => rfl
  | cons p ps ih =>
      rw [List.cons_append, lineBreaksFrom_cons, lineBreaksFrom_cons, ih, List.append_assoc, width,
        Nat.add_assoc]

/-- **Line breaks lie in the pieces that they are read off**, unless one of these is a comment
without a newline. -/
theorem lineBreaksFrom_bounds (offset : Nat) (ps : List Piece) :
    (∀ x ∈ lineBreaksFrom offset ps, (offset : Int) ≤ x) ∧
      ((∀ q ∈ ps, q.sort ≠ .comment false) →
        ∀ x ∈ lineBreaksFrom offset ps, x < (offset + width ps : Nat)) := by
  induction ps generalizing offset with
  | nil => exact ⟨List.forall_mem_nil _, fun _ => List.forall_mem_nil _⟩
  | cons p ps ih =>
      obtain ⟨hlow, hhigh⟩ := ih (offset + p.raw.length)
      rw [lineBreaksFrom_cons, List.forall_mem_append, List.forall_mem_append, List.forall_mem_cons,
        width, ← Nat.add_assoc]
      refine ⟨⟨fun x hx => (Piece.bounds_of_mem_lineBreaks hx).1, fun x hx => ?_⟩,
        fun hsorts => ⟨fun x hx => ?_, hhigh hsorts.2⟩⟩
      · have := hlow x hx
        omega
      · have := (Piece.bounds_of_mem_lineBreaks hx).2 hsorts.1
        omega

end TokenStream

/-! ## What is refused -/

namespace Piece

/-- A numeral has the value of what it is written as. -/
theorem StandsAt.number_eq {text : Text} {o : Nat} {value : Option Float} {raw : Text}
    (h : StandsAt text o ⟨.number value, raw⟩) : value = numeralValue? raw := by
  obtain ⟨_, _, _, _, -, -, -, hshape⟩ := h.exists_shape
  exact hshape

end Piece

namespace StrictReading

open Piece (StandsAt width)
open TokenStream (lineBreaksFrom lineBreaksFrom_append lineBreaksFrom_bounds)

/-- **What a strict reader refuses** at an offset of a text. -/
inductive Refuses (text : Text) (o : Nat) : Problem → Prop
  /-- A character that starts no token and is passed over. -/
  | character {c : Char} {raw : Text} (h : StandsAt text o ⟨.unknown c, raw⟩) :
      Refuses text o (.unexpectedCharacter c)
  /-- A numeral that no finite number is nearest to. -/
  | numeral {value : Option Float} {lexeme : Text} (h : StandsAt text o ⟨.number value, lexeme⟩)
      (hrange : Number.overflowBound ≤ Number.decimalValue lexeme) :
      Refuses text o (.invalidNumber lexeme)

/-- **What is refused** are the pieces with a problem. -/
theorem refuses_iff {text : Text} {o : Nat} {problem : Problem} :
    Refuses text o problem ↔ ∃ p, StandsAt text o p ∧ p.problem? = some problem := by
  constructor
  · rintro (hstands | ⟨hstands, hrange⟩)
    · exact ⟨_, hstands, rfl⟩
    · refine ⟨_, hstands, ?_⟩
      rw [hstands.number_eq, (Number.numeralValue?_eq_none_iff _).mpr hrange]
      rfl
  · rintro ⟨⟨sort, raw⟩, hstands, hproblem⟩
    cases sort with
    | unknown c =>
        cases hproblem
        exact .character hstands
    | number value =>
        cases value with
        | some x => cases hproblem
        | none =>
            cases hproblem
            have hnone : Piece.numeralValue? raw = none := hstands.number_eq.symm
            exact .numeral hstands ((Number.numeralValue?_eq_none_iff raw).mp hnone)
    | _ => cases hproblem

/-- **The error of a strict reader**: there is none and nothing is refused, or it is the first thing
that is refused, placed by all line breaks of the text. -/
theorem error?_cases (text : Text) :
    (ofText text).error? = none ∧ (∀ o problem, ¬Refuses text o problem) ∨
      ∃ (o : Nat) (problem : Problem), Refuses text o problem ∧
        (∀ o' problem', Refuses text o' problem' → o ≤ o') ∧
        (ofText text).error? =
          some (Diagnostic.locate problem o (TokenStream.ofText text).lines) := by
  rcases error?_ofText text with
    ⟨hpieces, hnone⟩ | ⟨before, p, after, problem, hcut, hbefore, hp, hsome⟩
  · refine .inl ⟨hnone, fun o problem hrefuses => ?_⟩
    obtain ⟨p, hstands, hproblem⟩ := refuses_iff.mp hrefuses
    rw [hpieces p hstands.mem_cut] at hproblem
    cases hproblem
  · refine .inr ⟨width before, problem, refuses_iff.mpr ⟨p, ⟨before, after, hcut, rfl⟩, hp⟩, ?_, ?_⟩
    · intro o' problem' hrefuses
      obtain ⟨p', ⟨before', after', hcut', rfl⟩, hproblem'⟩ := refuses_iff.mp hrefuses
      rw [hcut] at hcut'
      rcases List.append_eq_append_iff.mp hcut' with ⟨rest, rfl, -⟩ | ⟨rest, rfl, hrest⟩
      · rw [Piece.width_append]
        omega
      · cases rest with
        | nil => simp
        | cons q rest =>
            -- a piece before the first one with a problem has none
            obtain ⟨rfl, -⟩ := List.cons_eq_cons.mp hrest
            rw [hbefore p' (by simp)] at hproblem'
            cases hproblem'
    · have hlines : (TokenStream.ofText text).lines =
          (lineBreaksFrom 0 before ++ lineBreaksFrom (width before) (p :: after)).toArray := by
        show (lineBreaksFrom 0 (Piece.cut text)).toArray = _
        rw [hcut, lineBreaksFrom_append, Nat.zero_add]
      have hhigh := (lineBreaksFrom_bounds 0 before).2 (Piece.sort_ne_of_mem_before hcut)
      rw [Nat.zero_add] at hhigh
      rw [hsome, hlines, lineBreaksFrom_append, Nat.zero_add]
      exact congrArg some (LineTable.locate_append hhigh (lineBreaksFrom_bounds _ _).1
        (lineBreaksFrom_bounds _ _).1 problem)

/-- **How the two readers agree.** They have the same line breaks. The strict one reports an error
if and only if something is refused; the error is the first thing that is refused, at its offset,
and placed as all line breaks of the text place it. Without an error the tokens are the same. -/
theorem ofText_agrees (text : Text) :
    (ofText text).lines = (TokenStream.ofText text).lines ∧
      ((∃ d, TokenStream.ofTextStrict text = .error d) ↔ ∃ o problem, Refuses text o problem) ∧
      (∀ d, TokenStream.ofTextStrict text = .error d → ∃ (o : Nat) (problem : Problem),
        Refuses text o problem ∧ (∀ o' problem', Refuses text o' problem' → o ≤ o') ∧
        d = Diagnostic.locate problem o (TokenStream.ofText text).lines) ∧
      (∀ stream, TokenStream.ofTextStrict text = .ok stream →
        stream = TokenStream.ofText text) := by
  refine ⟨lines_ofText text, ?_⟩
  rcases error?_cases text with ⟨hnone, hnothing⟩ | ⟨o, problem, hrefuses, hfirst, hsome⟩
  · have hread : TokenStream.ofTextStrict text = .ok (TokenStream.ofText text) :=
      stream_of_none hnone
    rw [hread]
    refine ⟨iff_of_false nofun ?_, nofun, fun stream hstream => (Except.ok.inj hstream).symm⟩
    rintro ⟨o, problem, hrefuses⟩
    exact hnothing o problem hrefuses
  · have hread : TokenStream.ofTextStrict text = .error _ := stream_of_some hsome
    rw [hread]
    refine ⟨iff_of_true ⟨_, rfl⟩ ⟨o, problem, hrefuses⟩, ?_, nofun⟩
    rintro d ⟨⟩
    exact ⟨o, problem, hrefuses, hfirst, rfl⟩

/-- The second line starts with what is refused. What stands in the comment is not, and the string
literal behind it has its newline in the table. -/
example :
    let reading := ofText (utf8 "# $\n$ \"\n")
    reading.error?.map (fun d => (d.offset, d.line, d.column)) = some (4, 2, 1) ∧
      reading.lines = #[3, 7] := by
  decide +kernel

end StrictReading

end Badger
