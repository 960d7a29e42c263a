import Badger.Proofs.Token.Placement

/-!
# Where string literals end

A string literal ends behind the first quotation mark after its opening one that is not escaped, or
at the end of the text. A mark is escaped if an odd number of backslashes stands right before it.

## Main definitions

* `Text.trailingBackslashes`: how many backslashes a text ends with
* `IsOpenMark`: quotation marks that are not escaped
* `IsLiteral`: the bytes of a string literal

## Main statements

* `IsLiteral.unique`: a literal has one end
* `Piece.stringBody_escapes`: a scanned literal holds escaped marks only, up to its last byte
* `Piece.StandsAt.isLiteral`: **the piece of a string literal has the bytes of one**

## Design notes

The scanner takes two characters at a backslash, and never counts. A backslash that is escaped
itself does not escape, so what is odd or even is the number of backslashes behind the last byte
that is none; the scanner stands behind an even number whenever it looks at a character.
-/

namespace Badger

/-! ## Backslashes -/

namespace Text

/-- How many backslashes a text ends with. -/
def trailingBackslashes (t : Text) : Nat := (t.reverse.takeWhile (· == byte '\\')).length

@[simp] theorem trailingBackslashes_concat (t : Text) (b : UInt8) :
    trailingBackslashes (t ++ [b]) = if b = byte '\\' then trailingBackslashes t + 1 else 0 := by
  unfold trailingBackslashes
  rw [List.reverse_concat, List.takeWhile_cons]
  by_cases hb : b = byte '\\' <;> simp [hb]

theorem trailingBackslashes_append {t : Text} (hne : t ≠ []) (h : byte '\\' ∉ t) (before : Text) :
    trailingBackslashes (before ++ t) = 0 := by
  obtain ⟨init, last, rfl⟩ := (List.eq_nil_or_concat t).resolve_left hne
  have hlast : last ≠ byte '\\' := by
    rintro rfl
    exact h (by simp)
  rw [List.concat_eq_append, ← List.append_assoc, trailingBackslashes_concat, if_neg hlast]

/-- **The quotation marks of a text are escaped**, if it stands behind another one. -/
def Escapes (before t : Text) : Prop :=
  ∀ j, t[j]? = some (byte '"') → trailingBackslashes (before ++ t.take j) % 2 = 1

theorem escapes_of_notMem {t : Text} (h : byte '"' ∉ t) (before : Text) : Escapes before t :=
  fun _ hj => absurd (List.mem_of_getElem? hj) h

theorem Escapes.append {before t u : Text} (ht : Escapes before t) (hu : Escapes (before ++ t) u) :
    Escapes before (t ++ u) := by
  intro j hj
  by_cases hlt : j < t.length
  · rw [List.getElem?_append_left hlt] at hj
    rw [List.take_append_of_le_length (Nat.le_of_lt hlt)]
    exact ht j hj
  · rw [List.getElem?_append_right (Nat.not_lt.mp hlt)] at hj
    rw [List.take_append, List.take_of_length_le (Nat.not_lt.mp hlt), ← List.append_assoc]
    exact hu _ hj

end Text

/-! ## Literals -/

open Text (trailingBackslashes Escapes)

/-- **A quotation mark that is not escaped** stands at the position. -/
def IsOpenMark (text : Text) (i : Nat) : Prop :=
  text[i]? = some (Text.byte '"') ∧ trailingBackslashes (text.take i) % 2 = 0

instance (text : Text) (i : Nat) : Decidable (IsOpenMark text i) :=
  inferInstanceAs (Decidable (_ ∧ _))

/-- The mark behind one backslash is escaped, and the one behind two is not. -/
example : (List.range 10).filter (IsOpenMark (utf8 "x\"a\\\"\\\\\"\"")) = [1, 7, 8] := by
  decide +kernel

/-- **The bytes of a string literal**: from its opening mark up to and including the first mark
after it that is not escaped, or up to the end of the text. -/
inductive IsLiteral (text : Text) (o : Nat) : Nat → Prop
  | closed {i : Nat} (hopening : text[o]? = some (Text.byte '"')) (hlt : o < i)
      (hmark : IsOpenMark text i) (hfirst : ∀ j, o < j → j < i → ¬IsOpenMark text j) :
      IsLiteral text o (i + 1)
  | unclosed (hopening : text[o]? = some (Text.byte '"'))
      (hnone : ∀ j, o < j → ¬IsOpenMark text j) : IsLiteral text o text.length

/-- **A literal has one end.** -/
theorem IsLiteral.unique {text : Text} {o e e' : Nat} (h : IsLiteral text o e)
    (h' : IsLiteral text o e') : e = e' := by
  cases h with
  | closed _ hlt hmark hfirst =>
      cases h' with
      | closed _ hlt' hmark' hfirst' =>
          have hle := Nat.not_lt.mp fun h => hfirst' _ hlt h hmark
          have hge := Nat.not_lt.mp fun h => hfirst _ hlt' h hmark'
          rw [Nat.le_antisymm hge hle]
      | unclosed _ hnone => exact absurd hmark (hnone _ hlt)
  | unclosed _ hnone =>
      cases h' with
      | closed _ hlt hmark _ => exact absurd hmark (hnone _ hlt)
      | unclosed => rfl

/-- No mark is open in a text whose marks are escaped. -/
theorem not_isOpenMark {before t after : Text} (h : Escapes before t) {j : Nat}
    (hlow : before.length ≤ j) (hhigh : j < before.length + t.length) :
    ¬IsOpenMark (before ++ (t ++ after)) j := by
  have hlt : j - before.length < t.length := by omega
  rintro ⟨hmark, heven⟩
  rw [List.getElem?_append_right hlow, List.getElem?_append_left hlt] at hmark
  rw [List.take_append, List.take_of_length_le hlow,
    List.take_append_of_le_length (Nat.le_of_lt hlt), h _ hmark] at heven
  cases heven

theorem isLiteral_closed {before inner : Text} (h : Escapes (before ++ [Text.byte '"']) inner)
    (heven : trailingBackslashes (before ++ [Text.byte '"'] ++ inner) % 2 = 0) (after : Text) :
    IsLiteral (before ++ Text.byte '"' :: (inner ++ Text.byte '"' :: after)) before.length
      (before.length + inner.length + 2) := by
  have htext : before ++ Text.byte '"' :: (inner ++ Text.byte '"' :: after) =
      before ++ [Text.byte '"'] ++ (inner ++ Text.byte '"' :: after) := by simp
  have hlength : (before ++ [Text.byte '"'] ++ inner).length =
      before.length + inner.length + 1 := by
    simp
    omega
  refine .closed (i := before.length + inner.length + 1) (by simp) (by omega) ⟨?_, ?_⟩ ?_
  · rw [htext, ← List.append_assoc, ← hlength, List.getElem?_append_right (Nat.le_refl _)]
    simp
  · rw [htext, ← List.append_assoc, ← hlength, List.take_left]
    exact heven
  · intro j hlow hhigh
    rw [htext]
    exact not_isOpenMark h (by simp; omega) (by simp; omega)

theorem isLiteral_unclosed {before inner : Text} (h : Escapes (before ++ [Text.byte '"']) inner) :
    IsLiteral (before ++ Text.byte '"' :: inner) before.length
      (before ++ Text.byte '"' :: inner).length := by
  have htext : before ++ Text.byte '"' :: inner =
      before ++ [Text.byte '"'] ++ (inner ++ []) := by simp
  refine .unclosed (by simp) fun j hlow hmark => ?_
  have hhigh : j < (before ++ Text.byte '"' :: inner).length :=
    (List.getElem?_eq_some_iff.mp hmark.1).1
  rw [htext] at hmark
  refine not_isOpenMark h ?_ ?_ hmark
  · simp; omega
  · simp at hhigh ⊢; omega

namespace Piece

variable {text : Text}

/-! ## What the scanner takes -/

/-- The character behind a backslash is escaped, and what follows it is not. -/
theorem escapes_escaped {r : Rune} (hr : r ∈ Rune.all text) {before : Text}
    (hodd : trailingBackslashes before % 2 = 1) :
    Escapes before r.raw ∧ trailingBackslashes (before ++ r.raw) % 2 = 0 := by
  rcases Rune.ascii_or_wide hr with ⟨-, hraw⟩ | ⟨-, hwide⟩
  · rw [hraw]
    refine ⟨fun j hj => ?_, ?_⟩
    · obtain ⟨hlt, -⟩ := List.getElem?_eq_some_iff.mp hj
      obtain rfl : j = 0 := Nat.lt_one_iff.mp hlt
      rwa [List.take_zero, List.append_nil]
    · rw [Text.trailingBackslashes_concat]
      split <;> omega
  · have hnotMem {b : UInt8} (hb : b.toNat < 128) : b ∉ r.raw := by
      intro hmem
      have := hwide b hmem
      omega
    refine ⟨Text.escapes_of_notMem (hnotMem (by decide)) before, ?_⟩
    rw [Text.trailingBackslashes_append (Rune.plain_of_mem_all hr).1 (hnotMem (by decide))]

/-- **A scanned literal holds escaped marks only**, up to its last byte: this one is a mark that is
not escaped, or the text ends. -/
theorem stringBody_escapes {rs : List Rune} (hrs : ∀ r ∈ rs, r ∈ Rune.all text) {before : Text}
    (heven : trailingBackslashes before % 2 = 0) :
    ∃ inner, Escapes before inner ∧
      ((stringBody rs).2.1 = inner ++ [Text.byte '"'] ∧
          trailingBackslashes (before ++ inner) % 2 = 0 ∨
        (stringBody rs).2.1 = inner ∧ (stringBody rs).2.2 = []) := by
  fun_induction stringBody rs generalizing before with
  | case1 => exact ⟨[], Text.escapes_of_notMem List.not_mem_nil _, .inr ⟨rfl, rfl⟩⟩
  | case2 r rs hquote =>
      refine ⟨[], Text.escapes_of_notMem List.not_mem_nil _, .inl ⟨?_, ?_⟩⟩
      · exact Rune.raw_of_char (hrs r List.mem_cons_self) (by decide) hquote
      · rwa [List.append_nil]
  | case3 r _ hescape =>
      refine ⟨r.raw, ?_, .inr ⟨rfl, rfl⟩⟩
      rw [Rune.raw_of_char (hrs r List.mem_cons_self) (by decide) hescape]
      exact Text.escapes_of_notMem (by decide) _
  | case4 r _ hescape e rest value raw after hresult ih =>
      rw [List.forall_mem_cons, List.forall_mem_cons] at hrs
      have hbackslash : r.raw = [Text.byte '\\'] := Rune.raw_of_char hrs.1 (by decide) hescape
      have hfirst : Escapes before r.raw := by
        rw [hbackslash]
        exact Text.escapes_of_notMem (by decide) _
      have hodd : trailingBackslashes (before ++ r.raw) % 2 = 1 := by
        rw [hbackslash, Text.trailingBackslashes_concat, if_pos rfl]
        omega
      obtain ⟨hescaped, heven'⟩ := escapes_escaped hrs.2.1 hodd
      have hboth := hfirst.append hescaped
      rw [List.append_assoc] at heven'
      obtain ⟨inner, hinner, hend⟩ := ih hrs.2.2 heven'
      refine ⟨r.raw ++ e.raw ++ inner, hboth.append hinner, ?_⟩
      rw [hresult] at hend
      simpa [List.append_assoc] using hend
  | case5 r rs hquote hescape value raw after hresult ih =>
      rw [List.forall_mem_cons] at hrs
      have hplain : Escapes before r.raw :=
        Text.escapes_of_notMem (Rune.byte_notMem_raw hrs.1 (by decide) hquote) _
      have heven' : trailingBackslashes (before ++ r.raw) % 2 = 0 := by
        rw [Text.trailingBackslashes_append (Rune.plain_of_mem_all hrs.1).1
          (Rune.byte_notMem_raw hrs.1 (by decide) hescape)]
      obtain ⟨inner, hinner, hend⟩ := ih hrs.2 heven'
      refine ⟨r.raw ++ inner, hplain.append hinner, ?_⟩
      rw [hresult] at hend
      simpa [List.append_assoc] using hend

/-- **The piece of a string literal has the bytes of one.** -/
theorem StandsAt.isLiteral {o : Nat} {value raw : Text} (h : StandsAt text o ⟨.string value, raw⟩) :
    IsLiteral text o (o + raw.length) := by
  obtain ⟨head, r, rs, rest, hall, rfl, htext, hmark, hraw, hrest⟩ := h.exists_shape
  have hmem : ∀ s ∈ r :: rs, s ∈ Rune.all text := fun s hs => hall ▸ List.mem_append_right _ hs
  change raw = _ at hraw
  change text = _ ++ (raw ++ _) at htext
  rw [Rune.raw_of_char (hmem r List.mem_cons_self) (by decide) hmark] at hraw
  -- the opening mark is no backslash, so nothing before it escapes
  have heven : trailingBackslashes (Rune.bytes head ++ [Text.byte '"']) % 2 = 0 := by
    rw [Text.trailingBackslashes_concat, if_neg (by decide)]
  obtain ⟨inner, hinner, hend⟩ :=
    stringBody_escapes (fun s hs => hmem s (List.mem_cons_of_mem r hs)) heven
  rcases hend with ⟨hbody, heven'⟩ | ⟨hbody, hnone⟩
  · have hliteral := isLiteral_closed hinner heven' (Rune.bytes rest)
    have hlength : raw.length = inner.length + 2 := by simp [hraw, hbody]
    rw [htext, hlength, hraw, hbody]
    simpa [Nat.add_assoc] using hliteral
  · have hliteral := isLiteral_unclosed hinner
    rw [htext, hrest, hnone, hraw, hbody]
    simpa using hliteral

end Piece

end Badger
