import Badger.Proofs.Token.LineBreaks
import Mathlib.Data.List.GetD
import Mathlib.Data.List.Induction

/-!
# Lines, columns and snippets

A place in a text is told in two ways: by a search in the line table that the lexer makes, and by
looking for the newline bytes around the offset. Both find the same line.

## Main definitions

* `Text.LineAt`: the line around an offset, cut at the offset
* `Text.IsLastNewline`: the last newline byte before an offset

## Main statements

* `LineTable.countBelow_append`: the search finds the border between two parts of a table
* `Text.LineAt.lineOf_eq`, `Text.LineAt.columnOf_eq`: line and column by the table of the text
* `Text.LineAt.snippet_eq`: the snippet shows the line
* `Diagnostic.place_ofText`: **line, column and snippet agree with the text**
-/

namespace Badger

/-! ## Searching a line table -/

namespace LineTable

/-- **The search** finds the border between the entries below an offset and the others. -/
theorem search_eq {table : LineTable} {offset : Int} {n lo hi : Nat}
    (hbelow : ∀ k < n, table.getD k 0 < offset)
    (habove : ∀ k, n ≤ k → k < table.size → offset ≤ table.getD k 0) (hlo : lo ≤ n) (hhi : n ≤ hi)
    (hsize : hi ≤ table.size) : search table offset lo hi = n := by
  fun_induction search table offset lo hi with
  | case1 lo hi hlt mid hmid ih =>
      refine ih ?_ hhi hsize
      by_contra hgt
      exact absurd (habove mid (by omega) (by omega)) (by omega)
  | case2 lo hi hlt mid hmid ih =>
      refine ih hlo ?_ (by omega)
      by_contra hgt
      exact hmid (hbelow mid (by omega))
  | case3 lo hi hge => omega

theorem getD_toArray (entries : List Int) (k : Nat) :
    Array.getD entries.toArray k 0 = entries.getD k 0 := by
  simp [Array.getD_eq_getD_getElem?]

theorem countBelow_append {before after : List Int} {offset : Int}
    (hbefore : ∀ o ∈ before, o < offset) (hafter : ∀ o ∈ after, offset ≤ o) :
    countBelow (before ++ after).toArray offset = before.length := by
  refine search_eq ?_ ?_ (Nat.zero_le _) ?_ Nat.le.refl
  · intro k hk
    rw [getD_toArray, List.getD_append _ _ _ _ hk, List.getD_eq_getElem _ _ hk]
    exact hbefore _ (List.getElem_mem hk)
  · intro k hk hlt
    rw [List.size_toArray, List.length_append] at hlt
    rw [getD_toArray, List.getD_append_right _ _ _ _ hk, List.getD_eq_getElem _ _ (by omega)]
    exact hafter _ (List.getElem_mem _)
  · rw [List.size_toArray, List.length_append]
    exact Nat.le_add_right _ _

/-- **Line and column determine the offset**, whatever the table is. -/
theorem eq_of_lineOf_of_columnOf {table : LineTable} {o o' : Int}
    (hline : table.lineOf o = table.lineOf o') (hcolumn : table.columnOf o = table.columnOf o') :
    o = o' := by
  have hcount : table.countBelow o = table.countBelow o' := Nat.succ.inj hline
  rw [columnOf, columnOf, ← hcount] at hcolumn
  split at hcolumn <;> omega

end LineTable

/-! ## Lines of a text -/

namespace Text

/-- A text is its last line behind what ends in a newline, if anything. -/
theorem exists_lastLine (t : Text) : ∃ before start, t = before ++ start ∧ newline ∉ start ∧
    (before = [] ∨ ∃ earlier, before = earlier ++ [newline]) := by
  induction t using List.reverseRecOn with
  | nil => exact ⟨[], [], rfl, List.not_mem_nil, .inl rfl⟩
  | append_singleton t b ih =>
      by_cases hb : b = newline
      · subst hb
        exact ⟨t ++ [newline], [], by simp, List.not_mem_nil, .inr ⟨t, rfl⟩⟩
      · obtain ⟨before, start, rfl, hstart, hbefore⟩ := ih
        refine ⟨before, start ++ [b], by simp, ?_, hbefore⟩
        simp [hstart, Ne.symm hb]

/-- A text is its first line in front of what starts with a newline, if anything. -/
theorem exists_firstLine (t : Text) : ∃ rest after, t = rest ++ after ∧ newline ∉ rest ∧
    (after = [] ∨ ∃ later, after = newline :: later) := by
  induction t with
  | nil => exact ⟨[], [], rfl, List.not_mem_nil, .inl rfl⟩
  | cons b t ih =>
      by_cases hb : b = newline
      · subst hb
        exact ⟨[], newline :: t, rfl, List.not_mem_nil, .inr ⟨t, rfl⟩⟩
      · obtain ⟨rest, after, rfl, hrest, hafter⟩ := ih
        refine ⟨b :: rest, after, rfl, ?_, hafter⟩
        simp [hrest, Ne.symm hb]

/-- **The line around an offset**: the bytes of the line before the offset and behind it, and what
stands before and after the line. -/
structure LineAt (src : Text) (o : Nat) (before start rest after : Text) : Prop where
  eq : src = before ++ (start ++ rest) ++ after
  offset_eq : o = before.length + start.length
  newline_notMem : newline ∉ start ++ rest
  before_ends : before = [] ∨ ∃ earlier, before = earlier ++ [newline]
  after_starts : after = [] ∨ ∃ later, after = newline :: later

/-- The last newline byte before an offset. -/
def IsLastNewline (src : Text) (o k : Nat) : Prop :=
  k < o ∧ src[k]? = some newline ∧ ∀ j, k < j → j < o → src[j]? ≠ some newline

theorem exists_lineAt {src : Text} {o : Nat} (h : o ≤ src.length) :
    ∃ before start rest after, LineAt src o before start rest after := by
  obtain ⟨before, start, htake, hstart, hbefore⟩ := exists_lastLine (src.take o)
  obtain ⟨rest, after, hdrop, hrest, hafter⟩ := exists_firstLine (src.drop o)
  refine ⟨before, start, rest, after, ?_, ?_, by simp [hstart, hrest], hbefore, hafter⟩
  · rw [← List.take_append_drop o src, htake, hdrop]
    simp
  · have hlength := congrArg List.length htake
    rwa [List.length_take_of_le h, List.length_append] at hlength

theorem length_splitOn (b : UInt8) (t : Text) : (t.splitOn b).length = t.count b + 1 := by
  induction t with
  | nil => simp
  | cons c t ih =>
      rw [List.splitOn_cons_eq_if_modifyHead, List.count_cons]
      by_cases hc : (c == b) = true
      · rw [if_pos hc, if_pos hc, List.length_cons, ih]
      · rw [if_neg hc, if_neg hc, List.length_modifyHead, ih]

/-- What is cut off at the end of a text, and what is left. -/
theorem dropTrailing_spec (b : UInt8) (t : Text) :
    (∃ n, t = dropTrailing b t ++ List.replicate n b) ∧ (dropTrailing b t).getLast? ≠ some b := by
  have hsplit : t.reverse.takeWhile (· == b) ++ t.reverse.dropWhile (· == b) = t.reverse :=
    List.takeWhile_append_dropWhile
  constructor
  · have htaken : t.reverse.takeWhile (· == b) =
        List.replicate (t.reverse.takeWhile (· == b)).length b := by
      refine List.eq_replicate_of_mem fun c hc => ?_
      exact beq_iff_eq.mp (List.all_eq_true.mp List.all_takeWhile c hc)
    refine ⟨(t.reverse.takeWhile (· == b)).length, ?_⟩
    rw [← List.reverse_inj, List.reverse_append, List.reverse_replicate, ← htaken, dropTrailing,
      List.reverse_reverse, hsplit]
  · rw [dropTrailing, List.getLast?_reverse]
    intro hhead
    have hnot := List.head?_dropWhile_not (· == b) t.reverse
    rw [hhead] at hnot
    simp at hnot

namespace LineAt

variable {src : Text} {o : Nat} {before start rest after : Text}

section

variable (h : LineAt src o before start rest after)

include h

theorem length_head : (before ++ start).length = o := by
  rw [List.length_append, h.offset_eq]

theorem split_eq : src = (before ++ start) ++ (rest ++ after) := by
  rw [h.eq]
  simp

theorem take_eq : src.take o = before ++ start := by
  rw [h.split_eq, List.take_left' h.length_head]

theorem drop_eq : src.drop o = rest ++ after := by
  rw [h.split_eq, List.drop_left' h.length_head]

theorem notMem_start : newline ∉ start :=
  fun hmem => h.newline_notMem (List.mem_append_left rest hmem)

theorem notMem_rest : newline ∉ rest :=
  fun hmem => h.newline_notMem (List.mem_append_right start hmem)

/-- The newlines before an offset are those before its line. -/
theorem count_head : (src.take o).count newline = before.count newline := by
  rw [h.take_eq, List.count_append, List.count_eq_zero_of_not_mem h.notMem_start, Nat.add_zero]

/-! ### Lines and columns -/

/-- The entries of the line table: those before the line, and those not below the offset. -/
theorem exists_lines : ∃ later, (TokenStream.ofText src).lines =
    (Piece.newlines 0 before ++ later).toArray ∧ ∀ x ∈ later, (o : Int) ≤ x := by
  have hstart : Piece.newlines before.length start = [] := by
    rw [← List.length_eq_zero_iff, Piece.length_newlines]
    exact List.count_eq_zero_of_not_mem h.notMem_start
  refine ⟨Piece.newlines o (rest ++ after) ++
    if Region.code.after src = .comment then [(src.length : Int)] else [], ?_, fun x hx => ?_⟩
  · apply Array.toList_inj.mp
    rw [TokenStream.toList_lines, ← List.append_assoc]
    congr 1
    conv_lhs => rw [h.split_eq]
    rw [Piece.newlines_append, h.length_head, Nat.zero_add, Piece.newlines_append, Nat.zero_add,
      hstart, List.append_nil]
  · rcases List.mem_append.mp hx with hx | hx
    · exact (Piece.bounds_of_mem_newlines hx).1
    · have hlength := congrArg List.length h.split_eq
      rw [List.length_append, h.length_head] at hlength
      split at hx
      · rw [List.mem_singleton.mp hx]
        omega
      · cases hx

theorem countBelow_eq :
    (TokenStream.ofText src).lines.countBelow o = before.count newline := by
  obtain ⟨later, hlines, hlater⟩ := h.exists_lines
  have hbefore : ∀ x ∈ Piece.newlines 0 before, x < (o : Int) := by
    intro x hx
    have := (Piece.bounds_of_mem_newlines hx).2
    have := h.offset_eq
    omega
  rw [hlines, LineTable.countBelow_append hbefore hlater, Piece.length_newlines]

/-- **The line** of an offset is one more than there are newlines before it. -/
theorem lineOf_eq :
    (TokenStream.ofText src).lines.lineOf o = before.count newline + 1 := by
  rw [LineTable.lineOf, h.countBelow_eq]

end

/-- **The column** on the first line is the offset. -/
theorem columnOf_first (h : LineAt src o [] start rest after) :
    (TokenStream.ofText src).lines.columnOf o = o := by
  have hcount := h.countBelow_eq
  rw [List.count_nil] at hcount
  rw [LineTable.columnOf, hcount]

/-- **The column** on any other line is the distance from the newline before the line. -/
theorem columnOf_later {earlier : Text} (h : LineAt src o (earlier ++ [newline]) start rest after) :
    (TokenStream.ofText src).lines.columnOf o = o - earlier.length := by
  have hcount := h.countBelow_eq
  obtain ⟨later, hlines, -⟩ := h.exists_lines
  have hnewline : Piece.newlines earlier.length [newline] = [(earlier.length : Int)] := rfl
  rw [Piece.newlines_append, Nat.zero_add, hnewline, List.append_assoc] at hlines
  rw [List.count_append, List.count_singleton_self] at hcount
  rw [LineTable.columnOf, hcount]
  simp only [hlines]
  rw [LineTable.getD_toArray, List.getD_append_right _ _ _ _ (by rw [Piece.length_newlines]),
    Piece.length_newlines, Nat.sub_self]
  rfl

/-- The newline before a line is the last one before an offset on it. -/
theorem isLastNewline {earlier : Text} (h : LineAt src o (earlier ++ [newline]) start rest after) :
    IsLastNewline src o earlier.length := by
  have hoffset := h.offset_eq
  rw [List.length_append, List.length_singleton] at hoffset
  refine ⟨by omega, ?_, fun j hlow hhigh => ?_⟩
  · rw [h.eq]
    simp
  · have hsrc : src = (earlier ++ [newline]) ++ (start ++ (rest ++ after)) := by
      rw [h.eq]
      simp
    have hlength : (earlier ++ [newline]).length = earlier.length + 1 := by simp
    rw [hsrc, List.getElem?_append_right (by omega), hlength,
      List.getElem?_append_left (by omega)]
    exact fun hj => h.notMem_start (List.mem_of_getElem? hj)

section

variable (h : LineAt src o before start rest after)

include h

/-- The line, counted from zero, among the lines of the text. -/
theorem getElem?_splitOn :
    (src.splitOn newline)[before.count newline]? = some (start ++ rest) := by
  have hhead : ((start ++ rest ++ after).splitOn newline)[0]? = some (start ++ rest) := by
    rcases h.after_starts with rfl | ⟨later, rfl⟩
    · rw [List.append_nil, List.splitOn_eq_singleton h.newline_notMem]
      rfl
    · rw [List.splitOn_append_cons_self, List.splitOn_eq_singleton h.newline_notMem]
      rfl
  rw [h.eq, List.append_assoc]
  rcases h.before_ends with rfl | ⟨earlier, rfl⟩
  · exact hhead
  · have hlength : (earlier.splitOn newline).length = (earlier ++ [newline]).count newline := by
      rw [length_splitOn, List.count_append, List.count_singleton_self]
    rw [List.append_assoc, List.singleton_append, List.splitOn_append_cons_self, ← hlength,
      List.getElem?_append_right Nat.le.refl, Nat.sub_self, hhead]

/-! ### Snippets -/

theorem lineStart_eq : Diagnostic.lineStart o src = start := by
  have hstart : ∀ b ∈ start.reverse, (b != newline) = true := fun b hb =>
    bne_iff_ne.mpr fun hnew => h.notMem_start (hnew ▸ List.mem_reverse.mp hb)
  have hbefore : before.reverse.takeWhile (· != newline) = [] := by
    rcases h.before_ends with rfl | ⟨earlier, rfl⟩
    · rfl
    · rw [List.reverse_append]
      rfl
  rw [Diagnostic.lineStart, h.take_eq, List.reverse_append, List.takeWhile_append_of_pos hstart,
    hbefore, List.append_nil, List.reverse_reverse]

theorem lineRest_eq : Diagnostic.lineRest o src = rest := by
  have hrest : ∀ b ∈ rest, (b != newline) = true := fun b hb =>
    bne_iff_ne.mpr fun hnew => h.notMem_rest (hnew ▸ hb)
  have hafter : after.takeWhile (· != newline) = [] := by
    rcases h.after_starts with rfl | ⟨later, rfl⟩ <;> rfl
  rw [Diagnostic.lineRest, h.drop_eq, List.takeWhile_append_of_pos hrest, hafter, List.append_nil]

/-- **The snippet** shows the line behind its number, and a caret below the offset. -/
theorem snippet_eq {d : Diagnostic} {margin : Text} (hoffset : d.offset = o)
    (hmargin : margin = utf8 "  " ++ Text.ofNat d.line ++ utf8 " | ") :
    d.snippet src = margin ++ dropTrailing (byte '\r') (start ++ rest) ++ newline ::
      List.replicate (margin.length + start.length) (byte ' ') ++ [byte '^'] := by
  have hinside : ¬((d.offset < 0 || (src.length : Int) < d.offset) = true) := by
    have hlength := congrArg List.length h.split_eq
    rw [List.length_append, h.length_head] at hlength
    rw [hoffset, Bool.or_eq_true, decide_eq_true_iff, decide_eq_true_iff]
    omega
  rw [Diagnostic.snippet, if_neg hinside, hoffset, Int.toNat_natCast]
  simp only [h.lineStart_eq, h.lineRest_eq, ← hmargin]

/-- The byte at an offset, if it is not a newline, is the one of the line there. -/
theorem getElem?_line : (start ++ rest)[start.length]? = src[o]?.filter (· != newline) := by
  have hsrc : src[o]? = (rest ++ after)[0]? := by
    rw [h.split_eq, List.getElem?_append_right (Nat.le_of_eq h.length_head), h.length_head,
      Nat.sub_self]
  rw [hsrc, List.getElem?_append_right Nat.le.refl, Nat.sub_self]
  cases rest with
  | cons b rest =>
      have hb : b ≠ newline := fun hnew => h.notMem_rest (hnew ▸ List.mem_cons_self)
      exact (Option.filter_some_pos (p := (· != newline)) (bne_iff_ne.mpr hb)).symm
  | nil => rcases h.after_starts with rfl | ⟨later, rfl⟩ <;> rfl

end

end LineAt

end Text

/-! ## Diagnostics -/

namespace Diagnostic

open Text (newline byte IsLastNewline)

/-- **Line, column and snippet agree with the text.** The line of an offset is one more than there
are newlines before it; its column is the offset on the first line, and the distance from the last
newline before it on the others; the two determine the offset. The snippet shows that line of the
text behind its number and without the carriage returns at its end, and a caret below the byte at
the offset. -/
theorem locate_ofText (problem : Problem) {src : Text} {o : Nat} (ho : o ≤ src.length) :
    let lines := (TokenStream.ofText src).lines
    let line := lines.lineOf o
    let column := lines.columnOf o
    let margin := utf8 "  " ++ Text.ofNat line ++ utf8 " | "
    line = (src.take o).count newline + 1 ∧
      (line = 1 → column = o) ∧
      (line ≠ 1 → ∃ k, IsLastNewline src o k ∧ column = o - k) ∧
      (∀ o' : Nat, o' ≤ src.length → lines.lineOf o' = line → lines.columnOf o' = column →
        o' = o) ∧
      ∃ text shown : Text, ∃ c n : Nat,
        (src.splitOn newline)[line - 1]? = some text ∧
        text = shown ++ List.replicate n (byte '\r') ∧ shown.getLast? ≠ some (byte '\r') ∧
        c = (if line = 1 then column else column - 1) ∧
        text[c]? = src[o]?.filter (· != newline) ∧
        (locate problem o lines).snippet src = margin ++ shown ++ newline ::
          List.replicate (margin.length + c) (byte ' ') ++ [byte '^'] := by
  intro lines line column margin
  obtain ⟨before, start, rest, after, h⟩ := Text.exists_lineAt ho
  have hline : line = before.count newline + 1 := h.lineOf_eq
  -- the first line has no newline before it, every other one has
  have hplace : (line = 1 ∧ column = o ∧ start.length = column) ∨
      (line ≠ 1 ∧ ∃ k, IsLastNewline src o k ∧ column = o - k ∧ start.length = column - 1) := by
    rcases h.before_ends with rfl | ⟨earlier, rfl⟩
    · have hcolumn : column = o := h.columnOf_first
      refine .inl ⟨hline, hcolumn, ?_⟩
      rw [hcolumn, h.offset_eq, List.length_nil, Nat.zero_add]
    · have hcolumn : column = o - earlier.length := h.columnOf_later
      have hoffset := h.offset_eq
      rw [List.length_append, List.length_singleton] at hoffset
      rw [List.count_append, List.count_singleton_self] at hline
      exact .inr ⟨by omega, earlier.length, h.isLastNewline, hcolumn, by omega⟩
  obtain ⟨⟨n, hshown⟩, hlast⟩ := Text.dropTrailing_spec (byte '\r') (start ++ rest)
  refine ⟨by rw [hline, h.count_head], ?_, ?_, ?_, start ++ rest, _, start.length, n, ?_, hshown,
    hlast, ?_, h.getElem?_line, h.snippet_eq rfl rfl⟩
  · rcases hplace with ⟨-, hfirst, -⟩ | ⟨hne, -⟩
    · exact fun _ => hfirst
    · exact fun hone => absurd hone hne
  · rcases hplace with ⟨hone, -⟩ | ⟨-, k, hk, hlater, -⟩
    · exact fun hne => absurd hone hne
    · exact fun _ => ⟨k, hk, hlater⟩
  · intro o' _ hline' hcolumn'
    exact Int.ofNat.inj (LineTable.eq_of_lineOf_of_columnOf hline' hcolumn')
  · rw [hline, Nat.add_sub_cancel]
    exact h.getElem?_splitOn
  · rcases hplace with ⟨hone, -, hc⟩ | ⟨hne, k, -, -, hc⟩
    · rw [if_pos hone, hc]
    · rw [if_neg hne, hc]

/-- The end of a text that ends in a comment has an entry of its own in the line table, which is
not below it. -/
theorem locate_ofText_comment :
    5 ≤ (utf8 "x\n# y").length ∧
      (TokenStream.ofText (utf8 "x\n# y")).lines.lineOf (5 : Nat) = 2 := by
  refine ⟨by decide, ?_⟩
  rw [(@locate_ofText .notCallable (utf8 "x\n# y") 5 (by decide)).1]
  decide

end Diagnostic

end Badger
