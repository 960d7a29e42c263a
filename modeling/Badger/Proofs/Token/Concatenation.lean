import Badger.Proofs.Token.Region
import Badger.Proofs.Tree.Offsets

/-!
# The tokens of two texts on separate lines

A newline between two texts keeps them apart: it continues no character, no word, no numeral and no
operator, and it ends a comment. Only a string literal that is still open would run on into the
second text. Where the first text does not end inside a string literal, its tokens are therefore
followed by those of the second one, moved behind it.

## Main definitions

* `Rune.lineBreak`: the newline as a rune
* `Piece.endLine`: some pieces, and the newline after them

## Main statements

* `Rune.all_append`: the runes of two texts on separate lines
* `Piece.next_append`: what a newline does to the piece before it
* `Piece.cut_append`: the pieces of two texts on separate lines
* `TokenStream.not_endsInString`: a text whose last token is no string literal does not end in one
* `TokenStream.ofText_append`: the tokens of two texts on separate lines
-/

namespace Badger

/-! ## Runes -/

namespace Rune

/-- The newline. -/
def lineBreak : Rune := ⟨'\n', [Text.newline]⟩

theorem isSecond_newline (lead : UInt8) : isSecond lead Text.newline = false := by
  unfold isSecond
  split_ifs <;> decide

/-- A character is the same if a newline follows the text. -/
theorem read_append (lead : UInt8) (rest more : Text) :
    read lead (rest ++ Text.newline :: more) = read lead rest := by
  have htail : isTail Text.newline = false := by decide
  unfold read
  rcases sequenceLength lead with _ | _ | _ | _ | _ | _
  all_goals rcases rest with _ | ⟨b, _ | ⟨c, _ | ⟨d, rest⟩⟩⟩
  all_goals rcases more with _ | ⟨_, _ | ⟨_, _⟩⟩
  all_goals simp [isSecond_newline, htail]

/-- The bytes of a character lie inside the text. -/
theorem read_le (lead : UInt8) (rest : Text) : (read lead rest).2 ≤ rest.length := by
  unfold read
  split <;> (try split) <;> simp

theorem afterSkip_append {skip : Nat} {t : Text} (h : skip ≤ t.length) (more : Text) :
    afterSkip skip (t ++ Text.newline :: more) = afterSkip skip t ++ lineBreak :: all more := by
  induction t generalizing skip with
  | nil =>
      obtain rfl : skip = 0 := Nat.le_zero.mp h
      have hread : read Text.newline more = ('\n', 0) := rfl
      simp [hread, lineBreak, all]
  | cons b rest ih =>
      cases skip with
      | zero =>
          rw [List.cons_append, afterSkip_zero, afterSkip_zero, read_append, ih (read_le b rest),
            List.take_append_of_le_length (read_le b rest), List.cons_append]
      | succ skip => exact ih (Nat.le_of_succ_le_succ h)

/-- **The characters of two texts on separate lines.** -/
theorem all_append (t more : Text) :
    all (t ++ Text.newline :: more) = all t ++ lineBreak :: all more :=
  afterSkip_append (Nat.zero_le _) more

end Rune

/-! ## Pieces -/

namespace Piece

open Rune (lineBreak)

theorem takeWhile_lineBreak {p : Rune → Bool} (h : p lineBreak = false) (rs ss : List Rune) :
    (rs ++ lineBreak :: ss).takeWhile p = rs.takeWhile p ∧
      (rs ++ lineBreak :: ss).dropWhile p = rs.dropWhile p ++ lineBreak :: ss := by
  induction rs with
  | nil => simp [h]
  | cons r rs ih =>
      cases hr : p r with
      | true => simp [hr, ih.1, ih.2]
      | false => simp [hr]

/-- A string literal that is closed does not depend on what follows it. -/
theorem stringBody_append {text : Text} {rs : List Rune} (hrs : ∀ r ∈ rs, r ∈ Rune.all text)
    (hclosed : Region.quoted.after (stringBody rs).2.1 = .code) (ss : List Rune) :
    stringBody (rs ++ ss) =
      ((stringBody rs).1, (stringBody rs).2.1, (stringBody rs).2.2 ++ ss) := by
  fun_induction stringBody rs with
  | case1 => cases hclosed
  | case2 r rs hquote =>
      rw [List.cons_append, stringBody.eq_def]
      exact if_pos hquote
  | case3 r _ hescape =>
      -- a backslash that ends the text is behind the quotation mark, not before it
      rw [Rune.raw_of_char (hrs r List.mem_cons_self) (by decide) hescape] at hclosed
      cases hclosed
  | case4 r hquote hescape e rest value raw after hresult ih =>
      rw [List.forall_mem_cons, List.forall_mem_cons] at hrs
      have hescaped : Region.quoted.after (r.raw ++ e.raw) = .quoted := by
        rw [Region.after_append, Rune.raw_of_char hrs.1 (by decide) hescape]
        exact (scans_escaped hrs.2.1).1
      rw [Region.after_append, hescaped] at hclosed
      rw [hresult] at ih
      rw [List.cons_append, List.cons_append, stringBody.eq_def]
      simp only [if_neg hquote, if_pos hescape, ih hrs.2.2 hclosed]
  | case5 r rs hquote hescape value raw after hresult ih =>
      rw [List.forall_mem_cons] at hrs
      rw [Region.after_append, (scans_quoted hrs.1 hquote hescape).1] at hclosed
      rw [hresult] at ih
      rw [List.cons_append, stringBody.eq_def]
      simp only [if_neg hquote, if_neg hescape, ih hrs.2 hclosed]

theorem numeral_lineBreak (rs ss : List Rune) :
    numeral (rs ++ lineBreak :: ss) = ((numeral rs).1, (numeral rs).2 ++ lineBreak :: ss) := by
  have hdigit : isDigit lineBreak.char = false := by decide
  obtain ⟨htake, hdrop⟩ := takeWhile_lineBreak (p := fun r => isDigit r.char) hdigit rs ss
  unfold numeral
  rw [htake, hdrop]
  cases hrest : rs.dropWhile (isDigit ·.char) with
  | nil => rfl
  | cons point rest =>
      obtain ⟨htake, hdrop⟩ := takeWhile_lineBreak (p := fun r => isDigit r.char) hdigit rest ss
      simp only [List.cons_append]
      split
      · rw [htake, hdrop]
      · rfl

theorem commentBody_lineBreak (rs ss : List Rune) :
    commentBody (rs ++ lineBreak :: ss) =
      if (commentBody rs).2.1 then
        ((commentBody rs).1, true, (commentBody rs).2.2 ++ lineBreak :: ss)
      else ((commentBody rs).1 ++ [Text.newline], true, ss) := by
  have hend : (lineBreak.char != '\n') = false := by decide
  obtain ⟨htake, hdrop⟩ := takeWhile_lineBreak (p := fun r => r.char != '\n') hend rs ss
  unfold commentBody
  rw [htake, hdrop]
  cases hrest : rs.dropWhile (·.char != '\n') with
  | nil => rfl
  | cons newline rest => rfl

theorem double?_newline (c : Char) : TokenKind.double? c '\n' = none := by
  rw [TokenKind.double?, List.lookup_eq_none_iff]
  have hall : ∀ p ∈ TokenKind.doubles, p.1.2 ≠ '\n' := by decide
  intro p hp
  simp only [bne_iff_ne, ne_eq]
  intro heq
  exact hall p hp (congrArg Prod.snd heq).symm

theorem operator_lineBreak (r : Rune) (rs ss : List Rune) :
    operator r (rs ++ lineBreak :: ss) =
      ((operator r rs).1, (operator r rs).2 ++ lineBreak :: ss) := by
  cases rs with
  | nil =>
      unfold operator
      simp only [List.nil_append, lineBreak, double?_newline]
      split <;> rfl
  | cons s rest =>
      unfold operator
      simp only [List.cons_append]
      split
      · rfl
      · split <;> rfl

/-- **What a newline does to the piece before it**: it ends a comment, and it leaves any other piece
as it is, unless that is a string literal that is still open. -/
theorem next_append {text : Text} {r : Rune} {rs : List Rune}
    (hrs : ∀ s ∈ r :: rs, s ∈ Rune.all text) (hclosed : ¬EndsInString (next r rs).1.raw)
    (ss : List Rune) :
    (next r (rs ++ lineBreak :: ss) = ((next r rs).1, (next r rs).2 ++ lineBreak :: ss) ∧
        (next r rs).1.sort ≠ .comment false) ∨
      ((next r rs).2 = [] ∧ (next r rs).1.sort = .comment false ∧
        next r (rs ++ lineBreak :: ss) =
          (⟨.comment true, (next r rs).1.raw ++ [Text.newline]⟩, ss)) := by
  rw [List.forall_mem_cons] at hrs
  unfold next at hclosed ⊢
  split_ifs at hclosed ⊢ with hblank hcomment hstring hdigit hname
  · exact .inl ⟨rfl, by simp⟩
  · rw [commentBody_lineBreak]
    cases hended : (commentBody rs).2.1 with
    | true => exact .inl ⟨by simp [hended], by simp [hended]⟩
    | false =>
        have hrest : (commentBody rs).2.2 = [] := by
          unfold commentBody at hended ⊢
          split at hended
          · rfl
          · cases hended
        exact .inr ⟨hrest, by simp [hended], by simp⟩
  · have hquoted : Region.quoted.after (stringBody rs).2.1 = .code := by
      obtain ⟨m, ⟨rfl, -⟩, hcomment, -⟩ := scans_stringBody hrs.2
      rw [EndsInString, Region.after_append, Rune.raw_of_char hrs.1 (by decide) hstring] at hclosed
      cases hm : Region.quoted.after (stringBody rs).2.1 with
      | code => rfl
      | comment => exact absurd hm hcomment
      | quoted => exact absurd (.inl hm) hclosed
      | escaped => exact absurd (.inr hm) hclosed
    exact .inl ⟨by simp only [stringBody_append hrs.2 hquoted], by simp⟩
  · refine .inl ⟨?_, by simp⟩
    rw [← List.cons_append, numeral_lineBreak]
  · have hend : continuesName lineBreak.char = false := by decide
    obtain ⟨htake, hdrop⟩ := takeWhile_lineBreak (p := fun s => continuesName s.char) hend rs ss
    refine .inl ⟨?_, by simp⟩
    rw [htake, hdrop]
  · refine .inl ⟨operator_lineBreak r rs ss, ?_⟩
    rcases operator_sort r rs with ⟨_, hsort⟩ | ⟨_, hsort⟩ <;> simp [hsort]

/-- **Some pieces and the newline after them.** A comment at the end takes the newline in; else it
is a blank of its own. -/
def endLine : List Piece → List Piece
  | [] => [⟨.blank, [Text.newline]⟩]
  | p :: ps =>
    if p.sort = .comment false ∧ ps = [] then [⟨.comment true, p.raw ++ [Text.newline]⟩]
    else p :: endLine ps

/-- Pieces do not depend on the budget, as long as it suffices. -/
theorem cutRunes_eq {rs : List Rune} (hrs : ∀ r ∈ rs, r.Plain) {n m : Nat} (hn : rs.length ≤ n)
    (hm : rs.length ≤ m) : cutRunes n rs = cutRunes m rs := by
  induction n generalizing rs m with
  | zero =>
      obtain rfl := List.length_eq_zero_iff.mp (Nat.le_zero.mp hn)
      simp
  | succ n ih =>
      cases rs with
      | nil => simp
      | cons r rs =>
          rw [List.length_cons] at hn hm
          obtain ⟨m, rfl⟩ : ∃ m', m = m' + 1 := ⟨m - 1, by omega⟩
          obtain ⟨hrest, hplain, -⟩ := rest_of_next hrs
          rw [cutRunes_succ, cutRunes_succ, ih (m := m) hplain (by omega) (by omega)]

/-- The pieces of a text tile it. -/
theorem width_cut (text : Text) : width (cut text) = text.length := by
  have hwidth := cut_induction text
    (motive := fun rs ps => width ps = (Rune.bytes rs).length) rfl fun r rs ps hrs _ hps => by
      rw [width, hps, (after_bytes_next hrs).2.2, List.length_append]
  rwa [Rune.bytes_all] at hwidth

/-- What ends in code or in a comment still does so without its first piece. -/
theorem not_endsInString_next {text : Text} {r : Rune} {rs : List Rune}
    (hrs : ∀ s ∈ r :: rs, s ∈ Rune.all text) (h : ¬EndsInString (Rune.bytes (r :: rs))) :
    ¬EndsInString (next r rs).1.raw ∧ ¬EndsInString (Rune.bytes (next r rs).2) := by
  obtain ⟨-, hend, hbytes⟩ := after_bytes_next hrs
  rw [hbytes] at h
  rcases hend with hcode | hnone
  · rw [EndsInString, Region.after_append, hcode] at h
    exact ⟨by simp [EndsInString, hcode], h⟩
  · rw [hnone, Rune.bytes_nil, List.append_nil] at h
    rw [hnone]
    exact ⟨h, by decide⟩

/-- **The pieces of two texts on separate lines**, unless the first one ends in a string. -/
theorem cut_append {a : Text} (h : ¬EndsInString a) (b : Text) :
    cut (a ++ Text.newline :: b) = endLine (cut a) ++ cut b := by
  have hb : ∀ r ∈ Rune.all b, r.Plain := fun _ => Rune.plain_of_mem_all
  have hpieces := cut_induction a
    (motive := fun rs ps => ¬EndsInString (Rune.bytes rs) →
      ∀ k, rs.length + 1 + (Rune.all b).length ≤ k →
        cutRunes k (rs ++ lineBreak :: Rune.all b) = endLine ps ++ cut b) ?_ ?_
  · have hlength : (Rune.all a).length + 1 + (Rune.all b).length ≤
        (Rune.all (a ++ Text.newline :: b)).length := by
      rw [Rune.all_append, List.length_append, List.length_cons]
      omega
    rw [Rune.bytes_all] at hpieces
    rw [cut, Rune.all_append]
    rw [Rune.all_append] at hlength
    exact hpieces h _ hlength
  · intro _ k hk
    obtain ⟨k, rfl⟩ : ∃ k', k = k' + 1 := ⟨k - 1, by omega⟩
    have hnext : next lineBreak (Rune.all b) = (⟨.blank, [Text.newline]⟩, Rune.all b) := rfl
    rw [List.nil_append, cutRunes_succ, hnext,
      cutRunes_eq hb (n := k) (by simp at hk; omega) Nat.le.refl]
    rfl
  · intro r rs ps hrs hlast ih hstring k hk
    rw [List.length_cons] at hk
    obtain ⟨k, rfl⟩ : ∃ k', k = k' + 1 := ⟨k - 1, by omega⟩
    obtain ⟨hpiece, hrest⟩ := not_endsInString_next hrs hstring
    obtain ⟨hlength, -, -⟩ := rest_of_next fun s hs => Rune.plain_of_mem_all (hrs s hs)
    rw [List.cons_append, cutRunes_succ, endLine]
    rcases next_append hrs hpiece (Rune.all b) with ⟨hnext, hsort⟩ | ⟨hend, hsort, hnext⟩
    · rw [if_neg fun h => hsort h.1, hnext, List.cons_append, ih hrest k (by omega)]
    · rw [if_pos ⟨hsort, hlast hend⟩, hnext,
        cutRunes_eq hb (n := k) (by omega) Nat.le.refl]
      rfl

/-- A newline adds no problem. -/
theorem problems_endLine (ps : List Piece) (h : ∀ p ∈ ps, p.problem? = none) :
    ∀ p ∈ endLine ps, p.problem? = none := by
  induction ps with
  | nil => exact List.forall_mem_singleton.mpr rfl
  | cons p ps ih =>
      rw [List.forall_mem_cons] at h
      rw [endLine]
      split
      · exact List.forall_mem_singleton.mpr rfl
      · rw [List.forall_mem_cons]
        exact ⟨h.1, ih h.2⟩

end Piece

/-! ## Tokens -/

namespace TokenStream

open Piece (width endLine)

/-- Tokens come from pieces. -/
theorem exists_of_mem_bodyFrom {offset : Nat} {ps : List Piece} {t : Token}
    (h : t ∈ bodyFrom offset ps) : ∃ p ∈ ps, ∃ pos, p.token? pos = some t := by
  induction ps generalizing offset with
  | nil => cases h
  | cons p ps ih =>
      rw [bodyFrom, List.mem_append, Option.mem_toList] at h
      rcases h with h | h
      · exact ⟨p, List.mem_cons_self, offset, h⟩
      · obtain ⟨q, hq, hpos⟩ := ih h
        exact ⟨q, List.mem_cons_of_mem p hq, hpos⟩

/-- The newline is no token. -/
theorem bodyFrom_endLine (offset : Nat) (ps : List Piece) :
    bodyFrom offset (endLine ps) = bodyFrom offset ps ∧ width (endLine ps) = width ps + 1 := by
  induction ps generalizing offset with
  | nil => exact ⟨rfl, rfl⟩
  | cons p ps ih =>
      rw [endLine]
      split
      · next h =>
        obtain ⟨hsort, rfl⟩ := h
        have hnone : p.token? offset = none := by simp only [Piece.token?, hsort]
        have hnone' : Piece.token? offset ⟨.comment true, p.raw ++ [Text.newline]⟩ = none := rfl
        simp [bodyFrom, hnone, hnone', width]
      · rw [bodyFrom, bodyFrom, (ih _).1, width, width, (ih 0).2]
        exact ⟨rfl, by omega⟩

/-- Pieces that start further on have their tokens further on. -/
theorem tokensFrom_add (offset k : Nat) (ps : List Piece) :
    tokensFrom (offset + k) ps = (tokensFrom offset ps).map (Token.mapPos (· + k)) := by
  induction ps generalizing offset with
  | nil => simp [Token.endAt, Token.mapPos]
  | cons p ps ih =>
      have htoken : p.token? (offset + k) = (p.token? offset).map (Token.mapPos (· + k)) := by
        unfold Piece.token?
        split <;> simp [Token.mapPos]
      rw [tokensFrom, tokensFrom, Nat.add_right_comm, ih, htoken]
      cases p.token? offset <;> rfl

/-- **A text that ends inside a string literal** has the literal as its last token. -/
theorem exists_last_of_endsInString {text : Text} (h : EndsInString text) :
    ∃ t ∈ (bodyFrom 0 (Piece.cut text)).getLast?, t.kind = .string := by
  have hlast := Piece.cut_induction text
    (motive := fun rs ps => EndsInString (Rune.bytes rs) →
      ∀ offset, ∃ t ∈ (bodyFrom offset ps).getLast?, t.kind = .string)
    (fun h => absurd h (by decide)) fun r rs ps hrs hnil ih h offset => by
      obtain ⟨hsort, hend, hbytes⟩ := Piece.after_bytes_next hrs
      rw [bodyFrom]
      rw [hbytes] at h
      rcases hend with hcode | hnone
      · rw [EndsInString, Region.after_append, hcode] at h
        obtain ⟨t, ht, hkind⟩ := ih h (offset + (Piece.next r rs).1.raw.length)
        rw [Option.mem_def] at ht
        exact ⟨t, by simp [List.getLast?_append, ht], hkind⟩
      · -- only a string literal can end in one
        rw [hnone, Rune.bytes_nil, List.append_nil] at h
        rw [hnil hnone, bodyFrom, List.append_nil]
        generalize (Piece.next r rs).1 = p at hsort h
        obtain ⟨sort, raw⟩ := p
        cases sort with
        | string value => exact ⟨_, rfl, rfl⟩
        | comment closed =>
            rw [EndsInString, show Region.code.after raw = _ from hsort] at h
            cases closed <;> simp at h
        | _ =>
            rw [EndsInString, show Region.code.after raw = .code from hsort] at h
            simp at h
  rw [Rune.bytes_all] at hlast
  exact hlast h 0

/-- The tokens before the end token. -/
theorem eq_bodyFrom {text : Text} {body : List Token} {ending : Token}
    (h : (ofText text).tokens = body ++ [ending]) :
    body = bodyFrom 0 (Piece.cut text) ∧ ending = Token.endAt text.length := by
  have htokens : (ofText text).tokens = tokensFrom 0 (Piece.cut text) := rfl
  rw [htokens, tokensFrom_eq, Piece.width_cut, Nat.zero_add] at h
  obtain ⟨hbody, hending⟩ := List.append_inj' h rfl
  exact ⟨hbody.symm, (List.singleton_inj.mp hending).symm⟩

/-- A text whose last token is no string literal does not end inside one. -/
theorem not_endsInString {text : Text} {body : List Token} {ending : Token}
    (h : (ofText text).tokens = body ++ [ending])
    (hlast : ∀ t ∈ body.getLast?, t.kind ≠ .string) : ¬EndsInString text := by
  intro hstring
  obtain ⟨t, ht, hkind⟩ := exists_last_of_endsInString hstring
  rw [← (eq_bodyFrom h).1] at ht
  exact hlast t ht hkind

/-- **The tokens of two texts on separate lines** are those of the first one and those of the
second one, moved behind it, unless the first one ends inside a string literal. -/
theorem ofText_append {a : Text} {body : List Token} {ending : Token}
    (ha : (ofText a).tokens = body ++ [ending]) (h : ¬EndsInString a) (b : Text) :
    (ofText (a ++ Text.newline :: b)).tokens =
      body ++ (ofText b).tokens.map (Token.mapPos (· + (a.length + 1 : Nat))) := by
  obtain ⟨rfl, -⟩ := eq_bodyFrom ha
  show tokensFrom 0 (Piece.cut (a ++ Text.newline :: b)) = _
  rw [Piece.cut_append h, tokensFrom_append, (bodyFrom_endLine 0 _).1, (bodyFrom_endLine 0 _).2,
    Piece.width_cut, tokensFrom_add]
  rfl

/-- Which texts are read. -/
theorem read_eq_ok_iff {strict : Bool} {text : Text} {stream : TokenStream} :
    read strict text = .ok stream ↔
      stream = ofText text ∧ (strict = true → ∀ p ∈ Piece.cut text, p.problem? = none) := by
  unfold read ofTextStrict
  cases strict with
  | false => simp [eq_comm]
  | true =>
      simp only [if_true, true_implies]
      rcases StrictReading.error?_ofText text with
        ⟨hpieces, hnone⟩ | ⟨before, p, after, problem, hcut, -, hp, hsome⟩
      · rw [StrictReading.stream_of_none hnone, Except.ok.injEq]
        exact ⟨fun h => ⟨h.symm, hpieces⟩, fun h => h.1.symm⟩
      · have hfail : ¬∀ p ∈ Piece.cut text, p.problem? = none := by
          intro hall
          have hp' := hall p (by simp [hcut])
          rw [hp] at hp'
          cases hp'
        rw [StrictReading.stream_of_some hsome]
        simp [hfail]

/-- **Two texts on separate lines are read** if both are, unless the first one ends inside a string
literal. -/
theorem read_append {strict : Bool} {a b : Text} {streamA streamB : TokenStream}
    (ha : read strict a = .ok streamA) (hb : read strict b = .ok streamB)
    (h : ¬EndsInString a) :
    read strict (a ++ Text.newline :: b) = .ok (ofText (a ++ Text.newline :: b)) := by
  obtain ⟨rfl, hproblemsA⟩ := read_eq_ok_iff.mp ha
  obtain ⟨rfl, hproblemsB⟩ := read_eq_ok_iff.mp hb
  refine read_eq_ok_iff.mpr ⟨rfl, fun hstrict => ?_⟩
  rw [Piece.cut_append h, List.forall_mem_append]
  exact ⟨Piece.problems_endLine _ (hproblemsA hstrict), hproblemsB hstrict⟩

end TokenStream

end Badger
