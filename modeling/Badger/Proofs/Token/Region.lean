import Mathlib.Algebra.Ring.Int.Defs
import Badger.Proofs.Token.Lexical

/-!
# Code, comments and strings

Where a byte of a program text stands can be told by looking at one byte after the other: in
code, in a comment, in a string literal, or behind a backslash in one. The braces that stand in
code are the ones that are tokens.

## Main definitions

* `Region`: code, comment, string literal, or behind a backslash
* `Region.step`, `Region.after`: the region after a byte, and after a text
* `Region.count`: braces opened less braces closed in code
* `Region.Scans`: what a text leads to, and what it counts
* `EndsInString`: texts that end inside a string literal
* `Piece.EndsIn`: the region that a piece of a sort ends in
* `TokenStream.opened`: braces opened less braces closed among tokens

## Main statements

* `Piece.scans_next`, `Piece.after_bytes_next`: each piece starts in code, and ends in code unless
  it is the last one
* `TokenStream.opened_ofText`: **tokens and bytes give the same count**

## Design notes

The bytes that matter are ASCII characters. A character that is none is made of other bytes, and
so is a byte that belongs to no character, so that a scanner of bytes never takes a part of a
character for a quotation mark, a backslash or a brace.
-/

namespace Badger

/-! ## Regions -/

/-- **Where a byte stands.** -/
inductive Region where
  | code
  | comment
  | quoted
  /-- In a string literal, right behind a backslash. -/
  | escaped
deriving DecidableEq, Repr

namespace Region

/-- The region after a byte. -/
def step : Region → UInt8 → Region
  | .code, b =>
    if b = Text.byte '#' then .comment else if b = Text.byte '"' then .quoted else .code
  | .comment, b => if b = Text.newline then .code else .comment
  | .quoted, b =>
    if b = Text.byte '\\' then .escaped else if b = Text.byte '"' then .code else .quoted
  | .escaped, _ => .quoted

/-- What a byte counts: only braces in code do. -/
def weight : Region → UInt8 → Int
  | .code, b => if b = Text.byte '\x7b' then 1 else if b = Text.byte '\x7d' then -1 else 0
  | _, _ => 0

/-- **The region after a text.** -/
def after (start : Region) : Text → Region
  | [] => start
  | b :: rest => (start.step b).after rest

/-- **Braces opened less braces closed** in the code of a text. -/
def count (start : Region) : Text → Int
  | [] => 0
  | b :: rest => start.weight b + (start.step b).count rest

/-- A text that starts in one region leads to another one and counts `n`. -/
def Scans (start : Region) (t : Text) (finish : Region) (n : Int) : Prop :=
  start.after t = finish ∧ start.count t = n

instance (start : Region) (t : Text) (finish : Region) (n : Int) :
    Decidable (start.Scans t finish n) := inferInstanceAs (Decidable (_ ∧ _))

theorem scans_nil (m : Region) : m.Scans [] m 0 := ⟨rfl, rfl⟩

theorem Scans.cons {start finish : Region} {b : UInt8} {t : Text} {n : Int}
    (h : (start.step b).Scans t finish n) : start.Scans (b :: t) finish (start.weight b + n) :=
  ⟨h.1, congrArg (start.weight b + ·) h.2⟩

/-- **Texts are scanned one after the other.** -/
theorem Scans.append {start middle finish : Region} {t u : Text} {n k : Int}
    (ht : start.Scans t middle n) (hu : middle.Scans u finish k) :
    start.Scans (t ++ u) finish (n + k) := by
  induction t generalizing start n with
  | nil =>
      obtain ⟨rfl, rfl⟩ := ht
      have hzero : start.count [] + k = k := Int.zero_add k
      rwa [hzero]
  | cons b t ih =>
      obtain ⟨hafter, rfl⟩ := ht
      have hrest : (start.step b).Scans t middle ((start.step b).count t) := ⟨hafter, rfl⟩
      rw [count, Int.add_assoc]
      exact (ih hrest).cons

theorem scans_self (start : Region) (t : Text) : start.Scans t (start.after t) (start.count t) :=
  ⟨rfl, rfl⟩

theorem after_append (start : Region) (t u : Text) :
    start.after (t ++ u) = (start.after t).after u :=
  ((scans_self start t).append (scans_self _ u)).1

theorem count_append (start : Region) (t u : Text) :
    start.count (t ++ u) = start.count t + (start.after t).count u :=
  ((scans_self start t).append (scans_self _ u)).2

/-- Bytes without a meaning in a region stay in it. -/
theorem scans_of_stays {m : Region} {t : Text} (h : ∀ b ∈ t, m.step b = m ∧ m.weight b = 0) :
    m.Scans t m 0 := by
  induction t with
  | nil => exact scans_nil m
  | cons b t ih =>
      rw [List.forall_mem_cons] at h
      have hscans : (m.step b).Scans t m 0 := by
        rw [h.1.1]
        exact ih h.2
      have hcons := hscans.cons
      rwa [h.1.2, Int.add_zero] at hcons

end Region

/-- **A text ends inside a string literal**, so that what follows it is still part of the
literal. -/
def EndsInString (text : Text) : Prop :=
  Region.code.after text = .quoted ∨ Region.code.after text = .escaped

instance (text : Text) : Decidable (EndsInString text) := inferInstanceAs (Decidable (_ ∨ _))

/-! ## Runes -/

namespace Rune

variable {text : Text}

/-- An ASCII character stands in a text only where its byte does. -/
theorem byte_notMem_raw {r : Rune} (hr : r ∈ all text) {c : Char} (hc : c.toNat < 128)
    (h : r.char ≠ c) : Text.byte c ∉ r.raw := by
  have hnat := Piece.toNat_byte hc
  rcases ascii_or_wide hr with ⟨hascii, hraw⟩ | ⟨-, hwide⟩
  · rw [hraw, List.mem_singleton]
    intro hbyte
    rw [hbyte, Piece.toNat_byte hascii] at hnat
    exact h (Char.toNat_inj.mp hnat)
  · intro hmem
    have := hwide _ hmem
    omega

theorem raw_of_char {r : Rune} (hr : r ∈ all text) {c : Char} (hc : c.toNat < 128)
    (h : r.char = c) : r.raw = [Text.byte c] := by
  subst h
  rcases ascii_or_wide hr with ⟨-, hraw⟩ | ⟨hwide, -⟩
  · exact hraw
  · omega

theorem byte_notMem_bytes {rs : List Rune} (hrs : ∀ r ∈ rs, r ∈ all text) {c : Char}
    (hc : c.toNat < 128) (h : ∀ r ∈ rs, r.char ≠ c) : Text.byte c ∉ bytes rs := by
  intro hmem
  obtain ⟨raw, hraw, hb⟩ := List.mem_flatten.mp hmem
  obtain ⟨r, hr, rfl⟩ := List.mem_map.mp hraw
  exact byte_notMem_raw (hrs r hr) hc (h r hr) hb

/-- Code without the four characters that matter. -/
theorem scans_code {rs : List Rune} (hrs : ∀ r ∈ rs, r ∈ all text)
    (h : ∀ r ∈ rs, r.char ≠ '#' ∧ r.char ≠ '"' ∧ r.char ≠ '\x7b' ∧ r.char ≠ '\x7d') :
    Region.code.Scans (bytes rs) .code 0 := by
  have hcomment := byte_notMem_bytes hrs (c := '#') (by decide) fun r hr => (h r hr).1
  have hquote := byte_notMem_bytes hrs (c := '"') (by decide) fun r hr => (h r hr).2.1
  have hopen := byte_notMem_bytes hrs (c := '\x7b') (by decide) fun r hr => (h r hr).2.2.1
  have hclose := byte_notMem_bytes hrs (c := '\x7d') (by decide) fun r hr => (h r hr).2.2.2
  refine Region.scans_of_stays fun b hb => ⟨?_, ?_⟩
  · rw [Region.step, if_neg (ne_of_mem_of_not_mem hb hcomment),
      if_neg (ne_of_mem_of_not_mem hb hquote)]
  · rw [Region.weight, if_neg (ne_of_mem_of_not_mem hb hopen),
      if_neg (ne_of_mem_of_not_mem hb hclose)]

end Rune

/-! ## Pieces -/

namespace Piece

variable {text : Text}

/-- What a piece counts. -/
def braces (p : Piece) : Int :=
  match p.sort with
  | .operator .lbrace => 1
  | .operator .rbrace => -1
  | _ => 0

/-- **The regions in which a piece can end**: a comment without a newline ends in itself, a string
literal may still be open, and everything else leads back to code. -/
def EndsIn (sort : PieceSort) (m : Region) : Prop :=
  match sort with
  | .comment closed => m = if closed then .code else .comment
  | .string _ => m ≠ .comment
  | _ => m = .code

/-- Some runes of a class that leaves out the four characters that matter. -/
theorem scans_class {p : Char → Bool}
    (hp : (['#', '"', '\x7b', '\x7d'].all fun d => !p d) = true)
    {rs : List Rune} (hrs : ∀ r ∈ rs, r ∈ Rune.all text) (h : ∀ r ∈ rs, p r.char = true) :
    Region.code.Scans (Rune.bytes rs) .code 0 := by
  have hne {r : Rune} (hr : r ∈ rs) {d : Char} (hd : d ∈ ['#', '"', '\x7b', '\x7d']) :
      r.char ≠ d := by
    rintro rfl
    have hnot := List.all_eq_true.mp hp _ hd
    simp [h r hr] at hnot
  exact Rune.scans_code hrs fun r hr =>
    ⟨hne hr (by simp), hne hr (by simp), hne hr (by simp), hne hr (by simp)⟩

/-- A character in a string literal that is neither mark nor backslash. -/
theorem scans_quoted {r : Rune} (hr : r ∈ Rune.all text) (hquote : r.char ≠ '"')
    (hescape : r.char ≠ '\\') : Region.quoted.Scans r.raw .quoted 0 := by
  have hquote := Rune.byte_notMem_raw hr (by decide) hquote
  have hescape := Rune.byte_notMem_raw hr (by decide) hescape
  refine Region.scans_of_stays fun b hb => ⟨?_, rfl⟩
  rw [Region.step, if_neg (ne_of_mem_of_not_mem hb hescape),
    if_neg (ne_of_mem_of_not_mem hb hquote)]

/-- A character behind a backslash: if it is written as several bytes, the later ones stand for
no mark and no backslash either. -/
theorem scans_escaped {r : Rune} (hr : r ∈ Rune.all text) :
    Region.escaped.Scans r.raw .quoted 0 := by
  rcases Rune.ascii_or_wide hr with ⟨-, hraw⟩ | ⟨-, hwide⟩
  · rw [hraw]
    exact ⟨rfl, rfl⟩
  · obtain ⟨b, rest, hcons⟩ := List.exists_cons_of_ne_nil (Rune.plain_of_mem_all hr).1
    rw [hcons, List.forall_mem_cons] at hwide
    rw [hcons]
    have hrest : Region.quoted.Scans rest .quoted 0 := by
      refine Region.scans_of_stays fun c hc => ⟨?_, rfl⟩
      have hc := hwide.2 c hc
      have hescape : c ≠ Text.byte '\\' := by
        rintro rfl
        exact absurd hc (by decide)
      have hquote : c ≠ Text.byte '"' := by
        rintro rfl
        exact absurd hc (by decide)
      rw [Region.step, if_neg hescape, if_neg hquote]
    -- the backslash covers the first byte, whatever it is, and no other one
    have hfirst : Region.escaped.Scans [b] .quoted 0 := ⟨rfl, rfl⟩
    exact hfirst.append hrest

/-- A string literal, behind its opening mark. -/
theorem scans_stringBody {rs : List Rune} (hrs : ∀ r ∈ rs, r ∈ Rune.all text) :
    ∃ m, Region.quoted.Scans (stringBody rs).2.1 m 0 ∧ m ≠ .comment ∧
      (m = .code ∨ (stringBody rs).2.2 = []) := by
  fun_induction stringBody rs with
  | case1 => exact ⟨_, Region.scans_nil _, by decide, .inr rfl⟩
  | case2 r rs hquote =>
      rw [Rune.raw_of_char (hrs r List.mem_cons_self) (by decide) hquote]
      exact ⟨.code, ⟨rfl, rfl⟩, by decide, .inl rfl⟩
  | case3 r _ hescape =>
      rw [Rune.raw_of_char (hrs r List.mem_cons_self) (by decide) hescape]
      exact ⟨.escaped, ⟨rfl, rfl⟩, by decide, .inr rfl⟩
  | case4 r _ hescape e rest value raw after hresult ih =>
      rw [List.forall_mem_cons, List.forall_mem_cons] at hrs
      rw [hresult] at ih
      obtain ⟨m, hscans, hend⟩ := ih hrs.2.2
      refine ⟨m, ?_, hend⟩
      have hbackslash : Region.quoted.Scans r.raw .escaped 0 := by
        rw [Rune.raw_of_char hrs.1 (by decide) hescape]
        exact ⟨rfl, rfl⟩
      exact (hbackslash.append (scans_escaped hrs.2.1)).append hscans
  | case5 r rs hquote hescape value raw after hresult ih =>
      rw [List.forall_mem_cons] at hrs
      rw [hresult] at ih
      obtain ⟨m, hscans, hend⟩ := ih hrs.2
      exact ⟨m, (scans_quoted hrs.1 hquote hescape).append hscans, hend⟩

/-- **A comment holds no newline**, except for the one that ends it. -/
theorem commentBody_cases {rs : List Rune} (hrs : ∀ r ∈ rs, r ∈ Rune.all text) :
    ∃ body, Text.newline ∉ body ∧
      (commentBody rs = (body, false, []) ∨
        ∃ rest, commentBody rs = (body ++ [Text.newline], true, rest)) := by
  refine ⟨Rune.bytes (rs.takeWhile (·.char != '\n')), ?_, ?_⟩
  · refine Rune.byte_notMem_bytes (c := '\n') (fun r hr => hrs r (List.takeWhile_subset _ hr))
      (by decide) fun r hr => ?_
    have htaken := List.all_eq_true.mp List.all_takeWhile r hr
    exact bne_iff_ne.mp htaken
  · unfold commentBody
    split
    · exact .inl rfl
    · next newline rest hrest =>
      have hmem : newline ∈ rs.dropWhile (·.char != '\n') := by
        rw [hrest]
        exact List.mem_cons_self
      have hchar : newline.char = '\n' := by
        have hhead := List.head_dropWhile_not (fun r : Rune => r.char != '\n')
          (List.ne_nil_of_mem hmem)
        simpa [hrest] using hhead
      have hraw : newline.raw = [Text.newline] :=
        Rune.raw_of_char (hrs _ (List.dropWhile_subset _ hmem)) (by decide) hchar
      exact .inr ⟨rest, by rw [hraw]⟩

/-- A comment, behind its first character. -/
theorem scans_commentBody {rs : List Rune} (hrs : ∀ r ∈ rs, r ∈ Rune.all text) :
    ∃ m, Region.comment.Scans (commentBody rs).1 m 0 ∧ EndsIn (.comment (commentBody rs).2.1) m ∧
      (m = .code ∨ (commentBody rs).2.2 = []) := by
  obtain ⟨body, hnewline, hcases⟩ := commentBody_cases hrs
  have hbody : Region.comment.Scans body .comment 0 :=
    Region.scans_of_stays fun b hb => ⟨if_neg (ne_of_mem_of_not_mem hb hnewline), rfl⟩
  have hend : Region.comment.Scans [Text.newline] .code 0 := ⟨rfl, rfl⟩
  rcases hcases with hopen | ⟨rest, hclosed⟩
  · rw [hopen]
    exact ⟨.comment, hbody, rfl, .inr rfl⟩
  · rw [hclosed]
    exact ⟨.code, hbody.append hend, rfl, .inl rfl⟩

/-- The piece of one character, whether it is an operator or starts no token. -/
theorem scans_alone {r : Rune} (hr : r ∈ Rune.all text) (hcomment : r.char ≠ '#')
    (hquote : r.char ≠ '"') :
    (∀ kind, TokenKind.single? r.char = some kind →
      Region.code.Scans r.raw .code (braces ⟨.operator kind, r.raw⟩)) ∧
    (TokenKind.single? r.char = none →
      Region.code.Scans r.raw .code (braces ⟨.unknown r.char, r.raw⟩)) := by
  refine ⟨fun kind hsingle => ?_, fun hnone => ?_⟩
  · have hall : ∀ p ∈ TokenKind.singles, p.1.toNat < 128 ∧
        Region.code.Scans [Text.byte p.1] .code (braces ⟨.operator p.2, []⟩) := by decide
    obtain ⟨hascii, hscans⟩ := hall (r.char, kind) (mem_of_lookup hsingle)
    rw [Rune.raw_of_char hr hascii rfl]
    exact hscans
  · have hbrace {c : Char} (hc : (TokenKind.single? c).isSome) : r.char ≠ c := by
      rintro rfl
      rw [hnone] at hc
      cases hc
    have hscans := Rune.scans_code (List.forall_mem_singleton.mpr hr)
      (List.forall_mem_singleton.mpr
        ⟨hcomment, hquote, hbrace (by decide), hbrace (by decide)⟩)
    simpa [braces] using hscans

theorem scans_operator {r : Rune} {rs : List Rune} (hrs : ∀ s ∈ r :: rs, s ∈ Rune.all text)
    (hcomment : r.char ≠ '#') (hquote : r.char ≠ '"') :
    Region.code.Scans (operator r rs).1.raw .code (operator r rs).1.braces := by
  obtain ⟨hsome, hnone⟩ := scans_alone (hrs r List.mem_cons_self) hcomment hquote
  cases rs with
  | nil =>
      unfold operator
      cases hsingle : TokenKind.single? r.char with
      | some kind => exact hsome kind hsingle
      | none => exact hnone hsingle
  | cons s rest =>
      unfold operator
      cases hdouble : TokenKind.double? r.char s.char with
      | some kind =>
          have hall : ∀ p ∈ TokenKind.doubles, (p.1.1.toNat < 128 ∧ p.1.2.toNat < 128) ∧
              Region.code.Scans [Text.byte p.1.1, Text.byte p.1.2] .code
                (braces ⟨.operator p.2, []⟩) := by decide
          obtain ⟨⟨hc, hd⟩, hscans⟩ := hall ((r.char, s.char), kind) (mem_of_lookup hdouble)
          simp only
          rw [hdouble, Rune.raw_of_char (hrs r List.mem_cons_self) hc rfl,
            Rune.raw_of_char (hrs s (by simp)) hd rfl]
          exact hscans
      | none =>
          simp only [hdouble]
          cases hsingle : TokenKind.single? r.char with
          | some kind => exact hsome kind hsingle
          | none => exact hnone hsingle

/-- **Each piece starts in code**, and ends in code unless it is the last one. -/
theorem scans_next {r : Rune} {rs : List Rune} (hrs : ∀ s ∈ r :: rs, s ∈ Rune.all text) :
    ∃ m, Region.code.Scans (next r rs).1.raw m (next r rs).1.braces ∧
      EndsIn (next r rs).1.sort m ∧ (m = .code ∨ (next r rs).2 = []) := by
  have hr := hrs r List.mem_cons_self
  have hrest : ∀ s ∈ rs, s ∈ Rune.all text := fun s hs => hrs s (List.mem_cons_of_mem r hs)
  unfold next
  split_ifs with hblank hcomment hquote hdigit hname
  · refine ⟨.code, ?_, rfl, .inl rfl⟩
    have hscans := scans_class (p := isBlank) (by decide) (List.forall_mem_singleton.mpr hr)
      (List.forall_mem_singleton.mpr hblank)
    simpa [braces] using hscans
  · obtain ⟨m, hscans, hsort, hend⟩ := scans_commentBody hrest
    refine ⟨m, ?_, hsort, hend⟩
    have hfirst : Region.code.Scans [Text.byte '#'] .comment 0 := ⟨rfl, rfl⟩
    rw [Rune.raw_of_char hr (by decide) hcomment]
    exact hfirst.append hscans
  · obtain ⟨m, hscans, hsort, hend⟩ := scans_stringBody hrest
    refine ⟨m, ?_, hsort, hend⟩
    have hfirst : Region.code.Scans [Text.byte '"'] .quoted 0 := ⟨rfl, rfl⟩
    rw [Rune.raw_of_char hr (by decide) hquote]
    exact hfirst.append hscans
  · refine ⟨.code, ?_, rfl, .inl rfl⟩
    exact scans_class (p := fun c => isDigit c || c == '.') (by decide)
      (fun s hs => hrs s (mem_of_mem_numeral hs)) (isDigit_numeral rs hdigit)
  · refine ⟨.code, ?_, rfl, .inl rfl⟩
    exact scans_class (p := continuesName) (by decide) (fun s hs => hrs s (mem_of_mem_word hs))
      (continuesName_word rs hname)
  · refine ⟨.code, scans_operator hrs hcomment hquote, ?_, .inl rfl⟩
    rcases operator_sort r rs with ⟨_, hsort⟩ | ⟨_, hsort⟩ <;> rw [hsort] <;> rfl

/-- The region after a piece and what follows it is the one in which both end. -/
theorem after_bytes_next {r : Rune} {rs : List Rune} (hrs : ∀ s ∈ r :: rs, s ∈ Rune.all text) :
    EndsIn (next r rs).1.sort (Region.code.after (next r rs).1.raw) ∧
      (Region.code.after (next r rs).1.raw = .code ∨ (next r rs).2 = []) ∧
      Rune.bytes (r :: rs) = (next r rs).1.raw ++ Rune.bytes (next r rs).2 := by
  obtain ⟨m, ⟨rfl, -⟩, hsort, hend⟩ := scans_next hrs
  obtain ⟨-, taken, heq, hraw⟩ := cuts_next (Rune.plain_of_mem_all (hrs r List.mem_cons_self))
    fun s hs => Rune.plain_of_mem_all (hrs s (List.mem_cons_of_mem r hs))
  refine ⟨hsort, hend, ?_⟩
  rw [heq, Rune.bytes_append, ← hraw]

/-- Pieces count what their bytes do. -/
theorem count_cut (text : Text) : Region.code.count text = ((cut text).map braces).sum := by
  have hcount := cut_induction text
    (motive := fun rs ps => Region.code.count (Rune.bytes rs) = (ps.map braces).sum) rfl
    fun r rs ps hrs _ hps => by
      obtain ⟨m, hscans, -, hend⟩ := scans_next hrs
      obtain ⟨-, -, hbytes⟩ := after_bytes_next hrs
      have hall : Region.code.count (Rune.bytes (r :: rs)) =
          (next r rs).1.braces + m.count (Rune.bytes (next r rs).2) := by
        rw [hbytes]
        exact (hscans.append (Region.scans_self m _)).2
      rw [hall, List.map_cons, List.sum_cons, ← hps]
      -- the next piece starts in code, or there is none
      rcases hend with rfl | hnone
      · rfl
      · rw [hnone]
        rfl
  rwa [Rune.bytes_all] at hcount

end Piece

/-! ## Tokens -/

namespace TokenStream

/-- **Braces opened less braces closed** among the tokens of a stream. -/
def opened (s : TokenStream) : Int :=
  (s.tokens.countP (·.kind = .lbrace) : Int) - s.tokens.countP (·.kind = .rbrace)

/-- A piece counts what its token does. -/
theorem braces_token? (p : Piece) (offset : Nat) :
    p.braces = ((p.token? offset).toList.countP (·.kind = .lbrace) : Int) -
      (p.token? offset).toList.countP (·.kind = .rbrace) := by
  obtain ⟨sort, raw⟩ := p
  cases sort with
  | blank | comment _ | unknown _ | number _ | string _ => rfl
  | word =>
      have hkinds : ∀ w ∈ TokenKind.keywords, w.2 ≠ .lbrace ∧ w.2 ≠ .rbrace := by decide
      have hword : TokenKind.ofWord raw ≠ .lbrace ∧ TokenKind.ofWord raw ≠ .rbrace := by
        rcases TokenKind.mem_keywords_or raw with hmem | ⟨hident, -⟩
        · exact hkinds _ hmem
        · simp [hident]
      simp [Piece.braces, Piece.token?, hword]
  | operator kind => cases kind <;> rfl

theorem opened_bodyFrom (offset : Nat) (ps : List Piece) :
    (ps.map Piece.braces).sum = ((bodyFrom offset ps).countP (·.kind = .lbrace) : Int) -
      (bodyFrom offset ps).countP (·.kind = .rbrace) := by
  induction ps generalizing offset with
  | nil => rfl
  | cons p ps ih =>
      rw [List.map_cons, List.sum_cons, ih (offset + p.raw.length), braces_token? p offset,
        bodyFrom, List.countP_append, List.countP_append]
      omega

/-- **Tokens and bytes give the same count.** The braces of a text that are tokens are those that
stand in code. -/
theorem opened_ofText (text : Text) : (ofText text).opened = Region.code.count text := by
  have htokens : (ofText text).tokens = tokensFrom 0 (Piece.cut text) := rfl
  rw [Piece.count_cut, opened, htokens, tokensFrom_eq, List.countP_append, List.countP_append,
    opened_bodyFrom 0]
  simp [Token.endAt]

end TokenStream

end Badger
