import Badger.Proofs.Text.Encoding
import Badger.Proofs.Token.Concatenation
import Badger.Proofs.Token.Lexical
import Mathlib.Data.List.Basic

/-!
# Printed tokens read back

Tokens that are printed with a blank between neighbours are read back as they are, and every
text has such tokens.

## Main definitions

* `Written`: **the words of the language**, each kind with the texts that it can have
* `Token.print`: a token as it is written in a text
* `Token.printAll`: some tokens with a blank between neighbours
* `Piece.Reads`: a text that is one piece, whatever follows it after a blank

## Main statements

* `Written.reads`: a printed word is one piece, and this piece stands for the word
* `Piece.written_next`: the token of any piece is a word
* `TokenStream.ofText_printAll`: **printed tokens read back**

## Design notes

A blank is what every scanner stops at: it continues no word, no numeral and no operator, and a
string literal is closed by its own mark. The text of a token is therefore read without a look
at what comes after the blank. Values of strings, and names, are given by their characters; a
text that is read may hold ill-formed bytes, but only as characters that are replaced.
-/

namespace Badger

/-! ## Words -/

/-- **The words of the language.** A keyword or an operator in one of its spellings, a name that
is no keyword, digits that may have a point and more digits after them, and any value of a
string. -/
inductive Written : TokenKind → Text → Prop
  | fixed {kind : TokenKind} {lexeme : Text} (h : lexeme ∈ kind.spellings) : Written kind lexeme
  | name {c : Char} {cs : List Char} (hc : Piece.startsName c = true)
      (hcs : ∀ d ∈ cs, Piece.continuesName d = true)
      (h : Rune.encodeAll (c :: cs) ∉ TokenKind.keywords.map Prod.fst) :
      Written .ident (Rune.encodeAll (c :: cs))
  | whole {c : Char} {cs : List Char} (h : ∀ d ∈ c :: cs, Piece.isDigit d = true) :
      Written .number (Rune.encodeAll (c :: cs))
  | decimal {c : Char} {cs ds : List Char} (hwhole : ∀ d ∈ c :: cs, Piece.isDigit d = true)
      (hpart : ∀ d ∈ ds, Piece.isDigit d = true) :
      Written .number (Rune.encodeAll (c :: cs ++ '.' :: ds))
  | string (cs : List Char) : Written .string (Rune.encodeAll cs)

namespace Token

/-- A token is a word of the language. -/
def IsWritten (t : Token) : Prop := Written t.kind t.lexeme

/-- The number that a token stands for, if it is a numeral. -/
def value (t : Token) : Float :=
  if t.kind = .number then (Piece.numeralValue? t.lexeme).getD 0 else 0

/-- A string literal: its value between quotation marks, with a backslash in front of each
quotation mark and of each backslash. -/
def quote (value : Text) : Text :=
  Text.byte '"' ::
    value.flatMap (fun b =>
      if b = Text.byte '"' ∨ b = Text.byte '\\' then [Text.byte '\\', b] else [b]) ++
    [Text.byte '"']

/-- **A token as it is written.** -/
def print (t : Token) : Text := if t.kind = .string then quote t.lexeme else t.lexeme

/-- **Some tokens**, with a blank between neighbours. -/
def printAll (ts : List Token) : Text := Text.join [Text.byte ' '] (ts.map print)

/-- A token as it is read at the given offset. -/
def placed (offset : Nat) (t : Token) : Token := ⟨t.kind, t.lexeme, t.value, offset⟩

/-- Some tokens, each at the offset at which it is printed if the first one is printed at the
given offset. -/
def placedFrom (offset : Nat) : List Token → List Token
  | [] => []
  | t :: ts => t.placed offset :: placedFrom (offset + t.print.length + 1) ts

/-- The tokens themselves do not depend on where they are printed. -/
theorem map_placedFrom {ts : List Token} (h : ∀ t ∈ ts, t.number = t.value) (offset : Nat) :
    (placedFrom offset ts).map (fun t => (t.kind, t.lexeme, t.number)) =
      ts.map fun t => (t.kind, t.lexeme, t.number) := by
  induction ts generalizing offset with
  | nil => rfl
  | cons t ts ih =>
      rw [List.forall_mem_cons] at h
      rw [placedFrom, List.map_cons, List.map_cons, ih h.2, h.1]
      rfl

end Token

/-! ## A printed word is one piece -/

namespace Piece

open Rune (ofChar encodeAll encodeAll_nil encodeAll_cons encodeAll_append)

/-- Some runes are none, or start with a blank. -/
def Delimited (ss : List Rune) : Prop := ∀ s ∈ ss.head?, s.char = ' '

/-- **A text is one piece**, whatever follows it after a blank. -/
def Reads (text : Text) (p : Piece) : Prop :=
  p.raw = text ∧ ∃ c cs, text = encodeAll (c :: cs) ∧
    ∀ ss, Delimited ss → next (ofChar c) (cs.map ofChar ++ ss) = (p, ss)

/-- A scanner takes the characters in front of one that it stops at. -/
theorem takeWhile_stops {p : Char → Bool} {cs : List Char} (hcs : ∀ c ∈ cs, p c = true)
    {ss : List Rune} (hss : ∀ s ∈ ss.head?, p s.char = false) :
    (cs.map ofChar ++ ss).takeWhile (p ·.char) = cs.map ofChar ∧
      (cs.map ofChar ++ ss).dropWhile (p ·.char) = ss := by
  induction cs with
  | nil =>
      cases ss with
      | nil => exact ⟨rfl, rfl⟩
      | cons s ss =>
          have hs : p s.char = false := hss s rfl
          simp [hs]
  | cons c cs ih =>
      rw [List.forall_mem_cons] at hcs
      simp [hcs.1, ih hcs.2]

theorem Delimited.stops {ss : List Rune} (h : Delimited ss) {p : Char → Bool}
    (hblank : p ' ' = false) : ∀ s ∈ ss.head?, p s.char = false :=
  fun s hs => by rw [h s hs, hblank]

/-! ### Names and keywords -/

theorem toNat_isDigit {c : Char} (h : isDigit c = true) : 48 ≤ c.toNat ∧ c.toNat ≤ 57 := by
  simp only [isDigit, Bool.and_eq_true, decide_eq_true_eq, Char.le_def, UInt32.le_iff_toNat_le] at h
  exact h

/-- A character that starts a piece of another sort is no blank and starts no comment and no
string. -/
theorem starts_only {p : Char → Bool}
    (hp : ([' ', '\t', '\r', '\n', '#', '"'].all fun d => !p d) = true)
    {c : Char} (h : p c = true) : isBlank c = false ∧ c ≠ '#' ∧ c ≠ '"' := by
  have hne {d : Char} (hd : d ∈ [' ', '\t', '\r', '\n', '#', '"']) : c ≠ d := by
    rintro rfl
    have hnot := List.all_eq_true.mp hp _ hd
    simp [h] at hnot
  refine ⟨?_, hne (by simp), hne (by simp)⟩
  simp [isBlank, hne]

theorem isDigit_eq_false_of_startsName {c : Char} (h : startsName c = true) :
    isDigit c = false := by
  rw [Bool.eq_false_iff]
  intro hdigit
  obtain ⟨hlow, hhigh⟩ := toNat_isDigit hdigit
  have hbyte := (startsName_cases h).2 (by omega)
  rw [← Bool.not_eq_true, isDigit_byte, toNat_byte (by omega)] at hbyte
  omega

theorem reads_word {c : Char} {cs : List Char} (hc : startsName c = true)
    (hcs : ∀ d ∈ cs, continuesName d = true) :
    Reads (encodeAll (c :: cs)) ⟨.word, encodeAll (c :: cs)⟩ := by
  obtain ⟨hblank, hcomment, hquote⟩ := starts_only (by decide) hc
  have hdigit := isDigit_eq_false_of_startsName hc
  refine ⟨rfl, c, cs, rfl, fun ss hss => ?_⟩
  obtain ⟨htake, hdrop⟩ := takeWhile_stops hcs (hss.stops (by decide))
  rw [next, htake, hdrop]
  simp [hblank, hcomment, hquote, hdigit, hc]

/-! ### Numerals -/

/-- A numeral is what its scanner takes in front of a blank. -/
theorem reads_number {c : Char} {cs : List Char} (hc : isDigit c = true)
    (h : ∀ ss, Delimited ss → numeral ((c :: cs).map ofChar ++ ss) = ((c :: cs).map ofChar, ss)) :
    Reads (encodeAll (c :: cs))
      ⟨.number (numeralValue? (encodeAll (c :: cs))), encodeAll (c :: cs)⟩ := by
  obtain ⟨hblank, hcomment, hquote⟩ := starts_only (by decide) hc
  refine ⟨rfl, c, cs, rfl, fun ss hss => ?_⟩
  have hnumeral : numeral (ofChar c :: (cs.map ofChar ++ ss)) = ((c :: cs).map ofChar, ss) :=
    h ss hss
  rw [next, hnumeral]
  simp only [Rune.bytes_map_ofChar]
  simp [hblank, hcomment, hquote, hc]

theorem numeral_whole {cs : List Char} (h : ∀ d ∈ cs, isDigit d = true) {ss : List Rune}
    (hss : Delimited ss) : numeral (cs.map ofChar ++ ss) = (cs.map ofChar, ss) := by
  obtain ⟨htake, hdrop⟩ := takeWhile_stops h (hss.stops (by decide))
  unfold numeral
  rw [htake, hdrop]
  cases ss with
  | nil => rfl
  | cons s ss =>
      have hs : s.char = ' ' := hss s rfl
      simp [hs]

theorem numeral_decimal {cs ds : List Char} (hcs : ∀ d ∈ cs, isDigit d = true)
    (hds : ∀ d ∈ ds, isDigit d = true) {ss : List Rune} (hss : Delimited ss) :
    numeral ((cs ++ '.' :: ds).map ofChar ++ ss) = ((cs ++ '.' :: ds).map ofChar, ss) := by
  have hpoint : ∀ s ∈ (ofChar '.' :: (ds.map ofChar ++ ss)).head?, isDigit s.char = false := by
    rintro _ ⟨⟩
    rfl
  obtain ⟨htake, hdrop⟩ := takeWhile_stops hcs hpoint
  obtain ⟨htake', hdrop'⟩ := takeWhile_stops hds (hss.stops (by decide))
  have hsplit : (cs ++ '.' :: ds).map ofChar ++ ss =
      cs.map ofChar ++ ofChar '.' :: (ds.map ofChar ++ ss) := by simp
  have hchar : (ofChar '.').char = '.' := rfl
  rw [hsplit]
  unfold numeral
  rw [htake, hdrop]
  simp only [hchar, if_true, htake', hdrop', List.map_append, List.map_cons]

/-! ### Strings -/

/-- The characters between the marks of a string literal. -/
def escaped (cs : List Char) : List Char :=
  cs.flatMap fun c => if c = '"' ∨ c = '\\' then ['\\', c] else [c]

theorem escaped_cons (c : Char) (cs : List Char) :
    escaped (c :: cs) = (if c = '"' ∨ c = '\\' then ['\\', c] else [c]) ++ escaped cs := rfl

/-- The bytes that get a backslash are those of the characters that do. -/
theorem quote_encodeAll (cs : List Char) :
    Token.quote (encodeAll cs) = encodeAll ('"' :: escaped cs ++ ['"']) := by
  have hinner : (encodeAll cs).flatMap (fun b =>
      if b = Text.byte '"' ∨ b = Text.byte '\\' then [Text.byte '\\', b] else [b]) =
      encodeAll (escaped cs) := by
    induction cs with
    | nil => rfl
    | cons c cs ih =>
        rw [encodeAll_cons, List.flatMap_append, ih, escaped_cons, encodeAll_append]
        congr 1
        split_ifs with hc
        · rcases hc with rfl | rfl <;> decide
        · rw [not_or] at hc
          -- no byte of another character looks like a mark or a backslash
          have hself : ∀ b ∈ Rune.encode c,
              (if b = Text.byte '"' ∨ b = Text.byte '\\' then [Text.byte '\\', b] else [b]) = [b] :=
            fun b hb => if_neg (not_or.mpr (Quoted.encode_selves hc.1 hc.2 hb))
          rw [List.flatMap_congr hself, List.flatMap_singleton', encodeAll_cons, encodeAll_nil,
            List.append_nil]
  rw [Token.quote, hinner, encodeAll_append, encodeAll_cons]
  rfl

/-- **The body of a literal has the value that it was made from.** -/
theorem stringBody_escaped (cs : List Char) (ss : List Rune) :
    stringBody ((escaped cs).map ofChar ++ ofChar '"' :: ss) =
      (encodeAll cs, encodeAll (escaped cs ++ ['"']), ss) := by
  induction cs with
  | nil =>
      rw [escaped, List.flatMap_nil, List.map_nil, List.nil_append, stringBody.eq_def]
      simp
  | cons c cs ih =>
      rw [escaped_cons]
      split_ifs with hc
      · rw [List.map_append, List.append_assoc, stringBody.eq_def]
        have hunescape : unescape c = Rune.encode c := by
          rcases hc with rfl | rfl <;> decide
        simp [ih, hunescape]
      · rw [not_or] at hc
        rw [List.map_append, List.append_assoc, stringBody.eq_def]
        simp [ih, hc.1, hc.2]

theorem reads_string (cs : List Char) :
    Reads (Token.quote (encodeAll cs)) ⟨.string (encodeAll cs), Token.quote (encodeAll cs)⟩ := by
  refine ⟨rfl, '"', escaped cs ++ ['"'], quote_encodeAll cs, fun ss hss => ?_⟩
  have hbody := stringBody_escaped cs ss
  have hsplit : (escaped cs ++ ['"']).map ofChar ++ ss =
      (escaped cs).map ofChar ++ ofChar '"' :: ss := by simp
  have hblank : isBlank '"' = false := by decide
  rw [hsplit, next, hbody, quote_encodeAll]
  simp [hblank]

/-! ### Operators -/

/-- The characters of operators start no other piece. -/
def StartsOperator (c : Char) : Prop :=
  c.toNat < 128 ∧ isBlank c = false ∧ c ≠ '#' ∧ c ≠ '"' ∧ isDigit c = false ∧ startsName c = false

instance (c : Char) : Decidable (StartsOperator c) := inferInstanceAs (Decidable (_ ∧ _))

theorem next_operator {c : Char} (h : StartsOperator c) (rs : List Rune) :
    next (ofChar c) rs = operator (ofChar c) rs := by
  obtain ⟨-, hblank, hcomment, hquote, hdigit, hname⟩ := h
  simp [next, ofChar, hblank, hcomment, hquote, hdigit, hname]

theorem reads_single {c : Char} {kind : TokenKind} (h : (c, kind) ∈ TokenKind.singles) :
    Reads [Text.byte c] ⟨.operator kind, [Text.byte c]⟩ := by
  have hall : ∀ p ∈ TokenKind.singles, StartsOperator p.1 ∧ TokenKind.single? p.1 = some p.2 ∧
      TokenKind.double? p.1 ' ' = none := by decide
  obtain ⟨hstarts, hsingle, hdouble⟩ := hall _ h
  have hencode : encodeAll [c] = [Text.byte c] := by simp [Rune.encode_ascii hstarts.1]
  have hraw : (ofChar c).raw = [Text.byte c] := Rune.encode_ascii hstarts.1
  have hchar : (ofChar c).char = c := rfl
  refine ⟨rfl, c, [], hencode.symm, fun ss hss => ?_⟩
  rw [List.map_nil, List.nil_append, next_operator hstarts]
  cases ss with
  | nil => simp only [operator, hchar, hsingle, hraw]
  | cons s ss =>
      have hs : s.char = ' ' := hss s rfl
      simp only [operator, hchar, hs, hsingle, hdouble, hraw]

theorem reads_double {c d : Char} {kind : TokenKind} (h : ((c, d), kind) ∈ TokenKind.doubles) :
    Reads [Text.byte c, Text.byte d] ⟨.operator kind, [Text.byte c, Text.byte d]⟩ := by
  have hall : ∀ p ∈ TokenKind.doubles, StartsOperator p.1.1 ∧ p.1.2.toNat < 128 ∧
      TokenKind.double? p.1.1 p.1.2 = some p.2 := by decide
  obtain ⟨hstarts, hascii, hdouble⟩ := hall _ h
  have hencode : encodeAll [c, d] = [Text.byte c, Text.byte d] := by
    simp [Rune.encode_ascii hstarts.1, Rune.encode_ascii hascii]
  refine ⟨rfl, c, [d], hencode.symm, fun ss _ => ?_⟩
  rw [next_operator hstarts]
  simp [operator, hdouble, Rune.encode_ascii hstarts.1, Rune.encode_ascii hascii]

end Piece

/-! ## Spellings -/

/-- What stands in the tables. -/
theorem TokenKind.mem_spellings {kind : TokenKind} {lexeme : Text} :
    lexeme ∈ kind.spellings ↔ (lexeme, kind) ∈ keywords ∨
      (∃ c, (c, kind) ∈ singles ∧ [Text.byte c] = lexeme) ∨
      ∃ c d, ((c, d), kind) ∈ doubles ∧ [Text.byte c, Text.byte d] = lexeme := by
  simp [spellings]

theorem TokenKind.ofWord_eq_ident {word : Text} (h : word ∉ keywords.map Prod.fst) :
    ofWord word = .ident := by
  have hlookup : keywords.lookup word = none := by
    rw [List.lookup_eq_none_iff]
    rintro w hw
    rw [bne_iff_ne]
    rintro rfl
    exact h (List.mem_map_of_mem hw)
  rw [ofWord, hlookup]
  rfl

/-- A keyword is written as a word. -/
theorem Piece.reads_keyword {lexeme : Text} {kind : TokenKind}
    (h : (lexeme, kind) ∈ TokenKind.keywords) :
    Reads lexeme ⟨.word, lexeme⟩ ∧ TokenKind.ofWord lexeme = kind := by
  have hall : ∀ w ∈ TokenKind.keywords, TokenKind.ofWord w.1 = w.2 ∧
      w.1 = Rune.encodeAll (w.1.map fun b => Char.ofNat b.toNat) ∧
      (w.1.map fun b => Char.ofNat b.toNat).head?.any startsName = true ∧
      (w.1.map fun b => Char.ofNat b.toNat).all continuesName = true := by decide
  obtain ⟨hkind, hencode, hstarts, hcontinues⟩ := hall _ h
  refine ⟨?_, hkind⟩
  dsimp only at hencode hstarts hcontinues
  obtain ⟨c, hhead, hc⟩ := Option.any_eq_true .. |>.mp hstarts
  obtain ⟨cs, hcs⟩ := List.head?_eq_some_iff.mp hhead
  rw [hcs] at hencode hcontinues
  rw [hencode]
  exact reads_word hc fun d hd =>
    List.all_eq_true.mp hcontinues d (List.mem_cons_of_mem c hd)

namespace Token

/-- Only a numeral stands for a number. -/
theorem placed_eq {kind : TokenKind} (h : kind ≠ .number) (lexeme : Text) (number : Float)
    (pos : Int) (offset : Nat) :
    placed offset ⟨kind, lexeme, number, pos⟩ = ⟨kind, lexeme, 0, offset⟩ := by
  simp [placed, value, h]

end Token

namespace Written

variable {kind : TokenKind} {lexeme : Text} (number : Float) (pos : Int)

theorem reads_fixed (h : lexeme ∈ kind.spellings) :
    ∃ p, Piece.Reads (Token.print ⟨kind, lexeme, number, pos⟩) p ∧
      ∀ offset, p.token? offset = some (Token.placed offset ⟨kind, lexeme, number, pos⟩) := by
  -- strings and numerals have no spelling of their own
  have hkinds : ∀ k : TokenKind, k.spellings ≠ [] → k ≠ .string ∧ k ≠ .number := by
    intro k hk
    constructor <;> rintro rfl <;> exact absurd hk (by decide)
  obtain ⟨hstring, hnumber⟩ := hkinds kind (List.ne_nil_of_mem h)
  have hprint : Token.print ⟨kind, lexeme, number, pos⟩ = lexeme := if_neg hstring
  rw [hprint]
  rcases TokenKind.mem_spellings.mp h with hword | ⟨c, hsingle, rfl⟩ | ⟨c, d, hdouble, rfl⟩
  · obtain ⟨hreads, rfl⟩ := Piece.reads_keyword hword
    exact ⟨_, hreads, fun offset => by rw [Token.placed_eq hnumber]; rfl⟩
  · exact ⟨_, Piece.reads_single hsingle, fun offset => by rw [Token.placed_eq hnumber]; rfl⟩
  · exact ⟨_, Piece.reads_double hdouble, fun offset => by rw [Token.placed_eq hnumber]; rfl⟩

/-- **A printed word is one piece**, and the piece stands for the word. -/
theorem reads (h : Written kind lexeme) :
    ∃ p, Piece.Reads (Token.print ⟨kind, lexeme, number, pos⟩) p ∧
      ∀ offset, p.token? offset = some (Token.placed offset ⟨kind, lexeme, number, pos⟩) := by
  cases h with
  | fixed h => exact reads_fixed number pos h
  | @name c cs hc hcs hword =>
      refine ⟨_, Piece.reads_word hc hcs, fun offset => ?_⟩
      have hkind := TokenKind.ofWord_eq_ident hword
      have htoken : Piece.token? offset ⟨.word, Rune.encodeAll (c :: cs)⟩ =
          some ⟨TokenKind.ofWord (Rune.encodeAll (c :: cs)), Rune.encodeAll (c :: cs), 0, offset⟩ :=
        rfl
      rw [htoken, hkind]
      exact congrArg some (Token.placed_eq (by decide) _ _ _ offset).symm
  | @whole c cs h =>
      exact ⟨_, Piece.reads_number (h c List.mem_cons_self) fun ss hss => Piece.numeral_whole h hss,
        fun _ => rfl⟩
  | @decimal c cs ds hwhole hpart =>
      exact ⟨_, Piece.reads_number (hwhole c List.mem_cons_self)
        fun ss hss => Piece.numeral_decimal hwhole hpart hss, fun _ => rfl⟩
  | string cs => exact ⟨_, Piece.reads_string cs, fun _ => rfl⟩

end Written

/-! ## Printed tokens read back -/

namespace Piece

/-- The first piece of a text, and what is cut from the text after it. -/
theorem cut_cons {text rest : Text} {r : Rune} {rs : List Rune} {p : Piece}
    (h : Rune.all text = r :: rs) (hnext : next r rs = (p, Rune.all rest)) :
    cut text = p :: cut rest := by
  have hplain : ∀ s ∈ r :: rs, s.Plain := fun s hs => Rune.plain_of_mem_all (h ▸ hs)
  obtain ⟨hlength, hafter, -⟩ := rest_of_next hplain
  rw [hnext] at hlength hafter
  rw [cut, h, List.length_cons, cutRunes_succ, hnext, cutRunes_eq hafter hlength Nat.le.refl]
  rfl

/-- A blank is a piece of its own. -/
theorem cut_blank (rest : Text) :
    cut (Text.byte ' ' :: rest) = ⟨.blank, [Text.byte ' ']⟩ :: cut rest :=
  cut_cons (Rune.all_encode ' ' rest) rfl

/-- **A text that is one piece** is cut off the text before it ends or a blank comes. -/
theorem Reads.cut_append {text : Text} {p : Piece} (h : Reads text p) {rest : Text}
    (hrest : Delimited (Rune.all rest)) : cut (text ++ rest) = p :: cut rest := by
  obtain ⟨-, c, cs, rfl, hnext⟩ := h
  exact cut_cons (Rune.all_encodeAll (c :: cs) rest) (hnext _ hrest)

end Piece

namespace TokenStream

/-- Tokens that are printed from an offset on are read back, each where it is printed. -/
theorem tokensFrom_printAll {ts : List Token} (h : ∀ t ∈ ts, t.IsWritten) (offset : Nat) :
    tokensFrom offset (Piece.cut (Token.printAll ts)) =
      Token.placedFrom offset ts ++ [Token.endAt (offset + (Token.printAll ts).length : Nat)] := by
  induction ts generalizing offset with
  | nil => rfl
  | cons t ts ih =>
      rw [List.forall_mem_cons] at h
      obtain ⟨p, hreads, htoken⟩ := h.1.reads t.number t.offset
      -- what delimits the first token is the end of the text, or the blank before the next token
      cases ts with
      | nil =>
          have hall : Token.printAll [t] = t.print ++ [] := by simp [Token.printAll]
          have hend : Piece.Delimited (Rune.all []) := fun _ hs => by cases hs
          rw [hall, hreads.cut_append hend, tokensFrom, htoken, hreads.1]
          simp [Token.placedFrom, Piece.cut, Rune.all]
      | cons u ts =>
          have hall : Token.printAll (t :: u :: ts) =
              t.print ++ (Text.byte ' ' :: Token.printAll (u :: ts)) := by
            simp [Token.printAll, Text.join_cons_cons]
          have hblank : Piece.Delimited (Rune.all (Text.byte ' ' :: Token.printAll (u :: ts))) := by
            have hrunes := Rune.all_encode ' ' (Token.printAll (u :: ts))
            rintro _ ⟨⟩
            rfl
          rw [hall, hreads.cut_append hblank, Piece.cut_blank, tokensFrom, htoken, hreads.1]
          show _ :: tokensFrom (offset + t.print.length + 1) _ = _
          have hend : offset + t.print.length + 1 + (Token.printAll (u :: ts)).length =
              offset + (t.print ++ Text.byte ' ' :: Token.printAll (u :: ts)).length := by
            rw [List.length_append, List.length_cons]
            omega
          rw [ih h.2, hend]
          rfl

end TokenStream

/-! ## Every text has words -/

namespace Piece

variable {text : Text}

/-- A rune of a text is the one of its character, unless that is the replacement character. -/
theorem eq_ofChar {r : Rune} (hr : r ∈ Rune.all text) (h : r.char ≠ Rune.replacement) :
    r = Rune.ofChar r.char := by
  rcases Rune.raw_eq_encode hr with ⟨b, -, hinvalid⟩ | hraw
  · simp [Rune.isInvalid, h] at hinvalid
  · rw [Rune.ofChar, ← hraw]

/-- The bytes of some runes with characters of a class that leaves out the replacement
character. -/
theorem bytes_eq_encodeAll {p : Char → Bool} (hp : p Rune.replacement = false) {rs : List Rune}
    (hrs : ∀ r ∈ rs, r ∈ Rune.all text) (h : ∀ r ∈ rs, p r.char = true) :
    Rune.bytes rs = Rune.encodeAll (rs.map Rune.char) := by
  induction rs with
  | nil => rfl
  | cons r rs ih =>
      rw [List.forall_mem_cons] at hrs h
      have hr : r = Rune.ofChar r.char := by
        refine eq_ofChar hrs.1 fun hreplacement => ?_
        rw [hreplacement, hp] at h
        exact Bool.false_ne_true h.1
      rw [Rune.bytes_cons, ih hrs.2 h.2, List.map_cons, Rune.encodeAll_cons, ← Rune.ofChar_raw,
        ← hr]

/-- The value of a string is made of characters. -/
theorem exists_value_stringBody (rs : List Rune) :
    ∃ cs, (stringBody rs).1 = Rune.encodeAll cs := by
  fun_induction stringBody rs with
  | case1 => exact ⟨[], rfl⟩
  | case2 r rs _ => exact ⟨[], rfl⟩
  | case3 r _ _ => exact ⟨[], rfl⟩
  | case4 r _ _ e rest value raw after hresult ih =>
      rw [hresult] at ih
      obtain ⟨cs, hcs⟩ := ih
      have hunescape : ∃ c, unescape e.char = Rune.encode c := by
        unfold unescape
        split_ifs
        · exact ⟨'\n', by decide⟩
        · exact ⟨'\t', by decide⟩
        · exact ⟨e.char, rfl⟩
      obtain ⟨c, hc⟩ := hunescape
      exact ⟨c :: cs, by rw [Rune.encodeAll_cons, ← hc, ← hcs]⟩
  | case5 r rs _ _ value raw after hresult ih =>
      rw [hresult] at ih
      obtain ⟨cs, hcs⟩ := ih
      exact ⟨r.char :: cs, by rw [Rune.encodeAll_cons, ← hcs]⟩

/-- The lexeme of a name or keyword. -/
theorem written_word {r : Rune} {rs : List Rune} (h : ∀ s ∈ r :: rs, s ∈ Rune.all text)
    (hname : startsName r.char = true) {lexeme : Text}
    (hlexeme : lexeme = r.raw ++ Rune.bytes (rs.takeWhile (continuesName ·.char))) :
    Written (TokenKind.ofWord lexeme) lexeme := by
  have hcontinues := continuesName_word rs hname
  have hbytes := bytes_eq_encodeAll (p := continuesName) (by decide +kernel)
    (fun s hs => h s (mem_of_mem_word hs)) hcontinues
  rw [← Rune.bytes_cons, hbytes, List.map_cons] at hlexeme
  by_cases hword : lexeme ∈ TokenKind.keywords.map Prod.fst
  · obtain ⟨⟨word, kind⟩, hmem, rfl⟩ := List.mem_map.mp hword
    rw [(reads_keyword hmem).2]
    exact .fixed (TokenKind.mem_spellings.mpr (.inl hmem))
  · rw [TokenKind.ofWord_eq_ident hword, hlexeme]
    rw [hlexeme] at hword
    rw [List.forall_mem_cons] at hcontinues
    exact .name hname (List.forall_mem_map.mpr hcontinues.2) hword

/-- The lexeme of a numeral. -/
theorem written_number {r : Rune} {rs : List Rune} (h : ∀ s ∈ r :: rs, s ∈ Rune.all text)
    (hdigit : isDigit r.char = true) :
    Written .number (Rune.bytes (numeral (r :: rs)).1) := by
  have hbytes := bytes_eq_encodeAll (p := fun c => isDigit c || c == '.') (by decide)
    (fun s hs => h s (mem_of_mem_numeral hs)) (isDigit_numeral rs hdigit)
  rw [hbytes]
  rcases numeral_shape rs hdigit with ⟨whole, hshape, hwhole⟩ |
    ⟨whole, point, part, hshape, hpoint, hwhole, hpart⟩
  · rw [hshape]
    exact .whole ((List.forall_mem_map (l := r :: whole)).mpr hwhole)
  · rw [hshape, List.map_append, List.map_cons, List.map_cons, hpoint]
    exact .decimal ((List.forall_mem_map (l := r :: whole)).mpr hwhole)
      (List.forall_mem_map.mpr hpart)

/-- The token of an operator. -/
theorem written_operator {p : Piece} (hp : p.Fair)
    (hsort : (∃ kind, p.sort = .operator kind) ∨ ∃ c, p.sort = .unknown c) {offset : Nat}
    {t : Token} (h : p.token? offset = some t) : t.IsWritten ∧ t.number = t.value := by
  rcases hsort with ⟨kind, hsort⟩ | ⟨c, hsort⟩
  · simp only [token?, hsort, Option.some.injEq] at h
    subst h
    obtain ⟨-, hspelled⟩ := hp.2 kind hsort
    refine ⟨.fixed hspelled, (if_neg ?_).symm⟩
    rintro rfl
    exact absurd hspelled (by simp [show TokenKind.number.spellings = [] by decide])
  · simp only [token?, hsort] at h
    cases h

/-- **The token of any piece is a word.** -/
theorem written_next (r : Rune) (rs : List Rune) (h : ∀ s ∈ r :: rs, s ∈ Rune.all text) :
    ∀ offset t, (next r rs).1.token? offset = some t → t.IsWritten ∧ t.number = t.value := by
  intro offset t
  unfold next
  split_ifs with hblank hcomment hstring hdigit hname
  · exact nofun
  · exact nofun
  · rintro ⟨⟩
    obtain ⟨cs, hcs⟩ := exists_value_stringBody rs
    exact ⟨by rw [hcs]; exact .string cs, rfl⟩
  · rintro ⟨⟩
    exact ⟨written_number h hdigit, rfl⟩
  · rintro ⟨⟩
    exact ⟨written_word h hname rfl, (if_neg (ofWord_cases _).1).symm⟩
  · have hplain : ∀ s ∈ r :: rs, s.Plain := fun s hs => Rune.plain_of_mem_all (h s hs)
    rw [List.forall_mem_cons] at hplain
    exact written_operator (cuts_operator hplain.1 hplain.2).1 (operator_sort r rs)

end Piece

namespace TokenStream

/-- **Every text has words**, and the end token after them. -/
theorem exists_isWritten_ofText (text : Text) :
    ∃ body, (ofText text).tokens = body ++ [Token.endAt text.length] ∧
      ∀ t ∈ body, t.IsWritten ∧ t.number = t.value := by
  have htokens : (ofText text).tokens = tokensFrom 0 (Piece.cut text) := rfl
  refine ⟨bodyFrom 0 (Piece.cut text), ?_, fun t ht => ?_⟩
  · rw [htokens, tokensFrom_eq, Piece.width_cut, Nat.zero_add]
  · have hpieces : ∀ p ∈ Piece.cut text, ∀ offset u, p.token? offset = some u →
        u.IsWritten ∧ u.number = u.value := Piece.forall_mem_cut Piece.written_next
    obtain ⟨p, hp, pos, htoken⟩ := exists_of_mem_bodyFrom ht
    exact hpieces p hp pos t htoken

/-- **Printed tokens read back.** Words that are printed with a blank between neighbours are read
as the same words, each at the offset at which it was printed, and then the end token. The tokens
of every text are words, so that printing and reading them gives the same kinds, texts and
numbers. -/
theorem ofText_printAll :
    (∀ ts : List Token, (∀ t ∈ ts, t.IsWritten) →
      (ofText (Token.printAll ts)).tokens =
        Token.placedFrom 0 ts ++ [Token.endAt (Token.printAll ts).length]) ∧
    ∀ text : Text, ∃ body, (ofText text).tokens = body ++ [Token.endAt text.length] ∧
      (∀ t ∈ body, t.IsWritten) ∧
      ∃ again, (ofText (Token.printAll body)).tokens =
          again ++ [Token.endAt (Token.printAll body).length] ∧
        again.map (fun t => (t.kind, t.lexeme, t.number)) =
          body.map fun t => (t.kind, t.lexeme, t.number) := by
  have hprinted (ts : List Token) (h : ∀ t ∈ ts, t.IsWritten) :
      (ofText (Token.printAll ts)).tokens =
        Token.placedFrom 0 ts ++ [Token.endAt (Token.printAll ts).length] := by
    have htokens := tokensFrom_printAll h 0
    rwa [Nat.zero_add] at htokens
  refine ⟨hprinted, fun text => ?_⟩
  obtain ⟨body, htokens, hbody⟩ := exists_isWritten_ofText text
  have hwritten : ∀ t ∈ body, t.IsWritten := fun t ht => (hbody t ht).1
  exact ⟨body, htokens, hwritten, _, hprinted body hwritten,
    Token.map_placedFrom (fun t ht => (hbody t ht).2) 0⟩

/-- A keyword, a name, a numeral that ends in its point, a string with a mark and a backslash in
it, and two operators. -/
theorem ofText_printAll_words :
    ∃ ts : List Token, (∀ t ∈ ts, t.IsWritten) ∧
      Token.printAll ts = utf8 "if \u00e91 1. \"a\\\"\\\\\" >= &&" ∧
      (ofText (Token.printAll ts)).tokens.map (fun t => (t.kind, t.lexeme, t.offset)) =
        [(.ifWord, utf8 "if", 0), (.ident, utf8 "\u00e91", 3), (.number, utf8 "1.", 7),
          (.string, utf8 "a\"\\", 10), (.gte, utf8 ">=", 18), (.and, utf8 "&&", 21),
          (.eof, [], 23)] := by
  have hwritten : ∀ t ∈ [(⟨.ifWord, utf8 "if", 0, 0⟩ : Token), ⟨.ident, utf8 "\u00e91", 0, 0⟩,
      ⟨.number, utf8 "1.", 0, 0⟩, ⟨.string, utf8 "a\"\\", 0, 0⟩, ⟨.gte, utf8 ">=", 0, 0⟩,
      ⟨.and, utf8 "&&", 0, 0⟩], t.IsWritten := by
    simp only [List.forall_mem_cons]
    refine ⟨.fixed (by decide), ?_, ?_, ?_, .fixed (by decide), .fixed (by decide), nofun⟩
    · exact @Written.name 'é' ['1'] (by decide +kernel) (List.forall_mem_singleton.mpr (by decide))
        (by decide)
    · exact @Written.decimal '1' [] [] (List.forall_mem_singleton.mpr (by decide))
        (List.forall_mem_nil _)
    · exact Written.string ['a', '"', '\\']
  refine ⟨_, hwritten, by decide, ?_⟩
  rw [ofText_printAll.1 _ hwritten]
  decide

end TokenStream

end Badger
