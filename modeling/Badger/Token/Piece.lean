import Badger.Problem
import Badger.Token.Basic

/-!
# Cutting a text into pieces

Before anything else a program text is cut into pieces that tile it without gap or
overlap: blanks, comments, tokens, and characters that start no token. Tokens, line breaks
and lexical errors are all read off this one cutting.

## Main definitions

* `Piece`: a stretch of text and what it is
* `Piece.next`: the piece at the front of a non-empty list of runes, and what follows it
* `Piece.cut`: all pieces of a text

## Design notes

Each scanner returns what it consumed together with what is left. Every piece consumes at
least the rune that it starts with, so there are at most as many pieces as runes, and
`Piece.cut` counts down from that number.
-/

namespace Badger

/-- What a piece of program text is. -/
inductive PieceSort where
  /-- A space, a tab, a carriage return or a newline. -/
  | blank
  /-- A comment, up to and including the newline, if there is one (`closed`). -/
  | comment (closed : Bool)
  /-- A name or keyword. -/
  | word
  /-- A numeral, with its value unless it is above every number. -/
  | number (value : Option Float)
  /-- A string literal and its value. -/
  | string (value : Text)
  /-- Punctuation or an operator. -/
  | operator (kind : TokenKind)
  /-- A character that starts no token. -/
  | unknown (c : Char)
deriving DecidableEq

/-- **A piece.** A stretch of program text and what it is. -/
structure Piece where
  sort : PieceSort
  raw : Text
deriving DecidableEq

namespace Piece

/-! ### Scanners -/

/-- Whether a character separates tokens. -/
def isBlank (c : Char) : Bool := c == ' ' || c == '\t' || c == '\r' || c == '\n'

/-- Whether a character may start a name. -/
def startsName (c : Char) : Bool := CharClass.isLetter c || c == '_'

/-- Whether a character may continue a name. -/
def continuesName (c : Char) : Bool :=
  CharClass.isLetter c || CharClass.isDigit c || c == '_'

/-- Whether a character is a digit of a numeral. -/
def isDigit (c : Char) : Bool := '0' ≤ c && c ≤ '9'

/-- The character that an escape sequence stands for. -/
def unescape (c : Char) : Text :=
  if c = 'n' then [Text.newline] else if c = 't' then [Text.byte '\t'] else Rune.encode c

/-- A string literal after its opening quote: its value, the bytes it takes, and what
follows. A literal without closing quote runs to the end. -/
def stringBody : List Rune → Text × Text × List Rune
  | [] => ([], [], [])
  | r :: rs =>
    if r.char = '"' then ([], r.raw, rs)
    else if r.char = '\\' then
      match rs with
      | [] => ([], r.raw, [])
      | e :: rest =>
        let (value, raw, after) := stringBody rest
        (unescape e.char ++ value, r.raw ++ e.raw ++ raw, after)
    else
      let (value, raw, after) := stringBody rs
      (Rune.encode r.char ++ value, r.raw ++ raw, after)

/-- A numeral: digits, then optionally a point and more digits. -/
def numeral (rs : List Rune) : List Rune × List Rune :=
  let whole := rs.takeWhile (isDigit ·.char)
  match rs.dropWhile (isDigit ·.char) with
  | [] => (whole, [])
  | point :: rest =>
    if point.char = '.' then
      (whole ++ point :: rest.takeWhile (isDigit ·.char), rest.dropWhile (isDigit ·.char))
    else (whole, point :: rest)

/-- The value of a numeral, unless it is above every number. -/
def numeralValue? (lexeme : Text) : Option Float :=
  let (digits, e) := Number.fixedPoint lexeme
  let (num, den) := Number.decimalRatio digits e
  (Number.nearestBits? num den).map (Number.ofBits false)

/-- A comment after its `#`: the bytes it takes, whether a newline ends it, and what
follows. -/
def commentBody (rs : List Rune) : Text × Bool × List Rune :=
  let body := Rune.bytes (rs.takeWhile (·.char != '\n'))
  match rs.dropWhile (·.char != '\n') with
  | [] => (body, false, [])
  | newline :: rest => (body ++ newline.raw, true, rest)

/-- An operator, the longer one if there are two, or a character that starts no token. -/
def operator (r : Rune) (rs : List Rune) : Piece × List Rune :=
  let alone : Piece × List Rune :=
    match TokenKind.single? r.char with
    | some kind => (⟨.operator kind, r.raw⟩, rs)
    | none => (⟨.unknown r.char, r.raw⟩, rs)
  match rs with
  | [] => alone
  | s :: rest =>
    match TokenKind.double? r.char s.char with
    | some kind => (⟨.operator kind, r.raw ++ s.raw⟩, rest)
    | none => alone

/-- **The piece at the front** of the runes `r :: rs`, and the runes that follow it. -/
def next (r : Rune) (rs : List Rune) : Piece × List Rune :=
  if isBlank r.char then (⟨.blank, r.raw⟩, rs)
  else if r.char = '#' then
    let (body, closed, rest) := commentBody rs
    (⟨.comment closed, r.raw ++ body⟩, rest)
  else if r.char = '"' then
    let (value, raw, rest) := stringBody rs
    (⟨.string value, r.raw ++ raw⟩, rest)
  else if isDigit r.char then
    let (lexeme, rest) := numeral (r :: rs)
    (⟨.number (numeralValue? (Rune.bytes lexeme)), Rune.bytes lexeme⟩, rest)
  else if startsName r.char then
    (⟨.word, r.raw ++ Rune.bytes (rs.takeWhile (continuesName ·.char))⟩,
      rs.dropWhile (continuesName ·.char))
  else operator r rs

/-- The pieces of a list of runes, at most `fuel` of them. -/
def cutRunes : Nat → List Rune → List Piece
  | 0, _ => []
  | _ + 1, [] => []
  | fuel + 1, r :: rs =>
    let (piece, rest) := next r rs
    piece :: cutRunes fuel rest

/-- **The pieces of a text**, in order. -/
def cut (source : Text) : List Piece :=
  let runes := Rune.all source
  cutRunes runes.length runes

@[simp] theorem cutRunes_zero (rs : List Rune) : cutRunes 0 rs = [] := rfl

@[simp] theorem cutRunes_nil (fuel : Nat) : cutRunes fuel [] = [] := by
  cases fuel <;> rfl

theorem cutRunes_succ (fuel : Nat) (r : Rune) (rs : List Rune) :
    cutRunes (fuel + 1) (r :: rs) = (next r rs).1 :: cutRunes fuel (next r rs).2 := rfl

/-! ### What a piece contributes -/

/-- The token that a piece at the given offset stands for. -/
def token? (offset : Nat) (p : Piece) : Option Token :=
  match p.sort with
  | .blank | .comment _ | .unknown _ => none
  | .word => some ⟨TokenKind.ofWord p.raw, p.raw, 0, offset⟩
  | .number value => some ⟨.number, p.raw, value.getD 0, offset⟩
  | .string value => some ⟨.string, value, 0, offset⟩
  | .operator kind => some ⟨kind, p.raw, 0, offset⟩

/-- The offsets of the newline bytes of a text that starts at the given offset. -/
def newlines (offset : Nat) : Text → List Int
  | [] => []
  | b :: rest =>
    if b = Text.newline then (offset : Int) :: newlines (offset + 1) rest
    else newlines (offset + 1) rest

/-- The line breaks of a piece at the given offset: its newlines, and, for a comment that
no newline ends, the end of the text. -/
def lineBreaks (offset : Nat) (p : Piece) : List Int :=
  newlines offset p.raw ++
    if p.sort = .comment false then [((offset + p.raw.length : Nat) : Int)] else []

/-- The problem with a piece, for readers that admit none. -/
def problem? (p : Piece) : Option Problem :=
  match p.sort with
  | .unknown c => some (.unexpectedCharacter c)
  | .number none => some (.invalidNumber p.raw)
  | _ => none

end Piece

end Badger
