import Badger.Yaml.Token

/-!
# Quoted scalars

Between single quotes only the quote itself is written specially, twice; between double
quotes a backslash starts an escape sequence. Gaps with line breaks are folded in both.

## Main definitions

* `Yaml.Escape`: what an escape sequence stands for
* `Yaml.Quoting.read`: the quoted scalar at the cursor
-/

namespace Badger.Yaml

/-- **What the character after a backslash asks for.** -/
inductive Escape where
  /-- It stands for a character. -/
  | character (c : Char)
  /-- The number of a character follows, in so many hexadecimal digits. -/
  | number (digits : Nat)
deriving DecidableEq, Repr

namespace Escape

/-- What the character after a backslash asks for. -/
def ofChar? : Char → Option Escape
  | '0' => some (.character '\x00')
  | 'a' => some (.character '\x07')
  | 'b' => some (.character '\x08')
  | 't' => some (.character '\t')
  | '\t' => some (.character '\t')
  | 'n' => some (.character '\n')
  | 'v' => some (.character '\x0b')
  | 'f' => some (.character '\x0c')
  | 'r' => some (.character '\r')
  | 'e' => some (.character '\x1b')
  | ' ' => some (.character ' ')
  | '"' => some (.character '"')
  | '\'' => some (.character '\'')
  | '\\' => some (.character '\\')
  | 'N' => some (.character '\x85')
  | '_' => some (.character '\xa0')
  | 'L' => some (.character '\u2028')
  | 'P' => some (.character '\u2029')
  | 'x' => some (.number 2)
  | 'u' => some (.number 4)
  | 'U' => some (.number 8)
  | _ => none

end Escape

/-- The value of a hexadecimal digit. -/
def hexValue? (c : Char) : Option Nat :=
  if '0' ≤ c && c ≤ '9' then some (c.toNat - 48)
  else if 'a' ≤ c && c ≤ 'f' then some (c.toNat - 87)
  else if 'A' ≤ c && c ≤ 'F' then some (c.toNat - 55)
  else none

/-- The value of exactly so many hexadecimal digits at the front of a text. -/
def hexNumber? : Nat → Nat → List Char → Option Nat
  | 0, value, _ => some value
  | _ + 1, _, [] => none
  | digits + 1, value, c :: rest =>
    match hexValue? c with
    | some d => hexNumber? digits (16 * value + d) rest
    | none => none

/-- The two kinds of quotes. -/
inductive Quoting where
  | single
  | double
deriving DecidableEq, Repr

namespace Quoting

/-- The quote. -/
def quote : Quoting → Char
  | .single => '\''
  | .double => '"'

/-- Reads the character whose number follows in so many hexadecimal digits. -/
def number (start : Mark) (digits : Nat) : Scan Char := do
  Scan.need digits
  match hexNumber? digits 0 (← Scan.rest) with
  | none => Scan.fail start .noHexadecimal
  | some code =>
    if (0xD800 ≤ code && code ≤ 0xDFFF) || 0x10FFFF < code then Scan.fail start .escapedSurrogate
    Scan.take 0 digits
    return Char.ofNat code

/-- Reads an escape sequence with the character `ch` after the backslash. -/
def escaped (start : Mark) (ch : Char) : Scan Char := do
  match Escape.ofChar? ch with
  | none => Scan.fail start .unknownEscape
  | some (.character c) => Scan.take 0 2; return c
  | some (.number digits) => Scan.take 0 2; number start digits

/-- Reads a word; `done` is what has been read, last piece first. Tells whether the word ends
with a line break after a backslash. The budget has to exceed the number of pieces. -/
def word (q : Quoting) (start : Mark) :
    Nat → List (List Char) → Scan (List (List Char) × Bool)
  | 0, done => return (done, false)
  | budget + 1, done => do
    match ← Scan.rest with
    | [] => return (done, false)
    | ch :: rest =>
      if isGapChar ch then return (done, false)
      else if q = .single && ch = '\'' && rest.head? = some '\'' then
        Scan.take 0 2
        Scan.need 2
        word q start budget (['\''] :: done)
      else if ch = q.quote then return (done, false)
      else if q = .double && ch = '\\' then
        match rest with
        | [] => Scan.fail start .unknownEscape
        | next :: _ =>
          if isBreak next then
            Scan.need 3
            Scan.take 0 2
            return (done, true)
          else
            let c ← escaped start next
            Scan.need 2
            word q start budget ([c] :: done)
      else
        Scan.step
        Scan.need 2
        word q start budget ([ch] :: done)

/-- Reads on after the opening quote, word by word; `done` holds the pieces read, last one
first. The budget has to exceed the number of pieces. -/
def readFrom (q : Quoting) (start : Mark) : Nat → List (List Char) → Scan Text
  | 0, _ => Scan.fail start .endOfText
  | budget + 1, done => do
    Scan.need 4
    let c ← get
    if c.atDocumentMark then Scan.fail start .documentMark
    if c.rest.isEmpty then Scan.fail start .endOfText
    let (done, isJoined) ← word q start (budget + 1) done
    Scan.need 1
    if (← Scan.next?) = some q.quote then
      Scan.step
      return encode done.reverse.flatten
    let gap ← Scan.gap start 0
    readFrom q start budget ((if isJoined then gap.lineBreaks else gap.text) :: done)

/-- **The value of the quoted scalar at the cursor.** -/
def read (q : Quoting) (budget : Nat) : Scan Text := do
  let start := (← get).mark
  Scan.step
  readFrom q start budget []

end Quoting

end Badger.Yaml
