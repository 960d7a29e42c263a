import Badger.Text.Rune
import Badger.Yaml.Character

/-!
# Moving through a document

Classes of characters, and a cursor that knows what is left of a document, where it stands, and
how much of what is left is in sight.

## Main definitions

* `Yaml.isBlank`, `Yaml.isBreak`, `Yaml.isNameChar`: classes of characters
* `Yaml.Supply`: what of a text is still to come into sight
* `Yaml.Cursor`: a place in a document with what follows it
* `Yaml.Cursor.step`: the cursor after the next character or line break

## Design notes

A line break is a newline, a carriage return, both together, or one of three characters of
their own; inside scalars the last two of these stand for themselves, all others for a newline.
-/

namespace Badger.Yaml

/-! ### Characters -/

/-- Whether a character is a space or a tab. -/
def isBlank (c : Char) : Bool := c == ' ' || c == '\t'

/-- Whether a character ends a line. -/
def isBreak (c : Char) : Bool :=
  c == '\n' || c == '\r' || c == '\x85' || c == '\u2028' || c == '\u2029'

/-- What a character that ends a line stands for inside a scalar. -/
def breakMeaning (c : Char) : Char := if c == '\r' || c == '\x85' then '\n' else c

/-- Whether a character is a blank or ends a line. -/
def isGapChar (c : Char) : Bool := isBlank c || isBreak c

/-- Whether a character may stand in a name: a letter, a digit, an underscore or a hyphen. -/
def isNameChar (c : Char) : Bool := c.isAlphanum || c == '_' || c == '-'

/-- Whether a word ends here: before a blank, a line break or the end of the text. -/
def endsWord : List Char → Bool
  | [] => true
  | c :: _ => isGapChar c

/-- Whether a line ends here. -/
def endsLine : List Char → Bool
  | [] => true
  | c :: _ => isBreak c

/-- The byte order mark. -/
def orderMark : Char := '\ufeff'

/-- The UTF-8 bytes of characters. -/
def encode (cs : List Char) : Text := cs.flatMap Rune.encode

/-! ### The cursor -/

/-- **What of a text is still to come into sight.** -/
structure Supply where
  /-- How many characters the portions to come hold. -/
  portions : List Nat := []
  /-- How many characters come after those, up to a fault. -/
  beforeFault : Nat := 0
  /-- Why there are no more, unless the text ends. -/
  fault : Option Reason := none
  /-- Whether there was a byte order mark at the cursor when characters last came into sight. -/
  cameAtOrderMark : Bool := false
deriving DecidableEq, Repr

/-- **A place in a document with what follows it.** -/
structure Cursor where
  rest : List Char
  mark : Mark := {}
  /-- How many line breaks came since the last character that was no blank. -/
  breaks : Nat := 0
  /-- How many characters ahead are in sight. The end of a text counts like characters. -/
  sight : Nat := 0
  supply : Supply := {}
  /-- The last problem that was passed over. -/
  amiss : Option Malformed := none
deriving DecidableEq, Repr

namespace Cursor

/-- The cursor at the start of a text. -/
def ofText (t : Text) : Cursor :=
  let cs := Characters.ofText t
  { rest := cs.characters
    supply := { portions := cs.portions, beforeFault := cs.beforeFault, fault := cs.fault } }

/-- The cursor on the next line, after so many characters. -/
def nextLine (c : Cursor) (width : Nat) (rest : List Char) : Cursor :=
  { c with
    rest := rest
    mark := ⟨c.mark.index + width, c.mark.line + 1, 0⟩
    breaks := c.breaks + 1
    sight := c.sight - width }

/-- The cursor after a character on the same line. -/
def nextColumn (c : Cursor) (isBlank : Bool) (rest : List Char) : Cursor :=
  { c with
    rest := rest
    mark := ⟨c.mark.index + 1, c.mark.line, c.mark.column + 1⟩
    breaks := if isBlank then c.breaks else 0
    sight := c.sight - 1 }

/-- **The cursor after the next character or line break**, the same at the end. -/
def step (c : Cursor) : Cursor :=
  match c.rest with
  | [] => c
  | '\r' :: '\n' :: rest => c.nextLine 2 rest
  | ch :: rest => if isBreak ch then c.nextLine 1 rest else c.nextColumn (isBlank ch) rest

/-- The cursor one place further on its line, whatever stands there. -/
def slide (c : Cursor) : Cursor :=
  c.nextColumn ((c.rest.head?.map isBlank).getD false) (c.rest.drop 1)

/-- Whether a mark between documents stands here: three hyphens or three points on their own at
the start of a line. -/
def atDocumentMark (c : Cursor) : Bool :=
  c.mark.column == 0 &&
    match c.rest with
    | '-' :: '-' :: '-' :: rest | '.' :: '.' :: '.' :: rest => endsWord rest
    | _ => false

end Cursor

/-! ### Gaps -/

/-- **A run of blanks and line breaks**, each line break given by what it stands for. -/
abbrev Gap := List Char

namespace Gap

/-- The line breaks of a gap. -/
def lineBreaks (g : Gap) : List Char := g.filter isBreak

/-- What line breaks in a row stand for inside a scalar: a single newline for a space, and more
of them for all but the first. The separators stand for themselves. -/
def folded : List Char → List Char
  | ['\n'] => [' ']
  | '\n' :: others => others
  | others => others

/-- **What a gap stands for inside a scalar**: itself, unless it holds line breaks. -/
def text (g : Gap) : List Char :=
  match lineBreaks g with
  | [] => g
  | bs => folded bs

end Gap

end Badger.Yaml
