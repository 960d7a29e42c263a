import Badger.Yaml.Token

/-!
# Plain scalars

A scalar without quotes: words with gaps between them, over one line or several. It ends
before a comment, before a colon that ends a word, at a line that is indented too little, and
inside a flow collection also before one of its marks.

## Main definitions

* `Yaml.wordLength`: how many characters of a word come next
* `Yaml.Plain`: what has been read of a plain scalar
* `Yaml.Plain.read`: the plain scalar at the cursor
-/

namespace Badger.Yaml

/-- Whether a character ends a word inside a flow collection. -/
def isFlowMark (c : Char) : Bool :=
  c == ',' || c == '?' || c == '[' || c == ']' || c == '\x7b' || c == '\x7d'

/-- How many characters of a word come next. -/
def wordLength (inFlow : Bool) : List Char → Nat
  | [] => 0
  | c :: rest =>
    if isGapChar c || (c == ':' && endsWord rest) || (inFlow && isFlowMark c) then 0
    else wordLength inFlow rest + 1

/-- **What has been read of a plain scalar**: its words with what the gaps between them stand
for, last one first, and the gap after them. -/
structure Plain where
  words : List (List Char) := []
  gap : Gap := []

namespace Plain

/-- The text of the scalar. -/
def text (p : Plain) : Text := encode p.words.reverse.flatten

/-- Whether the scalar is followed by a line break. -/
def endsAtBreak (p : Plain) : Bool := !(Gap.lineBreaks p.gap).isEmpty

/-- Reads on, word by word; `start` is where the scalar starts. A line that goes on with the
scalar is indented by at least `indent`, except inside a flow collection. The budget has to
exceed the number of gaps. -/
def readFrom (inFlow : Bool) (indent : Nat) (start : Mark) : Nat → Plain → Scan Plain
  | 0, p => return p
  | budget + 1, p => do
    Scan.need 4
    let c ← get
    if c.atDocumentMark || c.rest.head? == some '#' then return p
    let length := wordLength inFlow c.rest
    Scan.take 2 length
    let read : Plain :=
      if length = 0 then p else ⟨c.rest.take length :: Gap.text p.gap :: p.words, []⟩
    match ← Scan.gap start indent with
    | [] => return read
    | gap =>
      let read := { read with gap := gap }
      if !inFlow && decide ((← get).mark.column < indent) then return read
      readFrom inFlow indent start budget read

/-- **The plain scalar at the cursor.** -/
def read (inFlow : Bool) (indent budget : Nat) : Scan Plain := do
  readFrom inFlow indent (← get).mark budget {}

end Plain

end Badger.Yaml
