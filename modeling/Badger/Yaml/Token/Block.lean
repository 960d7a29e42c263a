import Badger.Yaml.Token

/-!
# Block scalars

A block scalar is a header, and then lines that share an indentation. The header tells whether
line breaks are kept or folded, what becomes of those at the end, and, if it holds a digit, how
deep the lines are indented; otherwise the first line that is not empty tells it.

## Main definitions

* `Yaml.Chomping`: what becomes of the line breaks at the end
* `Yaml.Block.Header`: what the header tells
* `Yaml.Block.read`: the block scalar at the cursor
-/

namespace Badger.Yaml

/-- **What becomes of the line breaks at the end of a block**: all go, the first stays, or all
stay. -/
inductive Chomping where
  | strip
  | clip
  | keep
deriving DecidableEq, Repr

namespace Block

/-- What the header of a block tells, and how many characters it takes. -/
structure Header where
  chomping : Chomping := .clip
  /-- How much deeper than the collection around it the block is indented; zero if not told. -/
  increment : Nat := 0
  length : Nat := 0
deriving DecidableEq, Repr

namespace Header

/-- What a sign tells about the line breaks at the end. -/
def chomping? : Char → Option Chomping
  | '+' => some .keep
  | '-' => some .strip
  | _ => none

/-- Reads a digit of a header. -/
def digit (h : Header) : List Char → Header
  | c :: _ =>
    if c.isDigit then { h with increment := c.toNat - 48, length := h.length + 1 } else h
  | [] => h

/-- Reads a sign of a header. -/
def sign (h : Header) : List Char → Header
  | c :: _ =>
    match chomping? c with
    | some k => { h with chomping := k, length := h.length + 1 }
    | none => h
  | [] => h

/-- The header at the front of a text: a sign and a digit, in either order, each optional. The
digit must not be zero; if it is, the answer is how many characters come before it. -/
def read (cs : List Char) : Except Nat Header :=
  let first := Header.sign {} cs
  let left := cs.drop first.length
  if left.head? = some '0' then .error first.length
  else
    let second := first.digit left
    if first.length = 0 && second.length = 1 then .ok (second.sign (cs.drop 1)) else .ok second

end Header

/-- How many spaces of indentation come next; an indentation of zero is still to be found. -/
def indentation (indent : Nat) (c : Cursor) : Nat :=
  let spaces := (c.rest.takeWhile (· == ' ')).length
  if indent = 0 then spaces else min spaces (indent - c.mark.column)

/-- Reads line breaks and indentation up to a line that is not empty; `done` holds the line
breaks read, last one first. The answer is these line breaks, and the greatest column reached. -/
def breaksFrom (indent : Nat) (start : Mark) :
    Nat → List Char → Nat → Scan (List Char × Nat)
  | 0, done, widest => return (done.reverse, widest)
  | budget + 1, done, widest => do
    Scan.need 1
    Scan.take 1 (indentation indent (← get))
    let c ← get
    let widest := max widest c.mark.column
    if c.rest.head? = some '\t' && (indent = 0 || decide (c.mark.column < indent)) then
      Scan.fail start .tabForIndentation
    match ← Scan.lineBreak with
    | [] => return (done.reverse, widest)
    | br => breaksFrom indent start budget (br ++ done) widest

/-- What has been read of a block: the pieces of its text, last one first, the line break after
its last line and those after that, and whether that line starts with a blank. -/
structure Progress where
  pieces : List (List Char) := []
  lineBreak : List Char := []
  breaks : List Char := []
  blank : Bool := false

/-- What stands between two lines of a block: a folded block joins lines by a space, but keeps
the line breaks next to a line that starts with a blank. -/
def between (isFolded : Bool) (p : Progress) (startsBlank : Bool) : List Char :=
  if isFolded && !p.blank && !startsBlank && p.lineBreak == ['\n'] then
    if p.breaks.isEmpty then [' '] else p.breaks
  else p.lineBreak ++ p.breaks

/-- Reads the lines that are indented by `indent`. -/
def linesFrom (isFolded : Bool) (indent : Nat) (start : Mark) (size : Nat) :
    Nat → Progress → Scan Progress
  | 0, p => return p
  | budget + 1, p => do
    let c ← get
    match c.rest with
    | [] => return p
    | ch :: _ =>
      if c.mark.column ≠ indent then return p
      let startsBlank := isBlank ch
      let line ← Scan.line
      Scan.need 2
      let lineBreak ← Scan.lineBreak
      let (breaks, _) ← breaksFrom indent start size [] 0
      linesFrom isFolded indent start size budget
        ⟨line :: between isFolded p startsBlank :: p.pieces, lineBreak, breaks, startsBlank⟩

/-- The text of a block after its last line. -/
def finish (k : Chomping) (p : Progress) : Text :=
  let tail := match k with
    | .strip => []
    | .clip => p.lineBreak
    | .keep => p.lineBreak ++ p.breaks
  encode (p.pieces.reverse.flatten ++ tail)

/-- Moves to the start of the line after a header. -/
def afterHeader (start : Mark) : Scan Unit := do
  discard <| Scan.run isBlank
  if (← Scan.next?) = some '#' then discard Scan.line
  if endsLine (← Scan.rest) then discard Scan.lineBreak else Scan.fail start .noCommentOrBreak

/-- **The value of the block scalar at the cursor**, inside a collection with the indentation
`outer`, which is negative outside all collections. -/
def read (isFolded : Bool) (outer : Int) (size : Nat) : Scan Text := do
  let start := (← get).mark
  match Header.read ((← Scan.rest).drop 1) with
  | .error later =>
    Scan.take 1 (later + 1)
    Scan.fail start .zeroIndentation
  | .ok header =>
    Scan.take 1 (header.length + 1)
    afterHeader start
    let told := if header.increment = 0 then 0 else outer.toNat + header.increment
    let (breaks, widest) ← breaksFrom told start size [] 0
    let indent := if told = 0 then max widest (max (outer + 1).toNat 1) else told
    let p ← linesFrom isFolded indent start size size { breaks := breaks }
    return finish header.chomping p

end Block

end Badger.Yaml
