import Badger.Yaml.Scan

/-!
# Comments

Lines of comments belong to the token after them, unless an empty line or their indentation
shows that they belong to what stands before them. Of those that come before a token it is
remembered that they are there.

## Main definitions

* `Yaml.Comment`: lines of comments in front of a token
* `Yaml.Comment.Setting`: what stands around comments
* `Yaml.Comment.read`: the comments at the cursor
* `Yaml.Comment.passRemark`: moves over a comment on the line of a token

## Design notes

The search for further lines goes over at most 512 characters, and it passes over faults in the
text. Each of the two characters of a line break counts as a line break there.
-/

namespace Badger.Yaml

/-- **Lines of comments in front of a token**, with the place where they start, the column counted
from one, and whether an empty line follows them. -/
structure Comment where
  start : Mark
  isLoose : Bool := false
deriving DecidableEq, Repr

namespace Comment

/-- **What stands around comments.** -/
structure Setting where
  /-- The line on which comments have to start that belong to the token before them. -/
  footLine : Option Nat
  /-- Whether the token before them is the colon in front of a value. -/
  isAfterValue : Bool
  /-- The column of the innermost block collection. -/
  indent : Nat
  isInFlow : Bool
deriving DecidableEq, Repr

/-- The line on which comments have to start that belong to the token before them: the line after
it. `gapStart` is where the gap after the token starts. -/
def footLine? (gapStart : Mark) (c : Cursor) : Option Nat :=
  if gapStart.column = 0 then none
  else
    let after := c.mark.line + 1 - c.breaks
    some (if c.breaks = 0 && 1 < c.mark.column then after + 1 else after)

/-- The search for further lines of comments. -/
structure Search where
  /-- How many characters the search has gone over. -/
  distance : Nat := 0
  line : Nat
  column : Nat
  /-- Whether there was no empty line yet. -/
  isFirst : Bool
  /-- Whether an empty line came last. -/
  isAfterEmpty : Bool := false
  /-- Whether the search is inside a line break of several bytes, where it ends. -/
  isInsideBreak : Bool := false
  found : Option Comment := none

namespace Search

/-- Whether comments that start there and end with this line belong to what stands before them. -/
def isFoot (s : Search) (around : Setting) (start : Mark) : Bool :=
  s.isFirst &&
    ((around.footLine == some start.line && !around.isAfterValue) || start.column ≤ around.indent)

/-- A line ends, or the flow collection does if `closes`; `isLast` tells that the text ends. -/
def endLine (s : Search) (around : Setting) (closes isLast : Bool) : Search :=
  if s.isAfterEmpty && !closes then s
  else
    { s with
      found := s.found.bind fun f =>
        if closes || s.isFoot around f.start then none
        else some { f with isLoose := f.isLoose || !isLast } }

/-- The search on the next line. -/
def nextLine (s : Search) (lineBreak : Char) : Search :=
  { s with
    distance := s.distance + 1
    line := s.line + 1
    column := 0
    isFirst := false
    isAfterEmpty := true
    isInsideBreak := 127 < lineBreak.toNat }

/-- Comments that stand further right than this belong to what stands before them. -/
def dedent (s : Search) (around : Setting) : Search :=
  { s with
    found := s.found.filter fun f => !(s.column ≤ around.indent && s.column != f.start.column) }

/-- One more line of comments, which starts at the index given. -/
def extend (s : Search) (index : Nat) : Search :=
  { s with
    isAfterEmpty := false
    found := match s.found with
      | none => some ⟨⟨index, s.line, s.column⟩, false⟩
      | some f => some { f with isLoose := false } }

/-- The search after a line of comments that ends at the cursor. -/
def resume (s : Search) (c : Cursor) : Search :=
  { s with
    distance := 1
    line := c.mark.line
    column := 0
    isInsideBreak := match c.rest with
      | ch :: _ => 127 < ch.toNat
      | [] => false }

end Search

/-- Moves over the blanks and line breaks before a comment and to the end of its line. -/
def passLine (start : Mark) (gapLength : Nat) : Scan Unit := do
  Scan.need 1
  discard <| Scan.gapFrom start 0 ((← Scan.rest).take gapLength) []
  discard Scan.line

/-- Searches on; `ahead` is what stands where the search has come. The budget has to exceed twice
the number of characters. -/
def searchFrom (around : Setting) : Nat → List Char → Search → Scan (Option Comment)
  | 0, _, s => return s.found
  | budget + 1, ahead, s => do
    if 512 ≤ s.distance then return s.found
    if !(← Scan.attempt (Scan.need (s.distance + 1))) then return s.found
    let s := { s with column := s.column + 1 }
    if s.isInsideBreak then return (s.dedent around).found
    match ahead with
    | [] => return (s.endLine around false true).found
    | ch :: more =>
      if isBlank ch then
        searchFrom around budget more { s with distance := s.distance + 1 }
      else if isBreak ch then
        searchFrom around budget more ((s.endLine around false false).nextLine ch)
      else if around.isInFlow && (ch = ']' || ch = '\x7d') then
        return (s.endLine around true false).found
      else
        let s := s.dedent around
        if ch ≠ '#' then return s.found
        let here := (← get).mark
        passLine here s.distance
        let c ← get
        searchFrom around budget (c.rest.drop 1) ((s.extend (here.index + s.distance)).resume c)

/-- **The comments at the cursor**, which stands on the first of them: moves to the end of the last
line, and gives them if they belong to the token after them. -/
def read (around : Setting) (size : Nat) : Scan (Option Comment) := do
  let c ← get
  searchFrom around (2 * size + 2) c.rest
    { line := c.mark.line, column := c.mark.column, isFirst := decide (c.breaks ≤ 1) }

/-- **Moves over a comment on the line of the token just read.** -/
def passRemark : Scan Unit := do
  let c ← get
  if c.breaks = 0 then
    let blanks := (c.rest.takeWhile isBlank).length
    if ← Scan.attempt (Scan.need (min (blanks + 1) 512)) then
      if blanks < 512 && (c.rest.drop blanks).head? == some '#' then passLine c.mark blanks

end Comment

end Badger.Yaml
