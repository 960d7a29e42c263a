import Badger.Yaml.Cursor

/-!
# Reading characters

Characters come into sight portion by portion, and whoever reads a character asks beforehand for
as many as have to be in sight. That is when a fault in the text shows.

## Main definitions

* `Yaml.Scan`: reading characters
* `Yaml.Scan.need`: asks for characters to be in sight
* `Yaml.Scan.take`, `Yaml.Scan.run`, `Yaml.Scan.gap`: move on
* `Yaml.Scan.attempt`: passes over a problem

## Design notes

A problem leaves the cursor at the place where it was noticed, so that reading can go on there.
What is read is decided on the characters that are left, also on those out of sight: to move over
them asks for them, so a decision that rests on them is never used.
-/

namespace Badger.Yaml

/-- **Reading characters.** -/
abbrev Scan (α : Type) : Type := EStateM Malformed Cursor α

namespace Scan

/-- The token that starts at `start` goes wrong here. -/
def fail {α : Type} (start : Mark) (r : Reason) : Scan α := fun c =>
  .error (.token start c.mark r) c

/-- How many characters are in sight when portions are taken until there are `n`, and the portions
that are left. -/
def takeIn (n sight : Nat) : List Nat → Nat × List Nat
  | [] => (sight, [])
  | p :: ps => if n ≤ sight then (sight, p :: ps) else takeIn n (sight + p) ps

/-- **Asks for `n` characters to be in sight.** The end of the text will do instead. -/
def need (n : Nat) : Scan Unit := fun c =>
  if n ≤ c.sight then .ok () c
  else
    let (sight, portions) := takeIn n c.sight c.supply.portions
    let supply :=
      { c.supply with
        portions := portions
        cameAtOrderMark := c.rest.head? == some orderMark }
    if n ≤ sight then .ok () { c with sight := sight, supply := supply }
    else
      match supply.fault with
      | none => .ok () { c with sight := sight + 1, supply := supply }
      | some r =>
        .error (.overall r)
          { c with
            sight := sight + supply.beforeFault
            supply := { supply with beforeFault := 0 } }

/-- **Passes over a problem**, which is kept in mind; tells whether there was none. -/
def attempt (x : Scan Unit) : Scan Bool := fun c =>
  match x c with
  | .ok _ c => .ok true c
  | .error m c => .ok false { c with amiss := some (m.after c.amiss) }

/-- The characters that are left. -/
def rest : Scan (List Char) := return (← get).rest

/-- The next character, if there is one. -/
def next? : Scan (Option Char) := return (← get).rest.head?

/-- Moves over the next character or line break. -/
def step : Scan Unit := modify Cursor.step

/-- **Moves over `n` characters.** After each one, `ahead` characters have to be in sight. -/
def take (ahead : Nat) : Nat → Scan Unit
  | 0 => fun c => .ok () c
  | n + 1 => fun c =>
    match need ahead c.step with
    | .ok _ c => take ahead n c
    | .error m c => .error m c

/-- **Moves over the characters of a class** that come next. -/
def run (p : Char → Bool) : Scan (List Char) := do
  let word := (← rest).takeWhile p
  take 1 word.length
  return word

/-- Moves to the end of the line. -/
def line : Scan (List Char) := run (!isBreak ·)

/-- Moves over a line break, if there is one. -/
def lineBreak : Scan (List Char) := do
  match ← next? with
  | some ch =>
    if isBreak ch then
      need 2
      step
      return [breakMeaning ch]
    else return []
  | none => return []

/-- Moves over blanks and line breaks; `done` holds those behind, last one first. After a line
break no tab may stand left of the column `indent`; `start` is where the scalar starts. -/
def gapFrom (start : Mark) (indent : Nat) : List Char → Gap → Scan Gap
  | [], done => return done.reverse
  | '\r' :: '\n' :: more, done => do
    need 2
    step
    need 1
    gapFrom start indent more ('\n' :: done)
  | ch :: more, done => do
    if isBreak ch then
      need 2
      step
      need 1
      gapFrom start indent more (breakMeaning ch :: done)
    else if ch == '\t' && decide ((← get).mark.column < indent) && done.any isBreak then
      fail start .tabInPlain
    else
      step
      need 1
      gapFrom start indent more (ch :: done)

/-- **Moves over the gap that comes next.** -/
def gap (start : Mark) (indent : Nat) : Scan Gap := do
  gapFrom start indent ((← rest).takeWhile isGapChar) []

end Scan

end Badger.Yaml
