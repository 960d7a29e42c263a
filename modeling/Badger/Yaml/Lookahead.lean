import Badger.Yaml.Comment
import Badger.Yaml.Token
import Std.Data.HashMap

/-!
# Tokens ahead

Whether a scalar or a collection is a key shows only at the colon after it, and tokens that
have been read already may then get others in front of them. So tokens wait in a queue
until it is certain that nothing is put before the first one.

## Main definitions

* `Yaml.SimpleKey`: a token that may turn out to start a key
* `Yaml.Lookahead`: the queue, with the collections that are open
* `Yaml.Fetch`: reading tokens
* `Yaml.Lookahead.roll`, `Yaml.Lookahead.unroll`: block collections start and end by
  indentation
* `Yaml.Lookahead.saveKey`, `Yaml.Lookahead.removeKey`, `Yaml.Lookahead.checkKey`: keys that
  may come

## Design notes

A key without a question mark stands on one line, and its colon comes within 1024 characters.
As with characters, a problem leaves the queue as it was when the problem was noticed.
-/

namespace Badger.Yaml

/-- **A token that may turn out to start a key.** -/
structure SimpleKey where
  /-- Whether a colon can still make it a key. -/
  isPossible : Bool := false
  /-- Whether nothing but a key can stand there. -/
  isRequired : Bool := false
  /-- How many tokens come before it. -/
  number : Nat := 0
  mark : Mark := {}
deriving DecidableEq, Repr

/-- **The queue of tokens**, with what is left of the text and the collections that are
open. -/
structure Lookahead where
  cursor : Cursor
  /-- The number of characters of the text, which bounds every loop. -/
  size : Nat := 0
  queue : List Token := [⟨{}, .textStart⟩]
  /-- How many tokens have left the queue. -/
  taken : Nat := 0
  /-- The comments in front of tokens that have not left the queue. -/
  comments : List Comment := []
  /-- The columns of the open block collections, innermost first. -/
  indents : List Nat := []
  /-- The possible keys: outside flow collections first, then one for each flow collection that is
  open, innermost last. -/
  keys : Array SimpleKey := #[{}]
  /-- The places in `keys` of the tokens that may start a key, by token number. -/
  keyLevels : Std.HashMap Nat Nat := {}
  /-- Whether a key may start here. -/
  isKeyAllowed : Bool := true

/-- **Reading tokens.** -/
abbrev Fetch (α : Type) : Type := EStateM Malformed Lookahead α

namespace Lookahead

/-- The queue before anything of a text is read. -/
def ofText (t : Text) : Lookahead :=
  let c := Cursor.ofText t
  { cursor := c, size := c.rest.length }

/-- Reads characters. -/
def scan {α : Type} (x : Scan α) : Fetch α := fun l =>
  match x l.cursor with
  | .ok a c => .ok a { l with cursor := c }
  | .error m c => .error m { l with cursor := c }

/-- The key or token that starts at `start` goes wrong here. -/
def fail {α : Type} (start : Mark) (r : Reason) : Fetch α := scan (Scan.fail start r)

/-- Whether a flow collection is open. -/
def isInFlow (l : Lookahead) : Bool := 1 < l.keys.size

/-- The column of the innermost block collection, `-1` if there is none. -/
def indent (l : Lookahead) : Int :=
  match l.indents with
  | [] => -1
  | column :: _ => column

/-- How many tokens there were so far. -/
def count (l : Lookahead) : Nat := l.taken + l.queue.length

/-- How many collections may be open at a time. -/
def maxDepth : Nat := 10000

/-! ### The queue -/

/-- Puts a token at the end of the queue. -/
def push (l : Lookahead) (start : Mark) (symbol : Symbol) : Lookahead :=
  { l with queue := l.queue ++ [⟨start, symbol⟩] }

/-- Puts a token in front of the one with the given number, or at the end if that token has left
the queue. -/
def insert (l : Lookahead) (number : Nat) (start : Mark) (symbol : Symbol) : Lookahead :=
  if number < l.taken then l.push start symbol
  else { l with queue := l.queue.insertIdx (number - l.taken) ⟨start, symbol⟩ }

/-- Takes the first token out of the queue. -/
def pop (l : Lookahead) : Lookahead :=
  { l with queue := l.queue.drop 1, taken := l.taken + 1 }

/-- The first token. An empty queue stands for the end of the text. -/
def first (l : Lookahead) : Token := l.queue.headD ⟨l.cursor.mark, .textEnd⟩

/-- The token that comments are attached to which follow the queue: the last one, or the one
before it if that is a comma. -/
def lastItem? (l : Lookahead) : Option Symbol :=
  match (l.queue.reverse.map Token.symbol) with
  | .flowEntry :: before :: _ => some before
  | last :: _ => some last
  | [] => none

/-! ### Block collections -/

/-- Ends the block collections that are indented deeper than a column. -/
def unroll (l : Lookahead) (column : Int) (mark : Mark) : Lookahead :=
  if l.isInFlow then l
  else
    let ended := (l.indents.takeWhile fun (i : Nat) => decide (column < (i : Int))).length
    { l with
      queue := l.queue ++ List.replicate ended ⟨mark, .blockEnd⟩
      indents := l.indents.drop ended }

/-- The key at the innermost level. -/
def topKey (l : Lookahead) : SimpleKey := l.keys.back?.getD {}

/-- Replaces the key at the innermost level. -/
def setTopKey (l : Lookahead) (k : SimpleKey) : Lookahead := { l with keys := l.keys.pop.push k }

/-- Starts a block collection at a column, unless one is open there or a flow collection is. Its
token goes in front of the token with the number given, if there is one. -/
def roll (column : Nat) (number? : Option Nat) (symbol : Symbol) (mark : Mark) : Fetch Unit := do
  let l ← get
  if l.isInFlow || (column : Int) ≤ l.indent then return
  let l := { l with indents := column :: l.indents }
  set l
  if maxDepth < l.indents.length then fail l.topKey.mark .tooDeep
  match number? with
  | some number => set (l.insert number mark symbol)
  | none => set (l.push mark symbol)

/-! ### Possible keys -/

/-- Forgets that a token may start a key. -/
def forget (l : Lookahead) (number : Nat) : Lookahead :=
  { l with keyLevels := l.keyLevels.erase number }

/-- No colon can come any more that makes the innermost possible key one. -/
def removeKey : Fetch Unit := do
  let l ← get
  let k := l.topKey
  if k.isPossible then
    if k.isRequired then fail k.mark .noColon
    set ((l.setTopKey { k with isPossible := false }).forget k.number)

/-- The next token may start a key, if keys are allowed. -/
def saveKey : Fetch Unit := do
  if (← get).isKeyAllowed then
    removeKey
    let l ← get
    let isRequired := !l.isInFlow && decide (l.indent = l.cursor.mark.column)
    let l := l.setTopKey ⟨true, isRequired, l.count, l.cursor.mark⟩
    set { l with keyLevels := l.keyLevels.insert l.count (l.keys.size - 1) }

/-- Whether a colon here would make a key of the possible key at a level. One that is too far
back is given up. -/
def checkKey (level : Nat) : Fetch Bool := do
  let l ← get
  match l.keys[level]? with
  | none => return false
  | some k =>
    let here := l.cursor.mark
    if !k.isPossible then return false
    else if k.mark.line < here.line || k.mark.index + 1024 < here.index then
      if k.isRequired then fail k.mark .noColon
      set { l with keys := l.keys.setIfInBounds level { k with isPossible := false } }
      return false
    else return true

/-! ### Flow collections -/

/-- A flow collection starts. -/
def openFlow : Fetch Unit := do
  let l ← get
  let here := l.cursor.mark
  let l := { l with keys := l.keys.push { number := l.count, mark := here } }
  set l
  if maxDepth + 1 < l.keys.size then fail here .tooDeep

/-- A flow collection ends, if one is open. -/
def closeFlow (l : Lookahead) : Lookahead :=
  if l.isInFlow then
    let number := l.topKey.number
    { l with keys := l.keys.pop }.forget number
  else l

end Lookahead

end Badger.Yaml
