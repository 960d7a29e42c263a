import Badger.Text.CharClass

/-!
# Taking in lines

Lines are collected until they make up a piece of program text. Outside of paste mode a
piece ends with the line that closes its last open brace; in paste mode it ends with a
control line. A line that starts with a colon where a piece could start is a command.

## Main definitions

* `Braces.balance`: braces opened less braces closed, outside of strings and comments
* `Braces.depthAfter`, `Braces.depthAfterInWord`: how many braces are open after a line
* `Intake`: the lines collected so far
* `Intake.Request`: what a line asks for
* `Intake.feed`: takes in one line
-/

namespace Badger

namespace Braces

/-- **Braces opened less braces closed** on a line. Braces inside strings and comments do
not count; `quoted` tells whether the text starts inside a string. -/
def balance (quoted : Bool) : Text → Int
  | [] => 0
  | b :: rest =>
    if quoted then
      if b = Text.byte '\\' then
        match rest with
        | [] => 0
        | _ :: after => balance true after
      else balance (b != Text.byte '"') rest
    else if b = Text.byte '#' then 0
    else if b = Text.byte '"' then balance true rest
    else if b = Text.byte '\x7b' then balance false rest + 1
    else if b = Text.byte '\x7d' then balance false rest - 1
    else balance false rest

/-- **How many braces are open after a line** if `depth` were open before. There are never
fewer than none. -/
def depthAfter (depth : Int) (line : Text) : Nat := (depth + balance false line).toNat

/-- The same for a depth that is kept in a word of 64 bits and wraps around. -/
def depthAfterInWord (depth : Int) (line : Text) : Nat :=
  ((depth + balance false line).bmod 18446744073709551616).toNat

end Braces

/-- **An intake.** The lines of a block that is not complete yet and the number of braces
open in it; whether lines are pasted, and those pasted so far. -/
structure Intake where
  block : Text := []
  depth : Int := 0
  pasting : Bool := false
  pasted : Text := []
deriving DecidableEq, Repr

namespace Intake

/-- **What a line asks for.** -/
inductive Request where
  /-- More lines. -/
  | more
  /-- Nothing: the block that it completes is blank. -/
  | nothing
  /-- The evaluation of a piece of program text. -/
  | evaluate (text : Text)
  /-- A command, given without the white space around it. -/
  | command (text : Text)
  /-- The end of paste mode, with nothing pasted. -/
  | pasteEmpty
  /-- The end of paste mode, with what was pasted dropped. -/
  | pasteCancelled
deriving DecidableEq, Repr

/-- The lines that end paste mode and hand over what was pasted. -/
def pasteEnds : List Text := [utf8 ".", utf8 ":endpaste"]

/-- The line that ends paste mode and drops what was pasted. -/
def pasteCancel : Text := utf8 ":cancel"

/-- A line as a part of program text. -/
def terminated (line : Text) : Text := line ++ [Text.newline]

/-- Whether a block is being collected. -/
def isCollecting (i : Intake) : Bool := i.depth != 0 || !i.block.isEmpty

/-- Drops the block. -/
def clearBlock (i : Intake) : Intake := { i with block := [], depth := 0 }

/-- Starts paste mode; no lines are kept. -/
def startPaste (i : Intake) : Intake :=
  { i with block := [], depth := 0, pasted := [], pasting := true }

/-- Ends paste mode. -/
def endPaste (i : Intake) : Intake := { i with pasted := [], pasting := false }

/-- Drops what is being collected, if anything is, as an interrupt from the keyboard does. -/
def interrupt (i : Intake) : Intake :=
  if i.pasting then i.endPaste
  else if !i.block.isEmpty || 0 < i.depth then i.clearBlock
  else i

/-- Takes in a line in paste mode. -/
def feedPaste (i : Intake) (line : Text) : Request × Intake :=
  let word := Text.trim line
  if pasteEnds.contains word then
    if Text.isBlank i.pasted then (.pasteEmpty, i.endPaste) else (.evaluate i.pasted, i.endPaste)
  else if word = pasteCancel then (.pasteCancelled, i.endPaste)
  else (.more, { i with pasted := i.pasted ++ terminated line })

/-- Takes in a line of a block. -/
def feedBlock (i : Intake) (line : Text) : Request × Intake :=
  let block := i.block ++ terminated line
  let depth := Braces.depthAfter i.depth line
  if 0 < depth then (.more, { i with block := block, depth := depth })
  else
    let after := { i with block := [], depth := depth }
    if Text.isBlank block then (.nothing, after) else (.evaluate block, after)

/-- **Takes in one line.** -/
def feed (i : Intake) (line : Text) : Request × Intake :=
  if i.pasting then i.feedPaste line
  else
    let word := Text.trim line
    if !i.isCollecting && word.head? = some (Text.byte ':') then (.command word, i)
    else i.feedBlock line

end Intake

end Badger
