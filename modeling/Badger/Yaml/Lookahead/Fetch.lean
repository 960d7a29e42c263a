import Badger.Yaml.Lookahead
import Badger.Yaml.Token.Block
import Badger.Yaml.Token.Plain
import Badger.Yaml.Token.Property

/-!
# Reading tokens ahead

How the characters of a document become tokens in the queue.

## Main definitions

* `Yaml.Lookahead.skipGap`: moves to the next token
* `Yaml.Lookahead.fetch`: reads one more token
* `Yaml.Lookahead.fill`: reads as many as it takes to be certain of the first one

## Design notes

At least three tokens are kept in the queue, and more while the first one may still turn out to
start a key. So a problem further on may be noticed before one in the tokens that wait.
-/

namespace Badger.Yaml.Lookahead

/-! ### Between tokens -/

/-- Whether a tab may stand here like a space: not where a key may start. -/
def areTabsAllowed (l : Lookahead) : Bool := l.isInFlow || !l.isKeyAllowed

/-- What stands around comments at the cursor, in the gap that starts at `gapStart`. -/
def setting (l : Lookahead) (gapStart : Mark) : Comment.Setting :=
  { footLine := Comment.footLine? gapStart l.cursor
    isAfterValue := l.lastItem? == some .value
    indent := l.indent.toNat
    isInFlow := l.isInFlow }

/-- Moves to the end of the line or to the next token on it. A line before which characters came
into sight at a byte order mark loses its first character. -/
def skipBlanks (gapStart : Mark) : Fetch Unit := do
  scan (Scan.need 1)
  let c := (← get).cursor
  if c.mark.column = 0 && c.supply.cameAtOrderMark then
    scan (modify Cursor.slide)
    scan (Scan.need 1)
  let tabs := (← get).areTabsAllowed
  discard <| scan (Scan.run fun ch => ch == ' ' || (tabs && ch == '\t'))
  let l ← get
  if l.cursor.rest.head? = some '#' then
    let found ← scan (Comment.read (l.setting gapStart) l.size)
    modify fun l => { l with comments := l.comments ++ found.toList }

/-- Moves to the next token, line by line. Outside flow collections a key may start on a new
line. -/
def skipLines (gapStart : Mark) : Nat → Fetch Unit
  | 0 => return
  | budget + 1 => do
    skipBlanks gapStart
    match ← scan Scan.lineBreak with
    | [] => return
    | _ =>
      modify fun l => { l with isKeyAllowed := l.isKeyAllowed || !l.isInFlow }
      skipLines gapStart budget

/-- **Moves to the next token.** -/
def skipGap : Fetch Unit := do
  let l ← get
  skipLines l.cursor.mark (l.size + 1)

/-! ### Single tokens -/

/-- Reads a token that takes a fixed number of characters. -/
def take (length : Nat) (symbol : Symbol) : Fetch Unit := do
  modify fun l => l.push l.cursor.mark symbol
  scan (Scan.take 0 length)

/-- Sets whether a key may start here. -/
def allowKey (isAllowed : Bool) : Fetch Unit := modify fun l => { l with isKeyAllowed := isAllowed }

/-- Ends all block collections; no key is pending and none may start. -/
def endBlocks : Fetch Unit := do
  modify fun l => l.unroll (-1) l.cursor.mark
  removeKey
  allowKey false

/-- The end of the text, which ends a line. -/
def takeEnd : Fetch Unit := do
  modify fun l =>
    let m := l.cursor.mark
    if m.column = 0 then l
    else { l with cursor := { l.cursor with mark := { m with line := m.line + 1, column := 0 } } }
  endBlocks
  take 0 .textEnd

/-- Reads a token with `read` and puts it in the queue. -/
def takeRead (read : Scan Symbol) : Fetch Unit := do
  let start := (← get).cursor.mark
  let symbol ← scan read
  modify fun l => l.push start symbol

/-- A directive. -/
def takeDirective : Fetch Unit := do
  endBlocks
  takeRead (Property.directive (← get).size)

/-- A mark between documents. -/
def takeDocumentMark (symbol : Symbol) : Fetch Unit := do
  endBlocks
  take 3 symbol

/-- The start of a flow collection, which may be a key. -/
def takeFlowStart (symbol : Symbol) : Fetch Unit := do
  saveKey
  openFlow
  allowKey true
  take 1 symbol

/-- The end of a flow collection. -/
def takeFlowEnd (symbol : Symbol) : Fetch Unit := do
  removeKey
  modify closeFlow
  allowKey false
  take 1 symbol

/-- The comma between entries of a flow collection. -/
def takeFlowEntry : Fetch Unit := do
  removeKey
  allowKey true
  take 1 .flowEntry

/-- Starts a block collection here, if keys are allowed; in a flow collection nothing is done. -/
def startBlock (symbol : Symbol) (otherwise : Reason) : Fetch Unit := do
  let l ← get
  let here := l.cursor.mark
  if !l.isInFlow && !l.isKeyAllowed then fail here otherwise
  roll here.column none symbol here

/-- The hyphen in front of an entry of a block sequence. -/
def takeBlockEntry : Fetch Unit := do
  startBlock .blockSequence .entryNotAllowed
  removeKey
  allowKey true
  take 1 .blockEntry

/-- The question mark in front of a key. -/
def takeKey : Fetch Unit := do
  startBlock .blockMapping .keyNotAllowed
  removeKey
  allowKey !(← get).isInFlow
  take 1 .key

/-- The colon in front of a value. If it makes a key of what stands before it, the tokens that
announce the key are put in front of that. -/
def takeValue : Fetch Unit := do
  if ← checkKey ((← get).keys.size - 1) then
    let k := (← get).topKey
    modify fun l => l.insert k.number k.mark .key
    roll k.mark.column (some k.number) .blockMapping k.mark
    modify fun l => (l.setTopKey { k with isPossible := false }).forget k.number
    allowKey false
  else
    startBlock .blockMapping .valueNotAllowed
    allowKey !(← get).isInFlow
  take 1 .value

/-- A token that may be a key, or a property of one. -/
def takeWord (read : Scan Symbol) : Fetch Unit := do
  saveKey
  allowKey false
  takeRead read

/-- A plain scalar. After a line break a key may start. -/
def takePlain : Fetch Unit := do
  saveKey
  allowKey false
  let l ← get
  let start := l.cursor.mark
  let p ← scan (Plain.read l.isInFlow (l.indent + 1).toNat (l.size + 1))
  allowKey p.endsAtBreak
  modify fun l => l.push start (.scalar true p.text)

/-- A block scalar. -/
def takeBlock (isFolded : Bool) : Fetch Unit := do
  removeKey
  allowKey true
  let l ← get
  let indent := l.indent
  let size := l.size
  takeRead (return .scalar false (← Block.read isFolded indent (size + 1)))

/-- The characters that start no plain scalar, whatever follows. -/
def indicators : List Char :=
  [',', '[', ']', '\x7b', '\x7d', '#', '&', '*', '!', '|', '>', '\'', '"', '%', '@', '\x60']

/-- Whether a plain scalar starts with the character `ch` before `rest`. -/
def startsPlain (inFlow : Bool) (ch : Char) (rest : List Char) : Bool :=
  if isGapChar ch then false
  else if ch = '-' then !(rest.head?.map isBlank).getD false
  else if ch = '?' || ch = ':' then !inFlow && !endsWord rest
  else !indicators.contains ch

/-- Reads the token that starts with the character `ch` before `rest`. -/
def takeSymbol (ch : Char) (rest : List Char) : Fetch Unit := do
  let l ← get
  let inFlow := l.isInFlow
  let size := l.size
  let here := l.cursor.mark
  let isAlone := inFlow || endsWord rest
  if ch = '[' then takeFlowStart .flowSequence
  else if ch = '\x7b' then takeFlowStart .flowMapping
  else if ch = ']' then takeFlowEnd .flowSequenceEnd
  else if ch = '\x7d' then takeFlowEnd .flowMappingEnd
  else if ch = ',' then takeFlowEntry
  else if ch = '-' && endsWord rest then takeBlockEntry
  else if ch = '?' && isAlone then takeKey
  else if ch = ':' && isAlone then takeValue
  else if ch = '*' then takeWord (return .alias (← Property.name))
  else if ch = '&' then takeWord (return .anchor (← Property.name))
  else if ch = '!' then takeWord (Property.tag size)
  else if ch = '|' && !inFlow then takeBlock false
  else if ch = '>' && !inFlow then takeBlock true
  else if ch = '\'' then takeWord (return .scalar false (← Quoting.single.read (size + 1)))
  else if ch = '"' then takeWord (return .scalar false (← Quoting.double.read (size + 1)))
  else if startsPlain inFlow ch rest then takePlain
  else fail here .noToken

/-- Reads the token at the cursor, and a comment on its line unless the token is a mere hyphen. -/
def takeToken : Fetch Unit := do
  let c := (← get).cursor
  match c.rest with
  | [] => takeEnd
  | ch :: rest =>
    if c.mark.column = 0 && ch = '%' then takeDirective
    else if c.atDocumentMark then
      takeDocumentMark (if ch = '-' then .documentStart else .documentEnd)
    else
      takeSymbol ch rest
      if (← get).queue.getLast?.map Token.symbol ≠ some .blockEntry then scan Comment.passRemark

/-! ### The queue -/

/-- **Reads one more token.** -/
def fetch : Fetch Unit := do
  scan (Scan.need 1)
  let start := (← get).cursor.mark
  skipGap
  modify fun l => l.unroll l.cursor.mark.column start
  scan (Scan.need 4)
  takeToken

/-- Reads tokens until it is certain that the first one is. -/
def fillFrom : Nat → Fetch Unit
  | 0 => return
  | budget + 1 => do
    let l ← get
    if (l.queue.drop 2).isEmpty then
      fetch
      fillFrom budget
    else
      match l.keyLevels[l.taken]? with
      | none => return
      | some level =>
        if ← checkKey level then
          fetch
          fillFrom budget

/-- **Reads tokens until it is certain that the first one is.** -/
def fill : Fetch Unit := do fillFrom ((← get).size + 4)

end Badger.Yaml.Lookahead
