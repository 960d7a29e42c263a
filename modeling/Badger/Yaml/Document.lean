import Badger.Yaml.Lookahead.Fetch
import Badger.Yaml.Node

/-!
# Reading a document

How tokens become the nodes of a document. Only the first document of a text is read.

## Main definitions

* `Yaml.Builder`: what is known while nodes are built
* `Yaml.Build`: building something from tokens
* `Yaml.Build.node`: the node at the front of the tokens
* `Yaml.Document.read`: the first document of a text, if it holds one

## Design notes

A node with a name can be referred to as soon as it starts. The functions on nodes count down a
budget that exceeds the number of tokens.

A document is built in stages, each of which starts or ends one node. A problem that was passed
over ends the stage at the latest, and in the meantime another one may take its place.
-/

namespace Badger.Yaml

/-- **What is known while nodes are built.** -/
structure Builder where
  tokens : Lookahead
  /-- The comments in front of the node that comes next. -/
  comments : List Comment := []
  /-- What handles of tags stand for. -/
  handles : List (Text × Text) := []
  /-- The numbers of the named nodes, the latest first. -/
  names : List (Text × Nat) := []
  /-- The named nodes, by number. -/
  named : Array Node := #[]
  /-- How many references there are. -/
  sites : Nat := 0

/-- **Building something from tokens.** -/
abbrev Build (α : Type) : Type := StateT Builder (Except Malformed) α

namespace Build

/-! ### Tokens and names -/

/-- The first token, or the problem in the way of it. -/
def peek? : Build (Except Malformed Token) :=
  fun ⟨tokens, comments, handles, names, named, sites⟩ =>
  match Lookahead.fill tokens with
  | .error m tokens => .ok (.error m, ⟨tokens, comments, handles, names, named, sites⟩)
  | .ok _ tokens =>
    let t := tokens.first
    let (own, later) :=
      if t.symbol = .blockEnd then ([], tokens.comments)
      else tokens.comments.span fun c => c.start.index ≤ t.start.index
    .ok (.ok t,
      ⟨{ tokens with comments := later }, comments ++ own, handles, names, named, sites⟩)

/-- The first token. -/
def peek : Build Token := do
  match ← peek? with
  | .ok t => return t
  | .error m => throw (m.after (← get).tokens.cursor.amiss)

/-- Drops the first token. -/
def drop : Build Unit := modify fun b => { b with tokens := b.tokens.pop }

/-- Forgets the comments in front of a node. -/
def dropComments : Build Unit := modify fun b => { b with comments := [] }

/-- **Ends a stage.** No problem may have been passed over. -/
def settle : Build Unit := do
  match (← get).tokens.cursor.amiss with
  | none => return
  | some m => throw m

/-- Drops the hyphen in front of an item. Comments in front of it are kept apart from those in front
of a block collection after it; so if there are any, the next token is looked at, and a problem
in the way of it is passed over. -/
def dropHyphen : Build Unit := do
  let count := (← get).comments.length
  drop
  if count ≠ 0 then
    match ← peek? with
    | .ok t =>
      if t.symbol = .blockSequence || t.symbol = .blockMapping then
        modify fun b => { b with comments := b.comments.drop count }
    | .error m =>
      modify fun b =>
        let c := b.tokens.cursor
        { b with tokens := { b.tokens with cursor := { c with amiss := some (m.after c.amiss) } } }

/-- A problem with the node that starts at `start`, noticed at the token at `here`. -/
def fail {α : Type} (start here : Mark) (r : Reason) : Build α := throw (.node start here r)

/-- Gives a name to the node that starts here, and a number. -/
def reserve (name? : Option Text) : Build (Option Nat) := do
  match name? with
  | none => return none
  | some name =>
    let b ← get
    set { b with names := (name, b.named.size) :: b.names, named := b.named.push (.absent {}) }
    return some b.named.size

/-- Keeps the node that a number was given to. -/
def keep (number? : Option Nat) (n : Node) : Build Node := do
  match number? with
  | none => return n
  | some number =>
    modify fun b => { b with named := b.named.setIfInBounds number n }
    return n

/-- A reference to a named node. -/
def reference (start : Mark) (name : Text) : Build Node := do
  let b ← get
  match b.names.lookup name with
  | none => throw (.overall (.unknownAnchor name))
  | some target =>
    set { b with sites := b.sites + 1 }
    return .alias (start.line + 1) name target b.sites

/-! ### Properties -/

/-- What stands in front of a node. -/
structure Properties where
  name : Option Text := none
  /-- The handle and the rest of the tag, and where it stands. -/
  tag : Option (Text × Text × Mark) := none

/-- Reads properties: a name and a tag, in either order, each optional. -/
def properties : Build Properties := do
  let t ← peek
  match t.symbol with
  | .anchor name =>
    drop
    let t ← peek
    match t.symbol with
    | .tag handle rest => drop; return ⟨some name, some (handle, rest, t.start)⟩
    | _ => return ⟨some name, none⟩
  | .tag handle rest =>
    drop
    let u ← peek
    match u.symbol with
    | .anchor name => drop; return ⟨some name, some (handle, rest, t.start)⟩
    | _ => return ⟨none, some (handle, rest, t.start)⟩
  | _ => return {}

/-- The tag in full. A tag that is empty, or a mere exclamation mark, is none. -/
def tagOf (start : Mark) (p : Properties) : Build (Option Text) := do
  match p.tag with
  | none => return none
  | some (handle, rest, place) =>
    let full ←
      if handle.isEmpty then pure rest
      else
        match (← get).handles.lookup handle with
        | some meaning => pure (meaning ++ rest)
        | none => fail start place .unknownTagHandle
    return if full.isEmpty || full = utf8 "!" then none else some (Tag.short full)

/-! ### Nodes -/

/-- Whether a token cannot start the key or value of a block mapping. -/
def endsPair : Symbol → Bool
  | .key | .value | .blockEnd => true
  | _ => false

/-- Whether a token cannot start an item of a sequence without indentation of its own. -/
def endsItem : Symbol → Bool
  | .blockEntry => true
  | s => endsPair s

/-- The entries read so far, last one first. -/
abbrev Entries : Type := List (Node × Node)

/-- A node with properties only; without any there is no node. -/
def missing (start here : Mark) (p : Properties) (tag? : Option Text) : Build Node := do
  if p.name.isSome || p.tag.isSome then
    let number? ← reserve p.name
    let line := start.line + 1
    settle
    match tag? with
    | some tag => keep number? (.scalar line tag [])
    | none => keep number? (.ofPlain line [])
  else fail start here .noContent

/-- A node that is not there. -/
def absent (m : Mark) : Build Node := do
  settle
  return .absent m

mutual

/-- **The node at the front of the tokens.** Block collections may be refused, and so may
sequences without indentation of their own. -/
def node : Nat → Bool → Bool → Build Node
  | 0, _, _ => throw (.overall .tooDeep)
  | budget + 1, isBlock, isIndentless => do
    let t ← peek
    let start := t.start
    match t.symbol with
    | .alias name =>
      drop
      dropComments
      settle
      reference start name
    | _ =>
      let p ← properties
      let t ← peek
      let tag? ← tagOf start p
      let line := start.line + 1
      match t.symbol with
      | .scalar isPlain value =>
        drop
        dropComments
        settle
        let number? ← reserve p.name
        match tag? with
        | some tag => keep number? (.scalar line tag value)
        | none => keep number? (if isPlain then .ofPlain line value else .ofQuoted line value)
      | .blockEntry =>
        if isIndentless then
          settle
          let number? ← reserve p.name
          let items ← indentlessItems budget []
          keep number? (.seq line (tag?.getD Tag.seq) items)
        else missing start t.start p tag?
      | .flowSequence =>
        drop
        dropComments
        settle
        let number? ← reserve p.name
        let items ← flowItems budget t.start true []
        keep number? (.seq line (tag?.getD Tag.seq) items)
      | .flowMapping =>
        drop
        dropComments
        settle
        let number? ← reserve p.name
        let entries ← flowEntries budget t.start true []
        keep number? (.map line (tag?.getD Tag.map) entries)
      | .blockSequence =>
        if isBlock then
          drop
          settle
          let number? ← reserve p.name
          let items ← blockItems budget t.start []
          keep number? (.seq line (tag?.getD Tag.seq) items)
        else missing start t.start p tag?
      | .blockMapping =>
        if isBlock then
          drop
          settle
          let number? ← reserve p.name
          let entries ← blockEntries budget t.start []
          keep number? (.map line (tag?.getD Tag.map) entries)
        else missing start t.start p tag?
      | _ => missing start t.start p tag?

/-- The items of a block sequence. -/
def blockItems : Nat → Mark → List Node → Build (List Node)
  | 0, _, _ => throw (.overall .tooDeep)
  | budget + 1, start, done => do
    let t ← peek
    match t.symbol with
    | .blockEntry =>
      dropHyphen
      let next ← peek
      let item ←
        if next.symbol = .blockEntry || next.symbol = .blockEnd then absent t.start
        else node budget true false
      blockItems budget start (item :: done)
    | .blockEnd =>
      drop
      settle
      return done.reverse
    | _ => fail start t.start .noEntry

/-- The items of a sequence without indentation of its own. -/
def indentlessItems : Nat → List Node → Build (List Node)
  | 0, _ => throw (.overall .tooDeep)
  | budget + 1, done => do
    let t ← peek
    match t.symbol with
    | .blockEntry =>
      dropHyphen
      let next ← peek
      let item ← if endsItem next.symbol then absent t.start else node budget true false
      indentlessItems budget (item :: done)
    | _ =>
      settle
      return done.reverse

/-- The entries of a block mapping. -/
def blockEntries : Nat → Mark → Entries → Build Entries
  | 0, _, _ => throw (.overall .tooDeep)
  | budget + 1, start, done => do
    let t ← peek
    match t.symbol with
    | .key =>
      drop
      let next ← peek
      let key ← if endsPair next.symbol then absent t.start else node budget true true
      let value ← blockValue budget
      blockEntries budget start ((key, value) :: done)
    | .blockEnd =>
      drop
      dropComments
      settle
      return done.reverse
    | _ => fail start t.start .noKey

/-- The value of an entry of a block mapping. -/
def blockValue : Nat → Build Node
  | 0 => throw (.overall .tooDeep)
  | budget + 1 => do
    let t ← peek
    match t.symbol with
    | .value =>
      drop
      let next ← peek
      if endsPair next.symbol then absent t.start else node budget true true
    | _ => absent t.start

/-- The items of a flow sequence. An item with a colon is a mapping of one entry. -/
def flowItems : Nat → Mark → Bool → List Node → Build (List Node)
  | 0, _, _, _ => throw (.overall .tooDeep)
  | budget + 1, start, isFirst, done => do
    let t ← peek
    let t ←
      if t.symbol = .flowSequenceEnd || isFirst then pure t
      else if t.symbol = .flowEntry then do drop; peek
      else fail start t.start .noItemEnd
    match t.symbol with
    | .flowSequenceEnd =>
      drop
      dropComments
      settle
      return done.reverse
    | .key =>
      drop
      settle
      let key ← flowPairKey budget
      let value ← flowValue budget .flowSequenceEnd
      discard peek
      settle
      flowItems budget start false (.map (t.start.line + 1) Tag.map [(key, value)] :: done)
    | _ =>
      let item ← node budget false false
      flowItems budget start false (item :: done)

/-- The key of a mapping of one entry. A token that shows that it is missing is dropped. -/
def flowPairKey : Nat → Build Node
  | 0 => throw (.overall .tooDeep)
  | budget + 1 => do
    let t ← peek
    match t.symbol with
    | .value | .flowEntry | .flowSequenceEnd =>
      drop
      absent t.start
    | _ => node budget false false

/-- The value of an entry in a flow collection with the given end. -/
def flowValue : Nat → Symbol → Build Node
  | 0, _ => throw (.overall .tooDeep)
  | budget + 1, close => do
    let t ← peek
    match t.symbol with
    | .value =>
      drop
      let next ← peek
      if next.symbol = .flowEntry || next.symbol = close then absent next.start
      else node budget false false
    | _ => absent t.start

/-- The entries of a flow mapping. -/
def flowEntries : Nat → Mark → Bool → Entries → Build Entries
  | 0, _, _, _ => throw (.overall .tooDeep)
  | budget + 1, start, isFirst, done => do
    let t ← peek
    let t ←
      if t.symbol = .flowMappingEnd || isFirst then pure t
      else if t.symbol = .flowEntry then do drop; peek
      else fail start t.start .noPairEnd
    match t.symbol with
    | .flowMappingEnd =>
      drop
      dropComments
      settle
      return done.reverse
    | .key =>
      drop
      let next ← peek
      let key ← match next.symbol with
        | .value | .flowEntry | .flowMappingEnd => absent next.start
        | _ => node budget false false
      let value ← flowValue budget .flowMappingEnd
      flowEntries budget start false ((key, value) :: done)
    | _ =>
      let key ← node budget false false
      let next ← peek
      let value ← absent next.start
      flowEntries budget start false ((key, value) :: done)

end

/-! ### Documents -/

/-- The handles of tags that need no directive. -/
def standardHandles : List (Text × Text) := [(utf8 "!", utf8 "!"), (utf8 "!!", Tag.standard)]

/-- Reads directives; `hasVersion` tells whether there was one about the version. -/
def directives : Nat → Bool → Build Unit
  | 0, _ => throw (.overall .tooDeep)
  | budget + 1, hasVersion => do
    let t ← peek
    match t.symbol with
    | .version major minor =>
      if hasVersion then fail {} t.start .duplicateVersion
      else if major ≠ 1 || minor ≠ 1 then fail {} t.start .otherVersion
      else drop; directives budget true
    | .tagHandle handle meaning =>
      let b ← get
      if (b.handles.lookup handle).isSome then fail {} t.start .duplicateTagHandle
      else
        set { b with handles := b.handles ++ [(handle, meaning)] }
        drop
        directives budget hasVersion
    | _ => return ()

/-- Whether a document ends, or its content is over, at a token. -/
def endsDocument : Symbol → Bool
  | .version _ _ | .tagHandle _ _ | .documentStart | .documentEnd | .textEnd => true
  | _ => false

/-- Makes the handles known that need no directive. -/
def addStandardHandles : Build Unit :=
  modify fun b => { b with handles := b.handles ++ standardHandles }

/-- The root of a document that starts with a mark, perhaps with directives in front of it. -/
def explicitRoot (budget : Nat) : Build Node := do
  directives budget false
  addStandardHandles
  let t ← peek
  if t.symbol = .documentStart then
    drop
    settle
    let t ← peek
    if endsDocument t.symbol then absent t.start else node budget true false
  else fail {} t.start .noDocumentStart

/-- The root of a document without a mark. Comments with an empty line after them belong to the
document as a whole. -/
def implicitRoot (budget : Nat) : Build Node := do
  addStandardHandles
  if ((← get).comments.getLast?.map Comment.isLoose).getD false then dropComments
  settle
  node budget true false

/-- **The root of the first document**, if there is one. What follows has to be a token. -/
def root? (budget : Nat) : Build (Option Node) := do
  discard peek
  drop
  settle
  let t ← peek
  match t.symbol with
  | .textEnd =>
    settle
    return none
  | .version _ _ | .tagHandle _ _ | .documentStart =>
    let root ← explicitRoot budget
    discard peek
    settle
    return some root
  | _ =>
    let root ← implicitRoot budget
    discard peek
    settle
    return some root

end Build

/-- **The first document of a text**, or nothing if there is none. -/
def Document.read (t : Text) : Except Malformed (Option Document) :=
  let tokens := Lookahead.ofText t
  let size := tokens.size
  match (Build.root? (8 * size + 64)).run { tokens := tokens } with
  | .error m => .error m
  | .ok (none, _) => .ok none
  | .ok (some root, b) => .ok (some ⟨root, b.named, size⟩)

end Badger.Yaml
