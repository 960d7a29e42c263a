import Badger.Settings.Basic
import Badger.Text.Quoted
import Badger.Yaml.Node

/-!
# Settings from a document

A document of settings is a mapping with three sections, each a mapping of its own. What the
document leaves out, or gives as null, stays as it was. Everything that is wrong with the values
of a document is reported, in the order of the document.

## Main definitions

* `DecodeIssue`: something wrong with a document
* `Decode`: decoding, with the issues found so far
* `Decoder`: how a node changes a value
* `Decoder.scalar`, `Decoder.mapping`: decoders for the leaves and for mappings with known
  keys
* `Decoder.settings`: the decoder for a whole document

## Design notes

A mapping that has a key twice is not decoded at all. A mapping may take over the entries of
others; its own entries win over those, and among those the earlier ones win.
-/

namespace Badger

/-- What a document can hold: a mapping with known keys, or a scalar. -/
inductive Shape where
  | document
  | interpreter
  | console
  | output
  | int
  | bool
  | string
deriving DecidableEq, Repr

/-- The name of a shape in messages. -/
def Shape.name : Shape → Text
  | .document => utf8 "main.Config"
  | .interpreter => utf8 "main.InterpreterConfig"
  | .console => utf8 "main.REPLConfig"
  | .output => utf8 "main.OutputConfig"
  | .int => utf8 "int"
  | .bool => utf8 "bool"
  | .string => utf8 "string"

/-- **Something wrong with a document**, with the line at which it stands. -/
inductive DecodeIssue where
  /-- A mapping has the key already, at the line `first`. -/
  | duplicate (line : Nat) (key : Text) (first : Nat)
  /-- A mapping of this shape knows no such key. -/
  | unknown (line : Nat) (key : Text) (shape : Shape)
  /-- A mapping of this shape has an entry for the key already, under another spelling. -/
  | again (line : Nat) (key : Text) (shape : Shape)
  /-- A node with this tag, and this text if it is a scalar, does not fit the shape. -/
  | unfit (line : Nat) (tag value : Text) (shape : Shape)
deriving DecidableEq, Repr

namespace DecodeIssue

/-- A scalar as messages show it: cut if it is longer than ten bytes. -/
def excerpt (value : Text) : Text :=
  if 10 < value.length then value.take 7 ++ utf8 "..." else value

/-- What messages show of a node after its tag. -/
def shown (tag value : Text) : Text :=
  if tag = Yaml.Tag.seq || tag = Yaml.Tag.map then value
  else utf8 " `" ++ excerpt value ++ utf8 "`"

/-- The wording of an issue. -/
def message (i : DecodeIssue) : Text :=
  let place (line : Nat) : Text := utf8 "line " ++ Text.ofNat line ++ utf8 ": "
  match i with
  | .duplicate line key first =>
    place line ++ utf8 "mapping key " ++ Quoted.text key ++ utf8 " already defined at line " ++
      Text.ofNat first
  | .unknown line key shape =>
    place line ++ utf8 "field " ++ key ++ utf8 " not found in type " ++ shape.name
  | .again line key shape =>
    place line ++ utf8 "field " ++ key ++ utf8 " already set in type " ++ shape.name
  | .unfit line tag value shape =>
    place line ++ utf8 "cannot unmarshal " ++ tag ++ shown tag value ++ utf8 " into " ++ shape.name

/-- The keys of a mapping that stood there before. -/
def duplicates : List (Yaml.Node × Yaml.Node) → List DecodeIssue
  | [] => []
  | (key, _) :: rest =>
    (rest.filter fun e => key.sameKey e.1).map
        (fun e => .duplicate e.1.line e.1.text key.line) ++
      duplicates rest

end DecodeIssue

/-! ### Decoding -/

/-- How far decoding has come. -/
structure Decoding where
  /-- The issues found, last one first. -/
  issues : List DecodeIssue := []
  /-- The references that are being followed. -/
  sites : List Nat := []
  /-- How many nodes have been visited, the document itself included. -/
  visits : Nat := 1
  /-- How many of the visits came about by a reference. -/
  aliasVisits : Nat := 0
deriving DecidableEq, Repr

namespace Decoding

/-- The part of all visits that may come about by references: less, the more visits there are. -/
def allowedRatio (visits : Nat) : Float :=
  if visits ≤ 400000 then 0.99
  else if 4000000 ≤ visits then 0.10
  else 0.99 - 0.89 * (Float.ofNat (visits - 400000) / 3600000)

/-- Whether too many visits came about by references. -/
def isExcessive (s : Decoding) : Bool :=
  100 < s.aliasVisits && 1000 < s.visits &&
    allowedRatio s.visits < Float.ofNat s.aliasVisits / Float.ofNat s.visits

end Decoding

/-- **Decoding**, with the issues found so far. -/
abbrev Decode (α : Type) : Type := StateT Decoding (Except Yaml.Refusal) α

namespace Decode

/-- Notes an issue. -/
def report (i : DecodeIssue) : Decode Unit := modify fun s => { s with issues := i :: s.issues }

/-- Notes several issues. -/
def reportAll (is : List DecodeIssue) : Decode Unit :=
  modify fun s => { s with issues := is.reverse ++ s.issues }

/-- Counts a visit. -/
def count : Decode Unit := do
  modify fun s =>
    { s with
      visits := s.visits + 1
      aliasVisits := if s.sites.isEmpty then s.aliasVisits else s.aliasVisits + 1 }
  if (← get).isExcessive then throw .excessiveAliasing

/-- **Visits a node**, or the node that it refers to. A reference must not be met while it is
being followed. -/
def visit {α : Type} (d : Yaml.Document) (n : Yaml.Node) (use : Yaml.Node → Decode α) :
    Decode α := do
  count
  match n with
  | .alias _ name target site =>
    if (← get).sites.contains site then throw (.selfReference name)
    modify fun s => { s with sites := site :: s.sites }
    count
    let a ← use (d.target target)
    modify fun s => { s with sites := s.sites.drop 1 }
    return a
  | n => use n

end Decode

/-- **A decoder.** How a node of a document changes a value. -/
def Decoder (α : Type) : Type := Yaml.Document → α → Yaml.Node → Decode α

namespace Decoder

/-! ### Scalars -/

/-- Decodes a scalar that `accept` takes; null changes nothing. -/
def leaf {α : Type} (shape : Shape) (accept : Yaml.Scalar → Text → Option α) (a : α) :
    Yaml.Node → Decode α
  | .scalar line tag value => do
    let meaning ← Yaml.Scalar.ofTagged tag value
    match meaning with
    | .null => return a
    | meaning =>
      match accept meaning value with
      | some b => return b
      | none => Decode.report (.unfit line tag value shape); return a
  | .seq line tag _ => do Decode.report (.unfit line tag [] shape); return a
  | .map line tag entries => do
    match DecodeIssue.duplicates entries with
    | [] => Decode.report (.unfit line tag [] shape); return a
    | issues => Decode.reportAll issues; return a
  | .alias _ _ _ _ => return a

/-- A decoder for scalars that `accept` takes. -/
def scalar {α : Type} (shape : Shape) (accept : Yaml.Scalar → Text → Option α) : Decoder α :=
  fun d a n => Decode.visit d n (leaf shape accept a)

/-- The text of a scalar: what it means if that is a text, else as it is written. -/
def textOf : Yaml.Scalar → Text → Text
  | .text t, _ => t
  | _, value => value

/-- The decoder for a text: any scalar. -/
def string : Decoder Text := scalar .string fun meaning value => some (textOf meaning value)

/-- The integer that a number is cut to, toward zero. A number that is too small, or just
too large, gives the smallest integer. -/
def truncate? (x : Float) : Option Int :=
  if x ≤ Float.ofInt Yaml.Scalar.maxSigned then
    match Number.Dyadic.ofFloat? x with
    | some d =>
      let (num, den) := Number.scaleDown d.mantissa 1 (-d.exponent)
      let size : Int := num / den
      let n := if d.negative then -size else size
      if Yaml.Scalar.minSigned ≤ n && n ≤ Yaml.Scalar.maxSigned then some n
      else some Yaml.Scalar.minSigned
    | none => some Yaml.Scalar.minSigned
  else none

/-- The decoder for an integer of 64 bits. Other numbers are cut. -/
def int : Decoder Int := scalar .int fun meaning _ =>
  match meaning with
  | .int n => if n ≤ Yaml.Scalar.maxSigned then some n else none
  | .float x => truncate? x
  | _ => none

/-- The words for true and for false besides the words of the format. -/
def switchWords : List (Text × Bool) :=
  (["y", "Y", "yes", "Yes", "YES", "on", "On", "ON"].map fun w => (utf8 w, true)) ++
    (["n", "N", "no", "No", "NO", "off", "Off", "OFF"].map fun w => (utf8 w, false))

/-- The decoder for a truth value. -/
def bool : Decoder Bool := scalar .bool fun meaning _ =>
  match meaning with
  | .bool b => some b
  | .text t => switchWords.lookup t
  | _ => none

/-- A decoder for one part of a value. -/
def part {α β : Type} (get : α → β) (set : α → β → α) (decode : Decoder β) : Decoder α :=
  fun d a n => do
    let b ← decode d (get a) n
    return set a b

/-! ### Mappings -/

/-- The name that a key stands for; null and keys that are no scalars stand for none. -/
def keyName? (d : Yaml.Document) (key : Yaml.Node) : Decode (Option Text) :=
  scalar .string (fun meaning value => some (some (textOf meaning value))) d none key

/-- The text that a key means, if it means one. A key that is a mapping must not have a key
twice. -/
def keyText? (d : Yaml.Document) (key : Yaml.Node) : Decode (Option Text) :=
  Decode.visit d key fun
    | .scalar _ tag value => do
      match ← Yaml.Scalar.ofTagged tag value with
      | .text t => return some t
      | _ => return none
    | .map _ _ es => do
      Decode.reportAll (DecodeIssue.duplicates es)
      return none
    | _ => return none

/-- What has come of a mapping. -/
structure Filled (α : Type) where
  value : α
  /-- While entries are taken over from other mappings: the names that are taken already. -/
  taken : Option (List Text) := none
  /-- The keys of this mapping that have been used. -/
  used : List Text := []
  /-- The mappings whose entries are to be taken over. -/
  merge : Option Yaml.Node := none

/-- The known keys of a mapping with the decoders for their values. -/
structure Fields (α : Type) where
  shape : Shape
  decoders : List (Text × Decoder α)

/-- Decodes one entry of a mapping. An entry whose key has no name is skipped, and so is one that
would be taken over but is there already. -/
def entry {α : Type} (fields : Fields α) (d : Yaml.Document) (f : Filled α)
    (key value : Yaml.Node) : Decode (Filled α) := do
  if key.isMerge then return { f with merge := some value }
  match ← keyName? d key with
  | none => return f
  | some name =>
    if (f.taken.getD []).contains name then return f
    let f := { f with taken := f.taken.map (name :: ·) }
    match fields.decoders.lookup name with
    | none => Decode.report (.unknown key.line name fields.shape); return f
    | some decode =>
      if f.used.contains name then
        Decode.report (.again key.line name fields.shape)
        return f
      let a ← decode d f.value value
      return { f with value := a, used := name :: f.used }

/-- Decodes the entries of a mapping one after the other. -/
def entries {α : Type} (fields : Fields α) (d : Yaml.Document) :
    Filled α → List (Yaml.Node × Yaml.Node) → Decode (Filled α)
  | f, [] => return f
  | f, (key, value) :: rest => do
    let f ← entry fields d f key value
    entries fields d f rest

/-- The mappings that a merge key stands for: its value, or the items of that. -/
def mergeItems : Yaml.Node → List Yaml.Node
  | .seq _ _ items => items
  | n => [n]

/-- Whether a node is a mapping or refers to one. -/
def isMergeable (d : Yaml.Document) : Yaml.Node → Bool
  | .alias _ _ target _ => (d.target target).isMap
  | n => n.isMap

/-- Takes over the entries of mappings one after the other, each by `take`. -/
def mergeAll {α : Type} (d : Yaml.Document)
    (take : List Text → α → Yaml.Node → Decode (α × List Text)) :
    List Text → α → List Yaml.Node → Decode (α × List Text)
  | taken, a, [] => return (a, taken)
  | taken, a, n :: rest => do
    if !isMergeable d n then throw .notMergeable
    let (a, taken) ← Decode.visit d n (take taken a)
    mergeAll d take taken a rest

/-- The texts that keys mean. -/
def keyTexts (d : Yaml.Document) : List (Yaml.Node × Yaml.Node) → Decode (List Text)
  | [] => return []
  | (key, _) :: rest => do
    let text? ← keyText? d key
    let others ← keyTexts d rest
    return text?.toList ++ others

/-- Decodes a mapping, first its own entries and then those that it takes over. `taken` holds
the names that are taken already if this mapping is itself taken over; they are handed on. The
budget has to exceed the number of mappings that take each other over. -/
def fill {α : Type} (fields : Fields α) (d : Yaml.Document) :
    Nat → Option (List Text) → α → Yaml.Node → Decode (α × Option (List Text))
  | 0, _, _, _ => throw .excessiveAliasing
  | budget + 1, taken, a, .map _ _ es => do
    match DecodeIssue.duplicates es with
    | [] =>
      let f ← entries fields d { value := a, taken := taken } es
      match f.merge with
      | none => return (f.value, f.taken)
      | some m =>
        let names ← match f.taken with
          | some names => pure names
          | none => keyTexts d es
        let take (names : List Text) (a : α) (n : Yaml.Node) : Decode (α × List Text) := do
          let (a, names?) ← fill fields d budget (some names) a n
          return (a, names?.getD names)
        let (a, names) ← mergeAll d take names f.value (mergeItems m)
        return (a, f.taken.map fun _ => names)
    | issues => Decode.reportAll issues; return (a, taken)
  | _ + 1, taken, a, n => do
    let a ← leaf fields.shape (fun _ _ => none) a n
    return (a, taken)

/-- **A decoder for a mapping with known keys.** -/
def mapping {α : Type} (fields : Fields α) : Decoder α := fun d a n =>
  Decode.visit d n fun n => do
    let (a, _) ← fill fields d ((d.size + 2) * (d.size + 2)) none a n
    return a

/-! ### Settings -/

/-- The decoder for a limit. -/
def limit (l : Limit) : Decoder Settings := part (·.limit l) (·.setLimit l) int

/-- The limits and switches of a session. -/
def interpreter : Decoder Settings := mapping ⟨.interpreter,
  [(Limit.scopeDepth.key, limit .scopeDepth),
    (Limit.callDepth.key, limit .callDepth),
    (utf8 "echo_returns", part (·.echoReturns) (fun s b => { s with echoReturns := b }) bool),
    (utf8 "strict_lexer", part (·.strict) (fun s b => { s with strict := b }) bool)]⟩

/-- The choices about the console. -/
def console : Decoder Settings := mapping ⟨.console,
  [(utf8 "prompt", part (·.promptName) (fun s t => { s with promptName := t }) string),
    (utf8 "history_file", part (·.historyFile) (fun s t => { s with historyFile := t }) string)]⟩

/-- The choices about reports. -/
def output : Decoder Settings := mapping ⟨.output,
  [(utf8 "show_snippet", part (·.showSnippets) (fun s b => { s with showSnippets := b }) bool)]⟩

/-- **The decoder for a document of settings.** -/
def settings : Decoder Settings := mapping ⟨.document,
  [(utf8 "interpreter", interpreter), (utf8 "repl", console), (utf8 "output", output)]⟩

end Decoder

end Badger
