import Badger.Yaml.Token.Quoted

/-!
# Names, tags and directives

What stands in front of a node or of a document: names for nodes and references to them, tags,
and the directives about the version of the format and about the handles of tags.

## Main definitions

* `Yaml.Property.name`: the name of a node, or a reference to it
* `Yaml.Property.tag`: a tag
* `Yaml.Property.directive`: a directive
-/

namespace Badger.Yaml.Property

/-- The characters that may follow a name, besides those that end a word. -/
def nameEnds : List Char := ['?', ':', ',', ']', '\x7d', '%', '@', '\x60']

/-- **A name** after the mark that introduces it. -/
def name : Scan Text := do
  let start := (← get).mark
  Scan.take 1 1
  let word ← Scan.run isNameChar
  let ends := match ← Scan.next? with
    | none => true
    | some ch => isGapChar ch || nameEnds.contains ch
  if word.isEmpty || !ends then Scan.fail start .noAnchorName
  return encode word

/-! ### Tags -/

/-- The characters of an identifier of tags, besides those of names. -/
def uriMarks : List Char :=
  [';', '/', '?', ':', '@', '&', '=', '+', '$', ',', '.', '!', '~', '*', '\'', '(', ')', '[', ']',
    '%']

/-- Whether a character may stand in an identifier of tags. -/
def isUriChar (c : Char) : Bool := isNameChar c || uriMarks.contains c

/-- The byte that a percent sign and two hexadecimal digits stand for. -/
def octet? : List Char → Option UInt8
  | '%' :: rest => (hexNumber? 2 0 rest).map Nat.toUInt8
  | _ => none

/-- Reads the bytes of a UTF-8 sequence that are still to come, each written with a percent
sign. -/
def octets (start : Mark) : Nat → Text → Scan Text
  | 0, done => return done
  | more + 1, done => do
    Scan.need 3
    match octet? (← Scan.rest) with
    | none => Scan.fail start .noEscapedOctet
    | some b =>
      if !Octets.isTail b then Scan.fail start .escapedTrailingOctet
      Scan.take 0 3
      octets start more (done ++ [b])

/-- Reads a character that is written byte by byte, each with a percent sign. -/
def escapedChar (start : Mark) : Scan Text := do
  Scan.need 3
  match octet? (← Scan.rest) with
  | none => Scan.fail start .noEscapedOctet
  | some lead =>
    if Octets.leadLength lead = 0 then Scan.fail start .escapedLeadingOctet
    Scan.take 0 3
    octets start (Octets.leadLength lead - 1) [lead]

/-- Reads an identifier of tags; `done` is what has been read of it. -/
def uriFrom (start : Mark) : Nat → Text → Scan Text
  | 0, done => return done
  | budget + 1, done => do
    Scan.need 1
    match ← Scan.next? with
    | none => return done
    | some ch =>
      if ch = '%' then
        let bytes ← escapedChar start
        uriFrom start budget (done ++ bytes)
      else if isUriChar ch then
        Scan.step
        uriFrom start budget (done ++ encode [ch])
      else return done

/-- Reads an identifier of tags that must not be empty. -/
def uri (start : Mark) (budget : Nat) : Scan Text := do
  match ← uriFrom start budget [] with
  | [] => Scan.fail start .noUri
  | result => return result

/-- Reads a handle: an exclamation mark, a word and, if it is there, another exclamation mark. -/
def handle : Scan (List Char) := do
  Scan.take 1 1
  let word ← Scan.run isNameChar
  if (← Scan.next?) = some '!' then
    Scan.step
    return '!' :: word ++ ['!']
  else return '!' :: word

/-- Whether a handle ends in an exclamation mark of its own. -/
def isClosed (h : List Char) : Bool := 1 < h.length && h.getLast? == some '!'

/-- Reads a tag: handle and rest. -/
def tagParts (start : Mark) (budget : Nat) : Scan (Text × Text) := do
  Scan.need 2
  if ((← Scan.rest).drop 1).head? = some '<' then
    Scan.take 0 2
    let rest ← uri start budget
    if (← Scan.next?) ≠ some '>' then Scan.fail start .noUriEnd
    Scan.step
    return ([], rest)
  else
    let h ← handle
    if isClosed h then
      let rest ← uri start budget
      return (encode h, rest)
    else
      match ← uriFrom start budget (encode (h.drop 1)) with
      | [] => return ([], utf8 "!")
      | rest => return (utf8 "!", rest)

/-- **A tag.** It must end a word. -/
def tag (budget : Nat) : Scan Symbol := do
  let start := (← get).mark
  let (h, rest) ← tagParts start budget
  Scan.need 1
  if !endsWord (← Scan.rest) then Scan.fail start .noBlankOrBreak
  return .tag h rest

/-! ### Directives -/

/-- Reads a number of a version: at most two digits, and at least one. -/
def versionNumber (start : Mark) : Scan Nat := do
  Scan.need 1
  let digits := (← Scan.rest).takeWhile Char.isDigit
  Scan.take 1 (min 2 digits.length)
  if 2 < digits.length then Scan.fail start .longVersion
  if digits.isEmpty then Scan.fail start .noVersion
  return digits.foldl (fun n d => 10 * n + (d.toNat - 48)) 0

/-- Reads the version of the format. -/
def version (start : Mark) : Scan Symbol := do
  discard <| Scan.run isBlank
  let major ← versionNumber start
  if (← Scan.next?) ≠ some '.' then Scan.fail start .noVersionPoint
  Scan.step
  let minor ← versionNumber start
  return .version major minor

/-- Reads a handle of tags and what it stands for. -/
def tagHandle (start : Mark) (budget : Nat) : Scan Symbol := do
  discard <| Scan.run isBlank
  if (← Scan.next?) ≠ some '!' then Scan.fail start .noTagMark
  let h ← handle
  if !isClosed h && h ≠ ['!'] then Scan.fail start .noTagMark
  Scan.need 1
  if !((← Scan.next?).map isBlank).getD false then Scan.fail start .noBlank
  discard <| Scan.run isBlank
  let meaning ← uri start budget
  Scan.need 1
  if !endsWord (← Scan.rest) then Scan.fail start .noBlankOrBreak
  return .tagHandle (encode h) meaning

/-- Reads the name of a directive. -/
def directiveName (start : Mark) : Scan Text := do
  let word ← Scan.run isNameChar
  if word.isEmpty then Scan.fail start .noDirectiveName
  if !endsWord (← Scan.rest) then Scan.fail start .directiveNameEnd
  return encode word

/-- **A directive**, which takes a whole line. -/
def directive (budget : Nat) : Scan Symbol := do
  let start := (← get).mark
  Scan.take 1 1
  let word ← directiveName start
  let symbol ←
    if word = utf8 "YAML" then version start
    else if word = utf8 "TAG" then tagHandle start budget
    else Scan.fail start .unknownDirective
  Scan.need 1
  discard <| Scan.run isBlank
  if (← Scan.next?) = some '#' then discard Scan.line
  if !endsLine (← Scan.rest) then Scan.fail start .noCommentOrBreak
  discard Scan.lineBreak
  return symbol

end Badger.Yaml.Property
