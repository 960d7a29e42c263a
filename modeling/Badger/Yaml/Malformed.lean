import Badger.Text.Basic

/-!
# Texts that are no documents

Why a text cannot be read as a document of settings, and where that was noticed.

## Main definitions

* `Yaml.Mark`: a place in a text
* `Yaml.Reason`: why a text is no document, worded by `Yaml.Reason.message`
* `Yaml.Malformed`: a reason with the places that belong to it
* `Yaml.Malformed.line`: the number that a message gives for the line, zero for none
* `Yaml.Malformed.after`: a problem that is noticed after another one was passed over

## Design notes

Lines are counted from zero. A problem inside a token is reported with the number of its line
counted from one, a problem between tokens with the count from zero, and a line whose count is
zero is not named at all.
-/

namespace Badger.Yaml

/-- **A place in a text**: how many characters stand before it in all, how many line breaks,
and how many characters on its own line. -/
structure Mark where
  index : Nat := 0
  line : Nat := 0
  column : Nat := 0
deriving DecidableEq, Repr

/-- **Why a text is no document.** -/
inductive Reason where
  | leadingOctet
  | trailingOctet
  | incompleteSequence
  | overlongSequence
  | notUnicode
  | incompleteUnit
  | incompletePair
  | loneLowSurrogate
  | loneHighSurrogate
  | controlCharacter
  | tooDeep
  | noColon
  | noToken
  | entryNotAllowed
  | keyNotAllowed
  | valueNotAllowed
  | noDirectiveName
  | directiveNameEnd
  | unknownDirective
  | noVersionPoint
  | longVersion
  | noVersion
  | noTagMark
  | noBlank
  | noBlankOrBreak
  | noCommentOrBreak
  | noUri
  | noUriEnd
  | noEscapedOctet
  | escapedLeadingOctet
  | escapedTrailingOctet
  | noAnchorName
  | zeroIndentation
  | tabForIndentation
  | tabInPlain
  | documentMark
  | endOfText
  | unknownEscape
  | noHexadecimal
  | escapedSurrogate
  | duplicateVersion
  | otherVersion
  | duplicateTagHandle
  | noDocumentStart
  | unknownTagHandle
  | noContent
  | noEntry
  | noKey
  | noItemEnd
  | noPairEnd
  | unknownAnchor (name : Text)
deriving DecidableEq, Repr

/-- The wording of a reason. -/
def Reason.message : Reason → Text
  | .leadingOctet => utf8 "invalid leading UTF-8 octet"
  | .trailingOctet => utf8 "invalid trailing UTF-8 octet"
  | .incompleteSequence => utf8 "incomplete UTF-8 octet sequence"
  | .overlongSequence => utf8 "invalid length of a UTF-8 sequence"
  | .notUnicode => utf8 "invalid Unicode character"
  | .incompleteUnit => utf8 "incomplete UTF-16 character"
  | .incompletePair => utf8 "incomplete UTF-16 surrogate pair"
  | .loneLowSurrogate => utf8 "unexpected low surrogate area"
  | .loneHighSurrogate => utf8 "expected low surrogate area"
  | .controlCharacter => utf8 "control characters are not allowed"
  | .tooDeep => utf8 "exceeded max depth of 10000"
  | .noColon => utf8 "could not find expected ':'"
  | .noToken => utf8 "found character that cannot start any token"
  | .entryNotAllowed => utf8 "block sequence entries are not allowed in this context"
  | .keyNotAllowed => utf8 "mapping keys are not allowed in this context"
  | .valueNotAllowed => utf8 "mapping values are not allowed in this context"
  | .noDirectiveName => utf8 "could not find expected directive name"
  | .directiveNameEnd => utf8 "found unexpected non-alphabetical character"
  | .unknownDirective => utf8 "found unknown directive name"
  | .noVersionPoint => utf8 "did not find expected digit or '.' character"
  | .longVersion => utf8 "found extremely long version number"
  | .noVersion => utf8 "did not find expected version number"
  | .noTagMark => utf8 "did not find expected '!'"
  | .noBlank => utf8 "did not find expected whitespace"
  | .noBlankOrBreak => utf8 "did not find expected whitespace or line break"
  | .noCommentOrBreak => utf8 "did not find expected comment or line break"
  | .noUri => utf8 "did not find expected tag URI"
  | .noUriEnd => utf8 "did not find the expected '>'"
  | .noEscapedOctet => utf8 "did not find URI escaped octet"
  | .escapedLeadingOctet => utf8 "found an incorrect leading UTF-8 octet"
  | .escapedTrailingOctet => utf8 "found an incorrect trailing UTF-8 octet"
  | .noAnchorName => utf8 "did not find expected alphabetic or numeric character"
  | .zeroIndentation => utf8 "found an indentation indicator equal to 0"
  | .tabForIndentation => utf8 "found a tab character where an indentation space is expected"
  | .tabInPlain => utf8 "found a tab character that violates indentation"
  | .documentMark => utf8 "found unexpected document indicator"
  | .endOfText => utf8 "found unexpected end of stream"
  | .unknownEscape => utf8 "found unknown escape character"
  | .noHexadecimal => utf8 "did not find expected hexdecimal number"
  | .escapedSurrogate => utf8 "found invalid Unicode character escape code"
  | .duplicateVersion => utf8 "found duplicate %YAML directive"
  | .otherVersion => utf8 "found incompatible YAML document"
  | .duplicateTagHandle => utf8 "found duplicate %TAG directive"
  | .noDocumentStart => utf8 "did not find expected <document start>"
  | .unknownTagHandle => utf8 "found undefined tag handle"
  | .noContent => utf8 "did not find expected node content"
  | .noEntry => utf8 "did not find expected '-' indicator"
  | .noKey => utf8 "did not find expected key"
  | .noItemEnd => utf8 "did not find expected ',' or ']'"
  | .noPairEnd => utf8 "did not find expected ',' or '\x7d'"
  | .unknownAnchor name => utf8 "unknown anchor '" ++ name ++ utf8 "' referenced"

/-- **A text that is no document**: the reason, with the places that belong to it. -/
inductive Malformed where
  /-- The reason belongs to the text as a whole. -/
  | overall (reason : Reason)
  /-- The token or key that starts at `start` goes wrong at `here`. -/
  | token (start here : Mark) (reason : Reason)
  /-- The node that starts at `start` goes wrong with the token at `here`. -/
  | node (start here : Mark) (reason : Reason)
deriving DecidableEq, Repr

namespace Malformed

/-- Why the text is no document. -/
def reason : Malformed → Reason
  | .overall r | .token _ _ r | .node _ _ r => r

/-- **The number that a message gives for the line**: that of the start, or that of the place
reached if the start is on the first line; zero for none. -/
def line : Malformed → Nat
  | .overall _ => 0
  | .token start here _ =>
    if start.line ≠ 0 then start.line + 1 else if here.line ≠ 0 then here.line + 1 else 0
  | .node start here _ => if start.line ≠ 0 then start.line else here.line

/-- **A problem that is noticed after another one was passed over.** The later one counts, but one
that belongs to the text as a whole is reported at the places of the earlier one. -/
def after (m : Malformed) : Option Malformed → Malformed
  | none => m
  | some earlier =>
    match m, earlier with
    | .overall r, .token start here _ | .overall r, .node start here _ => .node start here r
    | m, _ => m

/-- The wording of a malformed text. -/
def message (m : Malformed) : Text :=
  (if m.line = 0 then [] else utf8 "line " ++ Text.ofNat m.line ++ utf8 ": ") ++ m.reason.message

end Malformed

end Badger.Yaml
