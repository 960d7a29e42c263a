import Badger.Yaml.Malformed

/-!
# Characters of a document

A document is UTF-8 text, or UTF-16 text that starts with a byte order mark. It holds
printable characters, tabs and line breaks.

## Main definitions

* `Yaml.Encoding`: the ways to encode a document
* `Yaml.Octets`: what stands at the front of encoded text
* `Yaml.Characters`: the characters of a text in portions, and why there are no more
* `Yaml.Characters.ofText`: all of this for a text

## Design notes

Text is taken in portions of 512 bytes, so a fault is noticed as soon as the portion that it
stands in is taken. A portion ends before a character that does not fit.
-/

namespace Badger.Yaml

/-- The ways to encode a document. -/
inductive Encoding where
  | utf8
  | utf16LittleEndian
  | utf16BigEndian
deriving DecidableEq, Repr

/-- **What stands at the front of encoded text.** -/
inductive Octets where
  /-- A character number, and how many bytes it takes. -/
  | character (code width : Nat)
  /-- A fault, and how many bytes have to be seen to notice it. -/
  | fault (width : Nat) (reason : Reason)
  /-- The text ends inside a character. -/
  | short (reason : Reason)
deriving DecidableEq, Repr

namespace Octets

/-- How many bytes have to be seen. -/
def width : Octets → Nat
  | .character _ w | .fault w _ => w
  | .short _ => 0

/-- Whether a character may stand in a document. -/
def isAllowed (code : Nat) : Bool :=
  code == 0x09 || code == 0x0A || code == 0x0D || (0x20 ≤ code && code ≤ 0x7E) || code == 0x85 ||
    (0xA0 ≤ code && code ≤ 0xD7FF) || (0xE000 ≤ code && code ≤ 0xFFFD) ||
    (0x10000 ≤ code && code ≤ 0x10FFFF)

/-- A character, if it may stand in a document. -/
def allowed (code width : Nat) : Octets :=
  if isAllowed code then .character code width else .fault width .controlCharacter

/-- The length that the first byte of a UTF-8 sequence asks for, zero if it cannot be one. -/
def leadLength (lead : UInt8) : Nat :=
  if lead < 0x80 then 1
  else if lead < 0xC0 then 0
  else if lead < 0xE0 then 2
  else if lead < 0xF0 then 3
  else if lead < 0xF8 then 4
  else 0

/-- Whether a byte may follow the first one of a UTF-8 sequence. -/
def isTail (b : UInt8) : Bool := 0x80 ≤ b && b < 0xC0

/-- The value of a UTF-8 sequence of the given length. -/
def sequenceValue (length : Nat) (lead : UInt8) (tail : Text) : Nat :=
  let high := match length with
    | 2 => lead.toNat % 32
    | 3 => lead.toNat % 16
    | 4 => lead.toNat % 8
    | _ => lead.toNat
  tail.foldl (fun n b => 64 * n + b.toNat % 64) high

/-- The least value that needs a UTF-8 sequence of the given length. -/
def leastValue : Nat → Nat
  | 2 => 0x80
  | 3 => 0x800
  | 4 => 0x10000
  | _ => 0

/-- What stands at the front of UTF-8 text. -/
def utf8 (lead : UInt8) (rest : Text) : Octets :=
  let length := leadLength lead
  let tail := rest.take (length - 1)
  if length = 0 then .fault 1 .leadingOctet
  else if tail.length + 1 < length then .short .incompleteSequence
  else if !tail.all isTail then .fault length .trailingOctet
  else
    let value := sequenceValue length lead tail
    if value < leastValue length then .fault length .overlongSequence
    else if (0xD800 ≤ value && value ≤ 0xDFFF) || 0x10FFFF < value then .fault length .notUnicode
    else allowed value length

/-- The value of two bytes. -/
def pairValue (bigEndian : Bool) (a b : UInt8) : Nat :=
  if bigEndian then 256 * a.toNat + b.toNat else a.toNat + 256 * b.toNat

/-- What stands at the front of UTF-16 text. -/
def utf16 (bigEndian : Bool) (lead : UInt8) : Text → Octets
  | [] => .short .incompleteUnit
  | b :: rest =>
    let value := pairValue bigEndian lead b
    if 0xDC00 ≤ value && value ≤ 0xDFFF then .fault 2 .loneLowSurrogate
    else if 0xD800 ≤ value && value ≤ 0xDBFF then
      match rest with
      | c :: d :: _ =>
        let low := pairValue bigEndian c d
        if 0xDC00 ≤ low && low ≤ 0xDFFF then
          allowed (0x10000 + (value - 0xD800) * 1024 + (low - 0xDC00)) 4
        else .fault 4 .loneHighSurrogate
      | _ => .short .incompletePair
    else allowed value 2

/-- What stands at the front of encoded text. -/
def read : Encoding → UInt8 → Text → Octets
  | .utf8 => utf8
  | .utf16LittleEndian => utf16 false
  | .utf16BigEndian => utf16 true

end Octets

/-- **The characters of a text**, up to a fault if there is one. -/
structure Characters where
  characters : List Char := []
  /-- How many characters the portions without a fault hold, one after the other. -/
  portions : List Nat := []
  /-- How many characters stand before the fault in its portion. -/
  beforeFault : Nat := 0
  fault : Option Reason := none
deriving DecidableEq, Repr

namespace Characters

/-- The size of a portion of text. -/
def portion : Nat := 512

/-- Reads the characters after the next `skip` bytes. `room` counts the bytes that are left of
the portion, `count` its characters so far, and `portions` those of earlier portions; `seen` holds
the characters read. The last ones come first in both. -/
def readFrom (encoding : Encoding) (room count : Nat) (portions : List Nat) (seen : List Char)
    (skip : Nat) : Text → Characters
  | [] => { characters := seen.reverse, portions := (count :: portions).reverse }
  | b :: rest =>
    match skip with
    | skip + 1 => readFrom encoding (room - 1) count portions seen skip rest
    | 0 =>
      let next := Octets.read encoding b rest
      let fits := decide (next.width ≤ room)
      let room := if fits then room else portion
      let portions := if fits then portions else count :: portions
      let count := if fits then count else 0
      match next with
      | .short reason =>
        { characters := seen.reverse, portions := (count :: portions).reverse, fault := reason }
      | .fault _ reason =>
        { characters := seen.reverse, portions := portions.reverse, beforeFault := count,
          fault := reason }
      | .character code width =>
        readFrom encoding (room - 1) (count + 1) portions (Char.ofNat code :: seen) (width - 1) rest

/-- The encoding that the front of a text tells, and the length of the byte order mark. -/
def encodingOf : Text → Encoding × Nat
  | 0xFF :: 0xFE :: _ => (.utf16LittleEndian, 2)
  | 0xFE :: 0xFF :: _ => (.utf16BigEndian, 2)
  | 0xEF :: 0xBB :: 0xBF :: _ => (.utf8, 3)
  | _ => (.utf8, 0)

/-- **The characters of a text.** -/
def ofText (t : Text) : Characters :=
  let (encoding, mark) := encodingOf t
  readFrom encoding (portion - mark) 0 [] [] 0 (t.drop mark)

end Characters

end Badger.Yaml
