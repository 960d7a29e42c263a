import Badger.Number.Numeral
import Badger.Text.Base64
import Badger.Yaml.Timestamp

/-!
# The meaning of scalars

What a scalar means depends on its tag, and without a tag on its spelling: a word for a truth
value or for nothing, a number, a timestamp, or else a text.

## Main definitions

* `Yaml.Tag.short`: a tag as messages show it
* `Yaml.Scalar`: what a scalar can mean
* `Yaml.Scalar.ofSpelling`: the meaning of a spelling
* `Yaml.Refusal`: why a document is not decoded at all
* `Yaml.Scalar.ofTagged`: the meaning of a spelling under a tag
-/

namespace Badger.Yaml

/-! ### Tags -/

namespace Tag

/-- The tag of texts. -/
def str : Text := utf8 "!!str"

/-- The tag of truth values. -/
def bool : Text := utf8 "!!bool"

/-- The tag of integers. -/
def int : Text := utf8 "!!int"

/-- The tag of numbers. -/
def float : Text := utf8 "!!float"

/-- The tag of nothing. -/
def null : Text := utf8 "!!null"

/-- The tag of timestamps. -/
def timestamp : Text := utf8 "!!timestamp"

/-- The tag of bytes written as letters. -/
def binary : Text := utf8 "!!binary"

/-- The tag of the key that takes over the entries of other mappings. -/
def merge : Text := utf8 "!!merge"

/-- The tag of sequences. -/
def seq : Text := utf8 "!!seq"

/-- The tag of mappings. -/
def map : Text := utf8 "!!map"

/-- What the tags of the format start with when written in full. -/
def standard : Text := utf8 "tag:yaml.org,2002:"

/-- **A tag as messages show it**, with two exclamation marks for the start of the tags of the
format. -/
def short (t : Text) : Text :=
  if Text.startsWith t standard then utf8 "!!" ++ t.drop standard.length else t

/-- The tags whose scalars have to be spelled accordingly. -/
def checked : List Text := [bool, int, float, null, timestamp]

end Tag

/-! ### Meanings -/

/-- **What a scalar can mean.** -/
inductive Scalar where
  | null
  | bool (b : Bool)
  | int (n : Int)
  | float (x : Float)
  | timestamp
  | text (t : Text)

namespace Scalar

/-- The tag of a meaning. -/
def tag : Scalar → Text
  | .null => Tag.null
  | .bool _ => Tag.bool
  | .int _ => Tag.int
  | .float _ => Tag.float
  | .timestamp => Tag.timestamp
  | .text _ => Tag.str

/-- The spellings with a meaning of their own. -/
def words : List (Text × Scalar) :=
  [(utf8 "true", .bool true), (utf8 "True", .bool true), (utf8 "TRUE", .bool true),
    (utf8 "false", .bool false), (utf8 "False", .bool false), (utf8 "FALSE", .bool false),
    ([], .null), (utf8 "~", .null), (utf8 "null", .null), (utf8 "Null", .null),
    (utf8 "NULL", .null), (utf8 ".nan", .float Number.nan), (utf8 ".NaN", .float Number.nan),
    (utf8 ".NAN", .float Number.nan), (utf8 ".inf", .float (Number.infinity false)),
    (utf8 ".Inf", .float (Number.infinity false)), (utf8 ".INF", .float (Number.infinity false)),
    (utf8 "+.inf", .float (Number.infinity false)), (utf8 "+.Inf", .float (Number.infinity false)),
    (utf8 "+.INF", .float (Number.infinity false)), (utf8 "-.inf", .float (Number.infinity true)),
    (utf8 "-.Inf", .float (Number.infinity true)), (utf8 "-.INF", .float (Number.infinity true))]

/-! ### Integers -/

/-- The value of digits of a base, starting from the value of those before. -/
def digits? (base : Nat) : Nat → Text → Option Nat
  | n, [] => some n
  | n, b :: rest =>
    match Number.hexDigit? b with
    | some d => if d < base then digits? base (base * n + d) rest else none
    | none => none

/-- A natural number in decimal, or in another base after `0x`, `0o`, `0b` or a mere zero. -/
def natural? : Text → Option Nat
  | 48 :: b :: c :: rest =>
    if b = 120 || b = 88 then digits? 16 0 (c :: rest)
    else if b = 98 || b = 66 then digits? 2 0 (c :: rest)
    else if b = 111 || b = 79 then digits? 8 0 (c :: rest)
    else digits? 8 0 (b :: c :: rest)
  | 48 :: rest => digits? 8 0 rest
  | [] => none
  | t => digits? 10 0 t

/-- The largest integer that fits 64 bits with a sign. -/
def maxSigned : Int := 9223372036854775807

/-- The largest integer that fits 64 bits without a sign. -/
def maxUnsigned : Nat := 18446744073709551615

/-- The smallest integer that fits 64 bits with a sign. -/
def minSigned : Int := -9223372036854775808

/-- An integer that fits 64 bits with a sign. -/
def signed? (negative : Bool) (size : Nat) : Option Int :=
  let n : Int := if negative then -size else size
  if minSigned ≤ n && n ≤ maxSigned then some n else none

/-- An integer with an optional sign, if it fits 64 bits. -/
def integer? : Text → Option Int
  | 45 :: t => (natural? t).bind (signed? true)
  | 43 :: t => (natural? t).bind (signed? false)
  | t => (natural? t).bind fun n => if n ≤ maxUnsigned then some (n : Int) else none

/-- An integer of a base with an optional sign, if it fits 64 bits. -/
def signedDigits? (base : Nat) (t : Text) : Option Int :=
  let (negative, ds) := Number.takeSign t
  if ds.isEmpty then none else (digits? base 0 ds).bind (signed? negative)

/-- An integer whose sign stands behind the mark of its base, which is two or eight. -/
def signedAfterBase? (t : Text) : Option Int :=
  if Text.startsWith t (utf8 "0b") then signedDigits? 2 (t.drop 2)
  else if Text.startsWith t (utf8 "0o") then signedDigits? 8 (t.drop 2)
  else none

/-! ### Spellings -/

/-- A number that is finite. -/
def finite? (x? : Option Float) : Option Scalar :=
  x?.bind fun x => if (Number.Dyadic.ofFloat? x).isSome then some (.float x) else none

/-- The meaning of a spelling that starts with a digit or a sign. Underscores are ignored. -/
def ofNumeral (t : Text) : Scalar :=
  let plain := t.filter (· != Number.separator)
  match (integer? plain).map .int with
  | some s => s
  | none =>
    match (finite? (Number.readDecimal? plain)).or ((signedAfterBase? plain).map .int) with
    | some s => s
    | none => .text t

/-- **The meaning of a spelling**; whether it can be a timestamp has to be told. -/
def ofSpelling (canBeTimestamp : Bool) (t : Text) : Scalar :=
  match words.lookup t, t with
  | some s, _ => s
  | none, b :: _ =>
    if b = Text.byte '.' then (finite? (Number.read? t)).getD (.text t)
    else if Number.isDigit b || b = 43 || b = 45 then
      if canBeTimestamp && Timestamp.isWritten t then .timestamp else ofNumeral t
    else .text t
  | none, [] => .text t

end Scalar

/-! ### Tagged scalars -/

/-- **Why a document is not decoded at all.** -/
inductive Refusal where
  /-- A scalar is not spelled as its tag asks. -/
  | mismatch (found value asked : Text)
  /-- A scalar that should be bytes written as letters is not. -/
  | notBase64
  /-- A node is reached from itself. -/
  | selfReference (name : Text)
  /-- Too much of the document is reached by references. -/
  | excessiveAliasing
  /-- What should be merged is no mapping. -/
  | notMergeable
deriving DecidableEq, Repr

/-- The wording of a refusal. -/
def Refusal.message : Refusal → Text
  | .mismatch found value asked =>
    utf8 "cannot decode " ++ found ++ utf8 " `" ++ value ++ utf8 "` as a " ++ asked
  | .notBase64 => utf8 "!!binary value contains invalid base64 data"
  | .selfReference name => utf8 "anchor '" ++ name ++ utf8 "' value contains itself"
  | .excessiveAliasing => utf8 "document contains excessive aliasing"
  | .notMergeable => utf8 "map merge requires map or sequence of maps as the value"

namespace Scalar

/-- **The meaning of a spelling under a tag.** An integer that fits 64 bits with a sign also is
a number. A tag that the format does not know leaves the text as it is. -/
def ofTagged (tag value : Text) : Except Refusal Scalar :=
  if tag = Tag.binary then
    match Base64.decode? value with
    | some bytes => .ok (.text bytes)
    | none => .error .notBase64
  else if Tag.checked.contains tag then
    let meaning := ofSpelling (tag == Tag.timestamp) value
    if meaning.tag = tag then .ok meaning
    else
      match meaning with
      | .int n =>
        if tag = Tag.float && n ≤ maxSigned then .ok (.float (Number.nearest (n < 0) n.natAbs 1))
        else .error (.mismatch meaning.tag value tag)
      | _ => .error (.mismatch meaning.tag value tag)
  else .ok (.text value)

end Scalar

end Badger.Yaml
