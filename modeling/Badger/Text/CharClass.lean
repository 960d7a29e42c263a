import Badger.Text.CharRanges
import Badger.Text.Rune

/-!
# Classes of characters

Which characters may stand in a name, which count as white space, and which are shown as
they are in a quoted text.

## Main definitions

* `CharClass.isLetter`, `CharClass.isDigit`: letters and decimal digits of any script
* `CharClass.isPrintable`: characters that a quoted text shows unescaped
* `CharClass.isBlank`: white space, as trimmed from the ends of an input line
* `Text.trim`: a text without the white space at its ends
-/

namespace Badger

namespace CharClass

/-- Whether `n` lies in one of the ranges `table[lo], …, table[hi - 1]`, which are in
increasing order; each step halves the part of the table that is left. -/
def searchRanges (table : Array (Nat × Nat)) (n lo hi : Nat) : Bool :=
  if lo < hi then
    let mid := (lo + hi) / 2
    match table[mid]? with
    | none => false
    | some (first, last) =>
      if n < first then searchRanges table n lo mid
      else if last < n then searchRanges table n (mid + 1) hi
      else true
  else false
termination_by hi - lo

/-- Whether a character lies in one of the ranges of a table. -/
def inRanges (table : Array (Nat × Nat)) (c : Char) : Bool :=
  searchRanges table c.toNat 0 table.size

/-- Letters of any script. -/
def isLetter (c : Char) : Bool :=
  if c.toNat < 128 then c.isAlpha else inRanges CharRanges.letters c

/-- Decimal digits of any script. -/
def isDigit (c : Char) : Bool :=
  if c.toNat < 128 then c.isDigit else inRanges CharRanges.digits c

/-- Letters, marks, numbers, punctuation, symbols and the ordinary space. -/
def isPrintable (c : Char) : Bool :=
  if c.toNat < 128 then 0x20 ≤ c.toNat && c.toNat < 0x7F else inRanges CharRanges.graphic c

/-- White space of any script. -/
def isBlank (c : Char) : Bool :=
  let n := c.toNat
  (0x09 ≤ n && n ≤ 0x0D) || n == 0x20 || n == 0x85 || n == 0xA0 || n == 0x1680 ||
    (0x2000 ≤ n && n ≤ 0x200A) || n == 0x2028 || n == 0x2029 || n == 0x202F || n == 0x205F ||
    n == 0x3000

end CharClass

namespace Text

/-- The text without the white space at either end. -/
def trim (t : Text) : Text :=
  let blank (r : Rune) : Bool := CharClass.isBlank r.char
  Rune.bytes (((Rune.all t).dropWhile blank).reverse.dropWhile blank).reverse

/-- Whether the text holds nothing but white space. -/
def isBlank (t : Text) : Bool := (trim t).isEmpty

end Text

end Badger
