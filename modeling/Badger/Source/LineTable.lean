import Badger.Text.Basic

/-!
# Lines and columns

Offsets into a text are turned into lines and columns by a table of newline offsets, one
entry for each line break in increasing order.

## Main definitions

* `LineTable`: the offsets of the line breaks of a text
* `LineTable.countBelow`: how many line breaks lie before an offset
* `LineTable.lineOf`, `LineTable.columnOf`: the place of an offset

## Design notes

Offsets are integers: trees and tables can be built by hand, and a missing node has the
offset `-1`. `countBelow` halves the table at each step; on a table in increasing order it
counts the entries below the offset.
-/

namespace Badger

/-- **A line table.** The offsets of the line breaks of a text. -/
abbrev LineTable := Array Int

namespace LineTable

/-- The first position in `lo, …, hi` at which an entry is not below `offset`, if the
entries are in increasing order. -/
def search (table : LineTable) (offset : Int) (lo hi : Nat) : Nat :=
  if lo < hi then
    let mid := (lo + hi) / 2
    if table.getD mid 0 < offset then search table offset (mid + 1) hi
    else search table offset lo mid
  else lo
termination_by hi - lo

/-- How many line breaks lie before an offset. -/
def countBelow (table : LineTable) (offset : Int) : Nat :=
  search table offset 0 table.size

/-- **Line.** Lines are counted from one; a line break belongs to the line that it ends. -/
def lineOf (table : LineTable) (offset : Int) : Nat :=
  table.countBelow offset + 1

/-- **Column.** The distance from the preceding line break, or the offset itself on the
first line. -/
def columnOf (table : LineTable) (offset : Int) : Int :=
  match table.countBelow offset with
  | 0 => offset
  | k + 1 => offset - table.getD k 0

end LineTable

end Badger
