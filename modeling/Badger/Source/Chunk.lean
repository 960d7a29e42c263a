import Badger.Token.Stream

/-!
# Chunks of program text

A program reaches a session in chunks: a file, or a few lines typed in. Problems found
while running are placed in the chunk that was active.

## Main definitions

* `Chunk`: the name, the text and the line breaks of a piece of program text
* `Chunk.ofStream`: the chunk of a text that has been cut into tokens
-/

namespace Badger

/-- **A chunk.** A text with the name it was loaded under. A chunk may come without a line
table, in which case everything counts as one line. -/
structure Chunk where
  file : Text := []
  text : Text := []
  lines : Option LineTable := none
deriving DecidableEq

namespace Chunk

/-- The chunk of a text with its token stream; a text without line breaks gets no table. -/
def ofStream (file text : Text) (stream : TokenStream) : Chunk :=
  ⟨file, text, if stream.lines.isEmpty then none else some stream.lines⟩

/-- The line breaks by which offsets into the chunk are placed. -/
def lineTable (c : Chunk) : LineTable := c.lines.getD #[]

end Chunk

end Badger
