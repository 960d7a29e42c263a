import Badger.Problem
import Badger.Source.LineTable

/-!
# Diagnostics

A diagnostic is a problem together with the place at which it was found. It can be shown
with the offending line of the text and with the calls that were active.

## Main definitions

* `Diagnostic`: a problem at a place
* `Diagnostic.locate`: a problem at an offset, placed by a line table
* `Diagnostic.message`: the wording with line and column
* `Diagnostic.snippet`: the offending line with a caret under the offset
* `Finding`: a problem at an offset, before its lines are known
* `Fault`: a problem that may or may not have been placed yet
* `Failure`: what reading or running a program reports; `Failure.report` shows it
-/

namespace Badger

/-- **A diagnostic.** A problem at a place in a text. `stack` names the active calls,
innermost first; `file` and `source` name and hold the text if the problem was found while
running, which may be an earlier text than the one being run. -/
structure Diagnostic where
  problem : Problem
  offset : Int
  line : Nat
  column : Int
  stack : List Text := []
  file : Text := []
  source : Text := []
deriving DecidableEq, Repr

namespace Diagnostic

/-- A message followed by line and column. -/
def format (message : Text) (line : Nat) (column : Int) : Text :=
  message ++ utf8 " at line " ++ Text.ofNat line ++ utf8 ", " ++ Text.ofInt column

/-- A problem at an offset of a text with the given line breaks. -/
def locate (problem : Problem) (offset : Int) (lines : LineTable) : Diagnostic where
  problem := problem
  offset := offset
  line := lines.lineOf offset
  column := lines.columnOf offset

/-- The wording of a diagnostic. -/
def message (d : Diagnostic) : Text := format d.problem.message d.line d.column

/-- The bytes of a text that follow the last line break before an offset. -/
def lineStart (offset : Nat) (source : Text) : Text :=
  ((source.take offset).reverse.takeWhile (· != Text.newline)).reverse

/-- The bytes of a text from an offset to the next line break. -/
def lineRest (offset : Nat) (source : Text) : Text :=
  (source.drop offset).takeWhile (· != Text.newline)

/-- **Snippet.** The offending line after its number, and below it a caret under the
offset; nothing if the offset lies outside the text. -/
def snippet (d : Diagnostic) (source : Text) : Text :=
  if d.offset < 0 || (source.length : Int) < d.offset then []
  else
    let offset := d.offset.toNat
    let start := lineStart offset source
    let margin := utf8 "  " ++ Text.ofNat d.line ++ utf8 " | "
    let line := Text.dropTrailing (Text.byte '\r') (start ++ lineRest offset source)
    margin ++ line ++ Text.newline ::
      List.replicate (margin.length + start.length) (Text.byte ' ') ++ [Text.byte '^']

/-- The calls that were active, one per line. -/
def stackText (d : Diagnostic) : Text :=
  if d.stack.isEmpty then []
  else
    utf8 "Stack:\n" ++
      (d.stack.map fun name => utf8 "  at " ++ name ++ utf8 "()\n").flatten

/-- The text that the offset points into: the diagnostic's own if it names a file, else
the one given. -/
def sourceOr (d : Diagnostic) (source : Text) : Text :=
  if d.file.isEmpty then source else d.source

/-- The lines shown for a diagnostic: the message after the file it names, and, with
`snippets`, the offending line and the active calls. -/
def report (d : Diagnostic) (source : Text) (snippets : Bool) : Text :=
  let head := (if d.file.isEmpty then [] else d.file ++ utf8 ": ") ++ d.message ++
    [Text.newline]
  if snippets then
    let shown := d.snippet (d.sourceOr source)
    head ++ (if shown.isEmpty then [] else shown ++ [Text.newline]) ++ d.stackText
  else head

end Diagnostic

/-- **A finding.** A problem at an offset of a text whose lines are not known yet. -/
structure Finding where
  problem : Problem
  offset : Int
deriving DecidableEq, Repr

/-- Places a finding by the line breaks of its text. -/
def Finding.diagnostic (lines : LineTable) (f : Finding) : Diagnostic :=
  Diagnostic.locate f.problem f.offset lines

/-- A problem that may or may not have been placed yet. -/
inductive Fault where
  | bare (p : Problem)
  | placed (d : Diagnostic)
deriving DecidableEq, Repr

namespace Fault

/-- The problem behind a fault. -/
def problem : Fault → Problem
  | .bare p => p
  | .placed d => d.problem

/-- The wording of a fault, with its place if it has one. -/
def message : Fault → Text
  | .bare p => p.message
  | .placed d => d.message

/-- Places a fault at an offset; one that has a place keeps it. -/
def place (offset : Int) (lines : LineTable) : Fault → Fault
  | .bare p => .placed (Diagnostic.locate p offset lines)
  | .placed d => .placed d

/-- Placing a fault a second time changes nothing. -/
@[simp] theorem place_place (f : Fault) (o o' : Int) (lines lines' : LineTable) :
    (f.place o lines).place o' lines' = f.place o lines := by
  cases f <;> rfl

/-- Placing a fault keeps the problem behind it. -/
@[simp] theorem problem_place (f : Fault) (o : Int) (lines : LineTable) :
    (f.place o lines).problem = f.problem := by
  cases f <;> rfl

end Fault

/-- What reading or running a program reports: one diagnostic, or all the syntax errors of
a text. -/
inductive Failure where
  | single (d : Diagnostic)
  | syntactic (ds : List Diagnostic)
deriving DecidableEq, Repr

namespace Failure

/-- The diagnostics of a failure. -/
def diagnostics : Failure → List Diagnostic
  | .single d => [d]
  | .syntactic ds => ds

/-- The messages of a failure, one per line. -/
def message (f : Failure) : Text :=
  Text.join [Text.newline] (f.diagnostics.map Diagnostic.message)

/-- All that is shown for a failure. -/
def report (f : Failure) (source : Text) (snippets : Bool) : Text :=
  (f.diagnostics.map fun d => d.report source snippets).flatten

end Failure

end Badger
