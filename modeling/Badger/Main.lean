import Badger.CommandLine.Run
import Badger.Console.Basic

/-!
# The program

The outer layer: arguments, environment, files and terminal. Everything is decided by
`CommandLine.run` and `Console.feed`; here their results are only written out.

## Main definitions

* `Terminal.survey`: looks up the files that paths lead to
* `Terminal.converse`: feeds lines of input to a console until it ends
* `Terminal.start`: runs a command line
-/

namespace Badger.Terminal

/-- Writes a text to a stream. -/
def put (stream : IO.FS.Stream) (t : Text) : IO Unit := do
  stream.write ⟨t.toArray⟩
  stream.flush

/-- The entry that stands at a place, counted from the top of the file system. -/
def look (place : List Text) : IO (Option Entry) := do
  let some path := String.fromUTF8? ⟨(Path.slash :: Text.join [Path.slash] place).toArray⟩
    | return none
  try
    let content ← IO.FS.readBinFile path
    return some (.file content.data.toList)
  catch _ =>
    try
      if ← (← IO.FS.realPath path).isDir then return some .directory else return none
    catch _ => return none

/-- The places that following a path visits. -/
def visited (fs : Files) (path : Text) : List (List Text) :=
  let full := if Path.isAbsolute path then path else fs.currentPath ++ Path.slash :: path
  let names := Path.names full
  (List.range (names.length + 1)).map fun n =>
    let start := Path.clean (Path.slash :: Text.join [Path.slash] (names.take n))
    (Path.names start).filter (!·.isEmpty)

/-- **Looks up the files that paths lead to.** -/
def survey (fs : Files) (paths : List Text) : IO Files := do
  let places := (paths.flatMap (visited fs)).eraseDups
  let entries ← places.filterMapM fun place => return (← look place).map fun e => (place, e)
  return { fs with entries := entries }

/-- The files in reach, before any is looked up. -/
def here : IO Files := do
  let names := Path.names (utf8 (← IO.currentDir).toString)
  return { root := [], current := .below (names.filter (!·.isEmpty)) }

/-- A line of input without the end of the line. -/
def stripped (line : String) : Text := Text.dropTrailing Text.newline (utf8 line)

/-- **Feeds lines of input to a console** until it ends. The file that a command is about
is looked up before the command is carried out. -/
partial def converse (c : Console) : IO Unit := do
  let stdout ← IO.getStdout
  put stdout c.prompt
  let line ← (← IO.getStdin).getLine
  if line.isEmpty then put stdout [Text.newline]
  else
    let text := stripped line
    let paths := (Directive.ofText (Text.trim text)).path?.toList
    let files ← survey c.files paths
    let (reply, c) := { c with files := files }.feed Session.ampleFuel text
    put stdout reply.stdout
    put (← IO.getStderr) reply.stderr
    if !reply.quit then converse c

/-- **Runs a command line**, and gives its exit code. The files that it can be about are
looked up before. -/
def start (args : List Text) : IO UInt32 := do
  let settingsFile := utf8 ((← IO.getEnv "BADGER_CONFIG").getD "")
  let home := utf8 ((← IO.getEnv "HOME").getD "")
  let named := match Arguments.split args with
    | .ok (some path, _) => [path]
    | _ => []
  let paths := (Settings.fileName :: settingsFile :: named ++ args).filter (!·.isEmpty)
  let files ← survey (← here) paths
  match CommandLine.run Session.ampleFuel ⟨files, home, settingsFile⟩ args with
  | .finished report =>
    put (← IO.getStdout) report.stdout
    put (← IO.getStderr) report.stderr
    return report.code.toUInt32
  | .console settings =>
    put (← IO.getStdout) Console.banner
    converse (Console.new settings files)
    return 0

end Badger.Terminal

/-- The program. -/
def main (args : List String) : IO UInt32 := Badger.Terminal.start (args.map Badger.utf8)
