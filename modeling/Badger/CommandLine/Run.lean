import Badger.CommandLine.Arguments
import Badger.Listing.Lowering
import Badger.Session.Run
import Badger.Settings.Load

/-!
# Running a command line

A command line as a function of its arguments, the files in reach and the surroundings:
what it writes, and its exit code.

## Main definitions

* `Surroundings`: the files in reach, the home directory and the file of settings that the
  environment names
* `Report`: what a command writes, and its exit code
* `Launch`: how a command line begins: it is over, or a console is to be opened
* `CommandLine.treat`: what is done with the text of a program
* `CommandLine.run`: the command line as a whole

## Design notes

Settings are loaded before the arguments are looked at, so a broken file of settings is
reported whatever the command. Exit code 2 stands for arguments that make no sense, 1 for
everything else that goes wrong.
-/

namespace Badger

/-- What a command line depends on besides its arguments. -/
structure Surroundings where
  files : Files
  home : Text
  settingsFile : Text
deriving DecidableEq, Repr

/-- **What a command writes**, and its exit code. -/
structure Report where
  code : Nat := 0
  stdout : Text := []
  stderr : Text := []
deriving DecidableEq, Repr

/-- How a command line begins: it is over, or a console is to be opened. -/
inductive Launch where
  | finished (r : Report)
  | console (s : Settings)
deriving DecidableEq, Repr

namespace CommandLine

/-- Runs a program in a fresh session. What it wrote before it failed stays written. -/
def interpret (fuel : Nat) (s : Settings) (name text : Text) : Text × Option Failure :=
  let (answer, after) := (Session.new s.options).eval fuel name text
  match answer with
  | .failure f => (after.output, some f)
  | .value _ | .outOfFuel => (after.output, none)

/-- The instructions of a program, one per line. -/
def listing (s : Settings) (text : Text) : Except Failure Text :=
  match Session.readChunk s.strict text with
  | .error f => .error f
  | .ok (stmts, stream) =>
    match Listing.ofStmts stmts stream.lines with
    | .error d => .error (.single d)
    | .ok code => .ok (code.map fun i => i.render ++ [Text.newline]).flatten

/-- The tokens of a text, one per line. -/
def tokens (s : Settings) (text : Text) : Except Failure Text :=
  match TokenStream.read s.strict text with
  | .error d => .error (.single d)
  | .ok stream => .ok (Token.dump stream.tokens stream.lines)

/-- **What is done with the text of a program**: what is written, and what goes wrong. -/
def treat (fuel : Nat) (s : Settings) (mode : Mode) (path text : Text) :
    Text × Option Failure :=
  let orFailure : Except Failure Text → Text × Option Failure
    | .ok t => (t, none)
    | .error f => ([], some f)
  match mode with
  | .run => interpret fuel s (Path.base path) text
  | .compile => orFailure (listing s text)
  | .tokens => orFailure (tokens s text)

/-- The end of the name of every program. -/
def programSuffix : Text := utf8 ".bdg"

/-- Reads a program and does what is to be done with it. -/
def onProgram (fuel : Nat) (files : Files) (s : Settings) (mode : Mode) (path : Text) :
    Report :=
  if Text.endsWith path programSuffix then
    match files.read path with
    | .error e =>
      { code := 1,
        stderr := utf8 "Error reading " ++ path ++ utf8 ": " ++ e.message ++ [Text.newline] }
    | .ok text =>
      match treat fuel s mode path text with
      | (out, none) => { stdout := out }
      | (out, some f) => { code := 1, stdout := out, stderr := f.report text s.showSnippets }
  else
    { code := 1,
      stderr := utf8 "Error: expected a .bdg file, got " ++ Quoted.text path ++ [Text.newline] }

/-- A line that tells of an error. -/
def errorLine (message : Text) : Text := utf8 "Error: " ++ message ++ [Text.newline]

/-- Carries out a command under the given settings. -/
def obey (fuel : Nat) (files : Files) (s : Settings) : Command → Launch
  | .console => .console s
  | .help => .finished { stdout := Command.usage }
  | .misuse => .finished { code := 2, stderr := Command.usage }
  | .program mode path => .finished (onProgram fuel files s mode path)

/-- **A command line.** -/
def run (fuel : Nat) (around : Surroundings) (args : List Text) : Launch :=
  match Arguments.split args with
  | .error flag =>
    .finished
      { code := 2, stderr := errorLine (Arguments.missingPath flag) ++ Command.usage }
  | .ok (path, rest) =>
    match Settings.load around.files around.home (path.getD []) around.settingsFile with
    | .error e => .finished { code := 1, stderr := errorLine e.message }
    | .ok s => obey fuel around.files s (.ofArguments rest)

end CommandLine

end Badger
