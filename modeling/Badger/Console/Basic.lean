import Badger.Console.Directive
import Badger.Console.Intake
import Badger.Files
import Badger.Session.Run
import Badger.Settings.Basic

/-!
# The console

One session fed line by line. Pieces of program text are evaluated in the session as they
become complete; commands show or change the state of the console.

## Main definitions

* `Console`: the state of the console
* `Console.prompt`: the prompt in front of the next line
* `Console.Reply`: what a line makes the console write, and whether it ends the session
* `Console.feed`, `Console.interrupt`: takes in one line, or an interrupt

## Design notes

Program text typed at the console is numbered, so that each piece has a name of its own in
reports. A loaded file goes by its own name and is not numbered.
-/

namespace Badger

/-- **A console.** `chunks` counts the pieces of program text that were typed and
evaluated. -/
structure Console where
  settings : Settings
  session : Session
  files : Files
  intake : Intake := {}
  chunks : Nat := 0

namespace Console

/-- A console with a fresh session. -/
def new (settings : Settings) (files : Files) : Console where
  settings := settings
  session := Session.new settings.options
  files := files

/-- What is shown when a console is opened. -/
def banner : Text :=
  utf8 "Badger REPL. :help for commands, :quit to exit.\n" ++
    utf8 "Multi-line input continues until every '\x7b' is closed.\n" ++
    utf8 "Paste Mode: type :paste, then end with '.' or :endpaste\n\n"

/-- **The prompt in front of the next line.** Inside a block dots stand for the name. -/
def prompt (c : Console) : Text :=
  let name := c.settings.promptName
  if c.intake.pasting then utf8 "paste[" ++ name ++ utf8 "]> "
  else if 0 < c.intake.depth then List.replicate name.length (Text.byte '.') ++ utf8 "> "
  else name ++ utf8 "> "

/-- **What a line makes the console write**, and whether it ends the session. -/
structure Reply where
  quit : Bool := false
  stdout : Text := []
  stderr : Text := []
deriving DecidableEq, Repr

/-- A line of output. -/
def say (line : Text) : Reply := { stdout := line ++ [Text.newline] }

/-- A line of complaint. -/
def complain (line : Text) : Reply := { stderr := line ++ [Text.newline] }

/-- What is written to standard error for an answer. -/
def complaint (s : Settings) (text : Text) : Answer → Text
  | .failure f => f.report text s.showSnippets
  | .value _ | .outOfFuel => []

/-- **Evaluates program text** in the session, under the given name. The session is taken
out of the console first, so that it changes in place. -/
def evaluate (fuel : Nat) (c : Console) (name text : Text) : Reply × Console :=
  let session := c.session
  let hollow := { c with session := { options := session.options } }
  let (answer, session) := session.eval fuel name text
  ({ stdout := session.output, stderr := complaint hollow.settings text answer },
    { hollow with session := session.clearOutput })

/-- The name of a piece of typed program text. -/
def chunkName (number : Nat) : Text := utf8 "<repl:" ++ Text.ofNat number ++ utf8 ">"

/-- Evaluates typed program text. -/
def evaluateTyped (fuel : Nat) (c : Console) (text : Text) : Reply × Console :=
  let number := c.chunks + 1
  evaluate fuel { c with chunks := number } (chunkName number) text

/-- Evaluates a file. -/
def load (fuel : Nat) (c : Console) (path : Text) : Reply × Console :=
  let full := c.files.absolute path
  match c.files.read full with
  | .error e => (complain (utf8 "Failed to read " ++ full ++ utf8 ": " ++ e.message), c)
  | .ok text => c.evaluate fuel (Path.base full) text

/-- Changes the current directory. -/
def changeDirectory (c : Console) (path : Text) : Reply × Console :=
  match c.files.changeDirectory path with
  | .error e => (complain e.message, c)
  | .ok files => ({}, { c with files := files })

/-- The global variables with type and value, one per line. -/
def variableLines (s : Session) : List Text :=
  s.variableNames.filterMap fun name =>
    (s.globalBindings.lookup name).map fun v =>
      v.tag.name ++ utf8 " " ++ name ++ utf8 " = " ++ v.display

/-- The declared functions with their parameters, one per line. -/
def functionLines (s : Session) : List Text :=
  s.functionNames.filterMap fun name =>
    match s.globalBindings.lookup name with
    | some (.fxn (.custom f)) =>
      some (name ++ utf8 "(" ++ Text.join (utf8 ", ") f.params ++ utf8 ")")
    | _ => none

/-- A list of lines, or what is said if there are none. -/
def listing (none : String) (lines : List Text) : Reply :=
  if lines.isEmpty then say (utf8 none)
  else { stdout := (lines.map fun l => l ++ [Text.newline]).flatten }

/-- **Carries out a command.** -/
def obey (fuel : Nat) (c : Console) : Directive → Reply × Console
  | .quit => ({ quit := true }, c)
  | .help => ({ stdout := Directive.helpText }, c)
  | .showDirectory => (say c.files.currentPath, c)
  | .changeDirectory path =>
    if path.isEmpty then (complain (utf8 "Usage: :cd <dir>"), c) else c.changeDirectory path
  | .load path =>
    if path.isEmpty then (complain (utf8 "Usage: :load <file.bdg>"), c) else c.load fuel path
  | .clearBlock => (say (utf8 "(buffer cleared)"), { c with intake := c.intake.clearBlock })
  | .resetSession =>
    (say (utf8 "(session cleared)"),
      { c with intake := c.intake.clearBlock, session := c.session.reset })
  | .clearScreen => ({ stdout := utf8 "\x1b[2J\x1b[H" }, c)
  | .paste =>
    (say (utf8 "(paste mode: end with '.' or :endpaste, cancel with :cancel)"),
      { c with intake := c.intake.startPaste })
  | .showVariables => (listing "(no globals)" (variableLines c.session), c)
  | .showFunctions => (listing "(no user functions)" (functionLines c.session), c)
  | .unknown => (say (utf8 "Unknown command. Try :help"), c)

/-- Does what a line asks for. -/
def answer (fuel : Nat) (c : Console) : Intake.Request → Reply × Console
  | .more | .nothing => ({}, c)
  | .evaluate text => c.evaluateTyped fuel text
  | .command text => c.obey fuel (.ofText text)
  | .pasteEmpty => (say (utf8 "(paste buffer empty)"), c)
  | .pasteCancelled => (say (utf8 "(paste cancelled)"), c)

/-- Answers an interrupt from the keyboard. The session is left as it is. -/
def interrupt (c : Console) : Reply × Console :=
  let reply : Reply :=
    if c.intake.pasting then say (utf8 "^C (paste cancelled)")
    else if !c.intake.block.isEmpty || 0 < c.intake.depth then say (utf8 "^C (buffer cleared)")
    else {}
  (reply, { c with intake := c.intake.interrupt })

/-- **Takes in one line.** -/
def feed (fuel : Nat) (c : Console) (line : Text) : Reply × Console :=
  let (request, intake) := c.intake.feed line
  answer fuel { c with intake := intake } request

end Console

end Badger
