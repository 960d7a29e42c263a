import Badger.Text.Basic

/-!
# Arguments of the command line

## Main definitions

* `Argument`: how an argument counts in the search for a file of settings
* `Arguments.split`: takes the flags that name a file of settings out of the arguments
* `Mode`, `Command`: what is to be done
* `Command.ofArguments`: the meaning of the arguments that are left
-/

namespace Badger

/-- How an argument counts in the search for a file of settings. -/
inductive Argument where
  /-- It has nothing to do with settings. -/
  | ordinary
  /-- The next argument is the path of a file of settings. -/
  | flag
  /-- It carries the path of a file of settings. -/
  | carrier (path : Text)
deriving DecidableEq, Repr

namespace Argument

/-- The name of the flag. -/
def flagName : Text := utf8 "config"

/-- The kind of an argument. Any number of dashes may stand in front of a flag, but there
must be one. -/
def ofText (a : Text) : Argument :=
  let name := a.dropWhile (· == Text.byte '-')
  if a = name then .ordinary
  else if name = flagName then .flag
  else if Text.startsWith name (flagName ++ [Text.byte '=']) then
    .carrier (name.drop (flagName.length + 1))
  else .ordinary

end Argument

namespace Arguments

/-- **Takes the flags that name a file of settings out of the arguments.** The path is that
of the last flag, if there is one. A flag that is the last argument and carries no path is
an error. -/
def split : List Text → Except Text (Option Text × List Text)
  | [] => .ok (none, [])
  | a :: rest =>
    match Argument.ofText a with
    | .ordinary => (split rest).map fun (path, others) => (path, a :: others)
    | .carrier p => (split rest).map fun (path, others) => (path.or (some p), others)
    | .flag =>
      match rest with
      | [] => .error a
      | p :: rest => (split rest).map fun (path, others) => (path.or (some p), others)

/-- What is said of a flag without a path. -/
def missingPath (flag : Text) : Text := utf8 "flag " ++ flag ++ utf8 " needs a path"

end Arguments

/-- What is to be done with a program. -/
inductive Mode where
  | run
  | compile
  | tokens
deriving DecidableEq, Repr

/-- **What is to be done.** -/
inductive Command where
  | console
  | help
  | program (mode : Mode) (path : Text)
  /-- The arguments make no sense. -/
  | misuse
deriving DecidableEq, Repr

namespace Command

/-- The words that ask for help. -/
def helpWords : List Text := [utf8 "help", utf8 "-h", utf8 "--help"]

/-- The words that tell what to do with a program. -/
def modeWords : List (Text × Mode) :=
  [(utf8 "run", .run), (utf8 "compile", .compile), (utf8 "tokens", .tokens)]

/-- **The meaning of arguments** without flags for settings. A program alone is run. -/
def ofArguments : List Text → Command
  | [] => .console
  | word :: rest =>
    if word = utf8 "repl" then
      if rest.isEmpty then .console else .misuse
    else if helpWords.contains word then .help
    else
      match modeWords.lookup word, rest with
      | some mode, [path] => .program mode path
      | some _, _ => .misuse
      | none, [] => .program .run word
      | none, _ => .misuse

/-- How the command line is used. -/
def usage : Text :=
  utf8 "Usage:\n" ++
    utf8 "  badger [-config file.yaml] <file.bdg>\n" ++
    utf8 "  badger run <file.bdg>        Interpret a program\n" ++
    utf8 "  badger compile <file.bdg>    Print the lowered instruction listing\n" ++
    utf8 "  badger tokens <file.bdg>     Print the token stream\n" ++
    utf8 "  badger repl                  Start the interactive session (default)\n"

end Command

end Badger
