import Badger.Text.CharClass

/-!
# Commands of the console

## Main definitions

* `Directive`: what a command asks for
* `Directive.ofText`: the meaning of a command
* `Directive.helpText`: the list of commands that the console shows
-/

namespace Badger

/-- **What a command asks for.** -/
inductive Directive where
  | quit
  | help
  | showDirectory
  | changeDirectory (path : Text)
  | load (path : Text)
  | clearBlock
  | resetSession
  | clearScreen
  | paste
  | showVariables
  | showFunctions
  | unknown
deriving DecidableEq, Repr

namespace Directive

/-- The commands without an argument. -/
def words : List (Text × Directive) :=
  [(utf8 ":q", .quit), (utf8 ":quit", .quit), (utf8 ":exit", .quit), (utf8 ":h", .help),
    (utf8 ":help", .help), (utf8 ":pwd", .showDirectory), (utf8 ":reset", .clearBlock),
    (utf8 ":reset session", .resetSession), (utf8 ":clear", .clearScreen),
    (utf8 ":paste", .paste), (utf8 ":vars", .showVariables), (utf8 ":funcs", .showFunctions)]

/-- The argument of a command that starts with the given word, without white space around
it. No blank is needed after the word. -/
def argument? (word command : Text) : Option Text :=
  if Text.startsWith command word then some (Text.trim (command.drop word.length)) else none

/-- **The meaning of a command.** -/
def ofText (command : Text) : Directive :=
  match words.lookup command with
  | some d => d
  | none =>
    match argument? (utf8 ":cd") command with
    | some path => .changeDirectory path
    | none =>
      match argument? (utf8 ":load") command with
      | some path => .load path
      | none => .unknown

/-- The path that a command is about, if it is about one. -/
def path? : Directive → Option Text
  | .changeDirectory path | .load path => if path.isEmpty then none else some path
  | _ => none

/-- **The list of commands.** -/
def helpText : Text :=
  utf8 "Commands:\n" ++
    utf8 "  :help              Show this help\n" ++
    utf8 "  :quit              Exit the REPL\n" ++
    utf8 "  :pwd               Print current directory\n" ++
    utf8 "  :cd <dir>          Change directory\n" ++
    utf8 "  :load <file>       Run a .bdg file inside this session\n" ++
    utf8 "  :reset             Clear buffered multi-line input\n" ++
    utf8 "  :reset session     Forget every variable and function\n" ++
    utf8 "  :clear             Clear the screen\n" ++
    utf8 "  :paste             Start paste mode (end with '.' or :endpaste)\n" ++
    utf8 "  :vars              Show global variables\n" ++
    utf8 "  :funcs             Show user-defined functions\n" ++
    utf8 "\n" ++
    utf8 "Paste mode controls:\n" ++
    utf8 "  .                  End + run pasted program\n" ++
    utf8 "  :endpaste          End + run pasted program\n" ++
    utf8 "  :cancel            Cancel paste without running\n"

end Directive

end Badger
