import Badger.Path
import Badger.Session.Basic

/-!
# Settings

What a user can choose about the tool: the limits and switches of a session, the name in
front of the prompt, the file that keeps earlier input, and whether reports show the
offending line.

## Main definitions

* `Settings`: all choices
* `Settings.standard`: the choices of a user with the given home directory who made none
* `Settings.options`: the part that a session needs
* `Limit`: the choices that have to be positive, worded by `Limit.message`
* `Settings.faults`: the limits that make no sense
-/

namespace Badger

/-- **Settings.** Limits are kept as they were written, whether they make sense or not. -/
structure Settings where
  /-- How many enclosing scopes a search for a name may visit. -/
  scopeDepth : Int := defaultScopeDepth
  /-- How many calls may be active at a time. -/
  callDepth : Int := defaultCallDepth
  /-- Whether every return prints its value. -/
  echoReturns : Bool := true
  /-- Whether characters that start no token are errors. -/
  strict : Bool := false
  /-- The name in front of the prompt. -/
  promptName : Text := utf8 "badger"
  /-- The file that keeps earlier input; empty for none. -/
  historyFile : Text := []
  /-- Whether reports show the offending line and the active calls. -/
  showSnippets : Bool := true
deriving DecidableEq, Repr

/-- A setting that has to be positive. -/
inductive Limit where
  | scopeDepth
  | callDepth
deriving DecidableEq, Repr

namespace Limit

/-- All limits, in the order in which they are looked at. -/
def all : List Limit := [.scopeDepth, .callDepth]

/-- The key of a limit in its section. -/
def key : Limit → Text
  | .scopeDepth => utf8 "max_scope_depth"
  | .callDepth => utf8 "max_call_depth"

/-- What is said of a limit that is not positive. -/
def message (l : Limit) : Text := utf8 "interpreter." ++ l.key ++ utf8 " must be positive"

end Limit

namespace Settings

/-- The value of a limit. -/
def limit (s : Settings) : Limit → Int
  | .scopeDepth => s.scopeDepth
  | .callDepth => s.callDepth

/-- The settings with another value of a limit. -/
def setLimit (s : Settings) (l : Limit) (n : Int) : Settings :=
  match l with
  | .scopeDepth => { s with scopeDepth := n }
  | .callDepth => { s with callDepth := n }

/-- The settings of a user who chose nothing. Earlier input is kept in the home directory,
if there is one. -/
def standard (home : Text) : Settings :=
  { historyFile := if home.isEmpty then [] else Path.join home (utf8 ".badger_history") }

/-- The options of a session under these settings. -/
def options (s : Settings) : Options :=
  let switches : Options := { echoReturns := s.echoReturns, strict := s.strict }
  (switches.withScopeDepth s.scopeDepth).withCallDepth s.callDepth

/-- The limits that are not positive. -/
def faults (s : Settings) : List Limit := Limit.all.filter fun l => s.limit l ≤ 0

/-- The settings with `~/` in front of the history file replaced. -/
def expandHome (home : Text) (s : Settings) : Settings :=
  { s with historyFile := Path.expandHome home s.historyFile }

end Settings

end Badger
