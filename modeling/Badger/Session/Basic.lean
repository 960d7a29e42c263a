import Badger.Scope.Memory
import Badger.Source.Diagnostic

/-!
# Sessions

The state of a running program. A session outlives the chunks that are evaluated in it:
declarations made by one chunk are seen by the next.

## Main definitions

* `Options`: the limits and switches of a session
* `Write`: something the program wrote, printed or echoed
* `Session`: the whole state
* `Outcome`: how running a part of a program can end
* `Run`: a part of a program as a function of the session
* `Run.raise`: fails with a problem, placed in the active chunk
* `Run.getName`, `Run.setName`, `Run.declareName`, `Run.openScope`: names and scopes
* `Run.within`: the body of a function between entering and leaving it

## Design notes

A return on its way to the enclosing call is an outcome of its own, apart from values and
failures; so is running out of the step budget, which no program can observe. What changes, the
memory or the active calls, is taken out of the session before, so that only one reference
to it exists.
-/

namespace Badger

/-- The number of calls that may be active unless told otherwise. -/
def defaultCallDepth : Nat := 1024

/-- **Options of a session.** -/
structure Options where
  /-- How many enclosing scopes a search for a name may visit. -/
  scopeDepth : Nat := defaultScopeDepth
  /-- How many calls may be active at a time. -/
  callDepth : Nat := defaultCallDepth
  /-- Whether every return prints its value. -/
  echoReturns : Bool := true
  /-- Whether characters that start no token are errors. -/
  strict : Bool := false
deriving DecidableEq, Repr

namespace Options

/-- The options with another limit on scopes; a limit must be positive to count. -/
def withScopeDepth (o : Options) (n : Int) : Options :=
  if 0 < n then { o with scopeDepth := n.toNat } else o

/-- The options with another limit on calls; a limit must be positive to count. -/
def withCallDepth (o : Options) (n : Int) : Options :=
  if 0 < n then { o with callDepth := n.toNat } else o

end Options

/-- Something the program wrote: by printing, or as the echo of a return. -/
inductive Write where
  | printed (t : Text)
  | echoed (t : Text)
deriving DecidableEq, Repr

/-- The bytes of a write. -/
def Write.text : Write → Text
  | .printed t | .echoed t => t

/-- **A session.** The scopes and which of them is the global one, the active chunk, the
names of the active calls, outermost first, and all that was written. -/
structure Session where
  options : Options
  memory : Memory := {}
  globals : ScopeId := 0
  chunk : Chunk := {}
  callStack : Array Text := #[]
  writes : Array Write := #[]

namespace Session

/-- A problem at an offset of the active chunk. -/
def diagnose (s : Session) (problem : Problem) (offset : Int) : Diagnostic :=
  { Diagnostic.locate problem offset s.chunk.lineTable with
    stack := s.callStack.toList.reverse
    file := s.chunk.file
    source := s.chunk.text }

/-- Changes the memory. It is taken out of the session first, so that the change happens in
place. -/
def updateMemory (s : Session) (f : Memory → Memory) : Session :=
  let memory := s.memory
  let hollow := { s with memory := {} }
  { hollow with memory := f memory }

/-- Opens a scope inside another. -/
def openScope (s : Session) (outer : ScopeId) : ScopeId × Session :=
  let memory := s.memory
  let hollow := { s with memory := {} }
  let (id, memory) := memory.enclose outer
  (id, { hollow with memory := memory })

/-- The session after one more write. -/
def write (s : Session) (w : Write) : Session :=
  let writes := s.writes
  let hollow := { s with writes := #[] }
  { hollow with writes := writes.push w }

/-- All that was written, as one text. -/
def output (s : Session) : Text := (s.writes.toList.map Write.text).flatten

/-- The session with what was written forgotten. -/
def clearOutput (s : Session) : Session := { s with writes := #[] }

/-- The session on entering a call: the name is added to the active calls, and the chunk of
the function becomes the active one if it has a line table. -/
def enter (s : Session) (c : Closure) : Session :=
  let calls := s.callStack
  let hollow := { s with callStack := #[] }
  { hollow with
    callStack := calls.push c.name
    chunk := if c.chunk.lines.isSome then c.chunk else s.chunk }

/-- The session on leaving a call made from the chunk `caller`. -/
def leave (s : Session) (caller : Chunk) : Session :=
  let calls := s.callStack
  let hollow := { s with callStack := #[] }
  { hollow with callStack := calls.pop, chunk := caller }

end Session

/-- **Outcomes.** A value, a return on its way to the enclosing call, a failure, or no
answer within the step budget. -/
inductive Outcome (α : Type) where
  | value (a : α)
  | returned (v : Value)
  | failed (d : Diagnostic)
  | outOfFuel

/-- A part of a program: a function of the session with an outcome. -/
def Run (α : Type) : Type := Session → Outcome α × Session

namespace Run

@[inline] instance : Monad Run where
  pure a := fun s => (.value a, s)
  bind x f := fun s =>
    match x s with
    | (.value a, s) => f a s
    | (.returned v, s) => (.returned v, s)
    | (.failed d, s) => (.failed d, s)
    | (.outOfFuel, s) => (.outOfFuel, s)

/-- The active chunk. -/
def activeChunk : Run Chunk := fun s => (.value s.chunk, s)

/-- No outcome within the budget. -/
def exhausted {α : Type} : Run α := fun s => (.outOfFuel, s)

/-- A return with the given value. -/
def returns {α : Type} (v : Value) : Run α := fun s => (.returned v, s)

/-- Fails with a problem at an offset of the active chunk. -/
def raise {α : Type} (problem : Problem) (offset : Int) : Run α :=
  fun s => (.failed (s.diagnose problem offset), s)

/-- The value of an operation, or failure at an offset. -/
def liftValue (offset : Int) : Except Problem Value → Run Value
  | .ok v => pure v
  | .error p => raise p offset

/-- The value of a name, or failure at an offset. -/
def getName (scope : ScopeId) (name : Text) (offset : Int) : Run Value := fun s =>
  match s.memory.get scope name with
  | .ok v => (.value v, s)
  | .error p => (.failed (s.diagnose (.scope p) offset), s)

/-- Assigns to a name, or fails at an offset. -/
def setName (scope : ScopeId) (name : Text) (v : Value) (offset : Int) : Run Unit := fun s =>
  match s.memory.checkSet scope name v with
  | .ok holder => (.value (), s.updateMemory fun m => m.rebind holder name v)
  | .error p => (.failed (s.diagnose (.scope p) offset), s)

/-- Declares a name, or fails at an offset. -/
def declareName (scope : ScopeId) (name : Text) (v : Value) (offset : Int) : Run Unit :=
  fun s =>
    match s.memory.checkDeclare scope name with
    | .ok _ => (.value (), s.updateMemory fun m => m.bind scope name v)
    | .error p => (.failed (s.diagnose (.scope p) offset), s)

/-- Opens a scope inside another. -/
def openScope (outer : ScopeId) : Run ScopeId := fun s =>
  let (id, s) := s.openScope outer
  (.value id, s)

/-- Fails at an offset if no more calls may become active. -/
def guardCalls (offset : Int) : Run Unit := fun s =>
  if s.options.callDepth ≤ s.callStack.size then
    (.failed (s.diagnose .callDepth offset), s)
  else (.value (), s)

/-- Writes something. -/
def write (w : Write) : Run Unit := fun s => (.value (), s.write w)

/-- Prints the value of a return, if returns are echoed. -/
def echo (v : Value) : Run Unit := fun s =>
  if s.options.echoReturns then (.value (), s.write (.echoed (v.text ++ [Text.newline])))
  else (.value (), s)

/-- A return inside ends the part with its value. -/
def catchReturn (x : Run Value) : Run Value := fun s =>
  match x s with
  | (.returned v, s) => (.value v, s)
  | r => r

/-- Runs the body of a function between entering and leaving it. Leaving takes place
whatever the outcome. -/
def within (c : Closure) (body : Run Value) : Run Value := fun s =>
  let caller := s.chunk
  let (result, after) := body (s.enter c)
  (result, after.leave caller)

end Run

end Badger
