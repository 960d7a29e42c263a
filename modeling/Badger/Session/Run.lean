import Badger.Session.Evaluate
import Badger.Tree.Parser

/-!
# Running programs in a session

## Main definitions

* `Session.new`: a session in which nothing is declared but the provided functions
* `Session.reset`: forgets every declaration
* `Session.eval`: reads a chunk of text and runs it
* `Session.runProgram`: runs statements in the global scope
* `Session.variableNames`, `Session.functionNames`: the global names

## Design notes

A chunk with an error of reading is not run at all, and leaves the session as it was.
-/

namespace Badger

/-- **Answers of a session**: the value of a run, what went wrong, or nothing within the
step budget. -/
inductive Answer where
  | value (v : Value)
  | failure (f : Failure)
  | outOfFuel

namespace Session

/-- A step budget that no program within reach uses up. -/
def ampleFuel : Nat := 4000000000000000000

/-- The global scope of a fresh session. -/
def provided : List (Text × Value) :=
  [Native.println, Native.print].map fun n => (n.name, .fxn (.native n))

/-- **Forgets every declaration** but those of the provided functions. The active chunk
stays. -/
def reset (s : Session) : Session :=
  let (id, m) := s.memory.add { bindings := provided, limit := s.options.scopeDepth }
  { s with memory := m, globals := id, callStack := #[] }

/-- A fresh session. -/
def new (options : Options) : Session := reset { options := options }

/-- Makes a chunk the active one. -/
def setChunk (s : Session) (c : Chunk) : Session := { s with chunk := c }

/-- The answer that an outcome at the top level amounts to; a return there ends the run with
its value. -/
def answer : Outcome Value → Answer
  | .value v => .value v
  | .returned v => .value v
  | .failed d => .failure (.single d)
  | .outOfFuel => .outOfFuel

/-- **Runs statements** in the global scope. -/
def runProgram (fuel : Nat) (s : Session) (stmts : List Stmt) : Answer × Session :=
  let (result, after) := Eval.block fuel stmts s.globals .empty s
  (answer result, after)

/-- The statements of a text and its token stream, or what is wrong with it. -/
def readChunk (strict : Bool) (text : Text) : Except Failure (List Stmt × TokenStream) :=
  match TokenStream.read strict text with
  | .error d => .error (.single d)
  | .ok stream =>
    let program := Program.ofTokens stream.tokens 0
    if program.errors.isEmpty then .ok (program.stmts, stream)
    else .error (.syntactic (program.diagnostics stream.lines))

/-- **Evaluates a chunk of text**: reads it, makes it the active chunk and runs it. -/
def eval (fuel : Nat) (s : Session) (file text : Text) : Answer × Session :=
  match readChunk s.options.strict text with
  | .error f => (.failure f, s)
  | .ok (stmts, stream) =>
    (s.setChunk (Chunk.ofStream file text stream)).runProgram fuel stmts

/-- The bindings of the global scope. -/
def globalBindings (s : Session) : List (Text × Value) :=
  ((s.memory.scope? s.globals).map Scope.bindings).getD []

/-- The global names with values that satisfy a test, in the order of their bytes. -/
def globalNames (s : Session) (test : Value → Bool) : List Text :=
  ((s.globalBindings.filter fun b => test b.2).map Prod.fst).mergeSort Text.le

/-- The global variables, functions left out. -/
def variableNames (s : Session) : List Text := s.globalNames fun v => v.tag != .fxn

/-- The declared functions of the global scope. -/
def functionNames (s : Session) : List Text := s.globalNames Value.isCustom

end Session

end Badger
