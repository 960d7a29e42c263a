import Badger.Value.Basic

/-!
# Scopes

The scopes of a running program form a forest: each scope knows the one around it, and
closures and blocks share the scopes around them. All scopes ever opened are kept in one
memory, numbered in the order in which they were opened.

## Main definitions

* `Scope`, `Memory`: a scope with its own bindings, and all scopes
* `Memory.openRoot`, `Memory.enclose`: new scopes
* `Memory.declare`, `Memory.get`, `Memory.set`: what programs do with names
* `Memory.resolve`: the innermost scope in reach that binds a name
* `Memory.names`, `Memory.depth`: what a scope declares, and how many scopes lie around it

## Design notes

Looking up a name counts down the number of scopes that may be visited, the limit of the
scope at which the search starts, so it ends for any memory. A scope is only ever enclosed
by an older one.
-/

namespace Badger

/-- The number of enclosing scopes that a search may visit unless told otherwise. -/
def defaultScopeDepth : Nat := 256

/-- **A scope.** Its own bindings, the scope around it, and how many enclosing scopes a
search that starts here may visit. -/
structure Scope where
  bindings : List (Text × Value) := []
  outer : Option ScopeId := none
  limit : Nat := defaultScopeDepth

namespace Scope

/-- The value that a scope itself binds to a name. -/
def lookup (s : Scope) (name : Text) : Option Value := s.bindings.lookup name

/-- The scope with one more binding. -/
def bind (s : Scope) (name : Text) (v : Value) : Scope :=
  { s with bindings := (name, v) :: s.bindings }

/-- The bindings with the value of a name replaced. -/
def replaceIn (name : Text) (v : Value) : List (Text × Value) → List (Text × Value)
  | [] => []
  | (n, old) :: rest => if n = name then (n, v) :: rest else (n, old) :: replaceIn name v rest

/-- The scope with the value of a name replaced. -/
def rebind (s : Scope) (name : Text) (v : Value) : Scope :=
  { s with bindings := replaceIn name v s.bindings }

/-- The names that a scope binds, in the order of their bytes. -/
def names (s : Scope) : List Text := (s.bindings.map Prod.fst).mergeSort Text.le

end Scope

/-- **The memory of a program.** All scopes, by number. -/
structure Memory where
  scopes : Array Scope := #[]

namespace Memory

/-- A scope by its number. -/
def scope? (m : Memory) (id : ScopeId) : Option Scope := m.scopes[id]?

/-- Adds a scope, and gives its number. -/
def add (m : Memory) (s : Scope) : ScopeId × Memory :=
  (m.scopes.size, ⟨m.scopes.push s⟩)

/-- Opens a scope with none around it. -/
def openRoot (m : Memory) (limit : Nat) : ScopeId × Memory :=
  m.add { limit := limit }

/-- **Opens a scope inside another**, with the same limit. Inside a scope that does not
exist it is a root. -/
def enclose (m : Memory) (outer : ScopeId) : ScopeId × Memory :=
  match m.scope? outer with
  | some s => m.add { outer := some outer, limit := s.limit }
  | none => m.openRoot defaultScopeDepth

/-- Changes a scope. -/
def update (m : Memory) (id : ScopeId) (f : Scope → Scope) : Memory :=
  ⟨m.scopes.modify id f⟩

/-- Whether a name may be declared in a scope; a scope declares a name at most once. -/
def checkDeclare (m : Memory) (id : ScopeId) (name : Text) : Except ScopeProblem Unit :=
  match (m.scope? id).bind (·.lookup name) with
  | some _ => .error (.redeclared name)
  | none => .ok ()

/-- The memory with one more binding in a scope. -/
def bind (m : Memory) (id : ScopeId) (name : Text) (v : Value) : Memory :=
  m.update id (·.bind name v)

/-- **Declares a name** in a scope. -/
def declare (m : Memory) (id : ScopeId) (name : Text) (v : Value) :
    Except ScopeProblem Memory :=
  (m.checkDeclare id name).map fun _ => m.bind id name v

/-- The first scope that binds a name, and the value, on the way out from a scope, visiting
at most `visits` scopes; `limit` is only reported. -/
def search (m : Memory) (limit : Nat) (name : Text) :
    Nat → Option ScopeId → Except ScopeProblem (ScopeId × Value)
  | _, none => .error (.undefined name)
  | 0, some _ => .error (.tooDeep limit)
  | visits + 1, some id =>
    match m.scope? id with
    | none => .error (.undefined name)
    | some s =>
      match s.lookup name with
      | some v => .ok (id, v)
      | none => search m limit name visits s.outer

/-- How many enclosing scopes a search that starts at a scope may visit. -/
def limit (m : Memory) (id : ScopeId) : Nat :=
  ((m.scope? id).map Scope.limit).getD defaultScopeDepth

/-- **Resolves a name**: the innermost scope in reach that binds it, and the value. -/
def resolve (m : Memory) (id : ScopeId) (name : Text) :
    Except ScopeProblem (ScopeId × Value) :=
  m.search (m.limit id) name (m.limit id + 1) (some id)

/-- **The value of a name** as seen from a scope. -/
def get (m : Memory) (id : ScopeId) (name : Text) : Except ScopeProblem Value :=
  (m.resolve id name).map Prod.snd

/-- Whether a value may replace another: both have one type, and neither is a function. -/
def replaceable (old new : Value) : Bool :=
  old.tag != .fxn && old.tag == new.tag

/-- The scope in which an assignment to a name takes place, if the value may be assigned. -/
def checkSet (m : Memory) (id : ScopeId) (name : Text) (v : Value) :
    Except ScopeProblem ScopeId :=
  match m.resolve id name with
  | .error e => .error e
  | .ok (holder, old) =>
    if replaceable old v then .ok holder else .error (.mismatch v.tag name old.tag)

/-- The memory with the value of a name replaced in a scope. -/
def rebind (m : Memory) (id : ScopeId) (name : Text) (v : Value) : Memory :=
  m.update id (·.rebind name v)

/-- **Assigns to a name**, in the scope that binds it. -/
def set (m : Memory) (id : ScopeId) (name : Text) (v : Value) : Except ScopeProblem Memory :=
  (m.checkSet id name v).map fun holder => m.rebind holder name v

/-- The names that a scope itself declares, in the order of their bytes. -/
def names (m : Memory) (id : ScopeId) : List Text :=
  ((m.scope? id).map Scope.names).getD []

/-- **How many scopes lie around a scope.** -/
def depth (m : Memory) (id : ScopeId) : Nat :=
  match (m.scope? id).bind (·.outer) with
  | none => 0
  | some outer => if outer < id then m.depth outer + 1 else 0
termination_by id

@[simp] theorem search_none (m : Memory) (limit : Nat) (name : Text) (visits : Nat) :
    m.search limit name visits none = .error (.undefined name) := by
  cases visits <;> rfl

@[simp] theorem search_zero (m : Memory) (limit : Nat) (name : Text) (id : ScopeId) :
    m.search limit name 0 (some id) = .error (.tooDeep limit) := rfl

end Memory

end Badger
