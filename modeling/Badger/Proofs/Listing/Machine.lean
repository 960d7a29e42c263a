import Mathlib.Logic.Relation
import Badger.Listing.Lowering
import Badger.Session.Run

/-!
# Executing listings

What a listing does. A machine executes it line by line: it goes on with the next line unless the
line is a jump, a call or a return, and it stops at `end` and at a return outside every call.

## Main definitions

* `Machine.State`: where the machine is, its variables and temporaries, and what it wrote
* `Machine.exec`, `Machine.step`: what one line does
* `Machine.State.isDone`: where the machine stops
* `Machine.run`: executing a listing from a state
* `Machine.Step`, `Machine.Steps`: the same as a relation

## Main statements

* `run_eq_some_iff`: a run is a sequence of steps to a place where the machine stops
* `run_unique`: a listing has at most one result

## Design notes

There are two scopes, that of the call that is active and the global one; a listing does not tell
where a block begins or ends. A declaration is two lines, of which the first leaves the variable
without a value. Temporaries belong to the call.

A function that ends without a return gives the value of its last statement, for which there is no
line. So the machine keeps the value of the statement before, which is that of the last line that
computed something, and across the test of a loop that of the round before. Nothing but `endfunc`
looks at it.

A function is a value that knows its name, its parameters and the line at which its body begins,
which stands in the place of a scope.
-/

namespace Badger

/-- The label that a line carries. -/
def Instr.marked? : Instr → Option Nat
  | .label n => some n
  | _ => none

namespace Machine

/-- Variables and their values, the latest declaration first. A variable has no value between the
line that declares it and the line that sets it. -/
abbrev Variables := List (Text × Option Value)

/-- The variables after an assignment to one of them, and the value of the assignment as a
statement: setting a variable for the first time is part of its declaration, which has none. -/
def assign? (name : Text) (v : Value) : Variables → Option (Variables × Value)
  | [] => none
  | (n, old) :: rest =>
    if n = name then some ((n, some v) :: rest, if old.isSome then v else .empty)
    else (assign? name v rest).map fun (rest, last) => ((n, old) :: rest, last)

/-- What belongs to a call, or to the program outside every call. -/
structure Frame where
  /-- The temporaries. -/
  temps : Nat → Option Value := fun _ => none
  /-- The variables of a call; none outside every call, where variables are global. -/
  locals : Option Variables := none
  /-- The value of the statement before. -/
  last : Value := .empty
  /-- While a loop is tested again, the value of the round before. -/
  round : Option Value := none

/-- A call that waits for another one: the line to go on with and the temporary for the result. -/
structure Caller where
  line : Nat
  dest : Nat
  frame : Frame

/-- **States of the machine.** -/
structure State where
  /-- The line to be executed. -/
  line : Nat := 0
  frame : Frame := {}
  /-- The arguments passed so far, the latest first. -/
  params : List Value := []
  /-- The calls that wait, the innermost first. -/
  callers : List Caller := []
  globals : Variables := []
  output : Text := []

/-- At the first line, with nothing declared but the provided functions. -/
def start : State where
  globals := Session.provided.map fun b => (b.1, some b.2)

/-- A function as a value of the machine. -/
def function (name : Text) (params : List Text) (line : Nat) : Value :=
  .fxn (.custom (.declared name params [] line {}))

/-- The line with a label. -/
def lineOf? (code : List Instr) (n : Nat) : Option Nat :=
  code.findIdx? fun i => i.marked? == some n

namespace State

/-- Goes on with the next line. -/
def next (σ : State) : State := { σ with line := σ.line + 1 }

/-- The value of a variable. -/
def lookup (σ : State) (name : Text) : Option Value :=
  match σ.frame.locals.bind (·.lookup name) with
  | some v => v
  | none => (σ.globals.lookup name).join

/-- The value of an operand. -/
def value (σ : State) : Operand → Option Value
  | .num x => some (.num x)
  | .str t => some (.str (.ofText t))
  | .bool b => some (.bool b)
  | .temp n => σ.frame.temps n

/-- What is called. -/
def callee (σ : State) : Target → Option Value
  | .named name => σ.lookup name
  | .computed o => σ.value o

/-- Puts a value into a temporary. -/
def produce (σ : State) (dest : Nat) (v : Value) : State :=
  { σ with frame :=
    { σ.frame with temps := fun n => if n = dest then some v else σ.frame.temps n, last := v } }

/-- Declares a variable without giving it a value. -/
def declare (σ : State) (name : Text) : State :=
  match σ.frame.locals with
  | some vars => { σ with frame := { σ.frame with locals := some ((name, none) :: vars) } }
  | none => { σ with globals := (name, none) :: σ.globals }

/-- Sets a variable: that of the call, or else the global one. -/
def assign (σ : State) (name : Text) (v : Value) : Option State :=
  match σ.frame.locals.bind (assign? name v) with
  | some (vars, last) =>
    some { σ with frame := { σ.frame with locals := some vars, last := last } }
  | none =>
    (assign? name v σ.globals).map fun (vars, last) =>
      { σ with globals := vars, frame := { σ.frame with last := last } }

/-- Writes a text. -/
def write (σ : State) (t : Text) : State := { σ with output := σ.output ++ t }

/-- Goes back to the line after the call with its value. Outside every call there is nothing to go
back to. -/
def leave (σ : State) (v : Value) : Option State :=
  match σ.callers with
  | [] => none
  | c :: rest =>
    some (produce { σ with line := c.line, frame := c.frame, callers := rest } c.dest v)

/-- Enters the body of a function. -/
def enter (σ : State) (dest : Nat) (c : Closure) (args : List Value) : State :=
  { σ with
    line := c.scope
    frame := { locals := some ((c.params.zip args).reverse.map fun b => (b.1, some b.2)) }
    callers := ⟨σ.line + 1, dest, σ.frame⟩ :: σ.callers }

/-- A provided function applied to its arguments. -/
def native (σ : State) (n : Native) (args : List Value) : State :=
  match n, args with
  | .print, v :: _ => σ.write v.text
  | .println, v :: _ => σ.write (v.text ++ [Text.newline])
  | _, _ => σ

/-- Calls a value that is a function, with as many arguments as it takes. -/
def call (σ : State) (dest : Nat) (f : Value) (args : List Value) : Option State :=
  match f with
  | .fxn .unassigned => some (σ.produce dest .empty).next
  | .fxn (.native n) =>
    if n.arity = args.length then some ((σ.native n args).produce dest .empty).next else none
  | .fxn (.custom c) =>
    if c.params.length = args.length then some (σ.enter dest c args) else none
  | _ => none

/-- Goes to the line with a label. Going back ends a round of a loop. -/
def goto (code : List Instr) (σ : State) (n : Nat) : Option State :=
  (lineOf? code n).map fun line =>
    { σ with
      line := line
      frame :=
        { σ.frame with round := if line ≤ σ.line then some σ.frame.last else σ.frame.round } }

/-- Decides a test: where a loop ends, the value is that of its last round. -/
def decided (σ : State) (holds : Bool) : State :=
  { σ with frame :=
    { σ.frame with
      last := if holds then .empty else σ.frame.round.getD .empty
      round := none } }

end State

/-- The parameters at the front of the body of a function. -/
def parameters : List Instr → List Text
  | .arg name :: rest => name :: parameters rest
  | _ => []

/-- The number of lines to the end of the body of a function, that one included. -/
def bodyLength : List Instr → Nat
  | [] => 0
  | .endFunc :: _ => 1
  | _ :: rest => bodyLength rest + 1

/-- **What a line does.** -/
def exec (code : List Instr) : Instr → State → Option State
  | .load dest name, σ => do
    let v ← σ.lookup name
    return (σ.produce dest v).next
  | .store name source, σ => do
    let v ← σ.value source
    let σ ← σ.assign name v
    return σ.next
  | .unary dest op operand, σ => do
    let v ← σ.value operand
    let w ← (Value.unary op v).toOption
    return (σ.produce dest w).next
  | .binary dest op left right, σ => do
    let l ← σ.value left
    let r ← σ.value right
    let w ← (Value.binary op l r).toOption
    return (σ.produce dest w).next
  | .param source, σ => do
    let v ← σ.value source
    return State.next { σ with params := v :: σ.params }
  | .call dest target count, σ => do
    let f ← σ.callee target
    if σ.params.length < count then none
    else
      let args := (σ.params.take count).reverse
      State.call { σ with params := σ.params.drop count } dest f args
  | .declare name, σ => some (σ.declare name).next
  | .print source, σ => do
    let v ← σ.value source
    return (σ.write (v.text ++ [Text.newline])).next
  | .ret source, σ => do
    let v ← σ.value source
    σ.leave v
  | .label _, σ => some σ.next
  | .jump n, σ => σ.goto code n
  | .jumpUnless cond n, σ => do
    let c ← σ.value cond
    if c.truthy then return (σ.decided true).next else (σ.decided false).goto code n
  | .func name, σ => do
    let body := code.drop (σ.line + 1)
    let params := parameters body
    let σ ← (σ.declare name).assign name (function name params (σ.line + 1 + params.length))
    return { σ with line := σ.line + 1 + bodyLength body }
  | .arg _, _ => none
  | .endFunc, σ => σ.leave σ.frame.last
  | .stop, _ => none

/-- Executes the line at which the machine is, if the machine can. -/
def step (code : List Instr) (σ : State) : Option State :=
  code[σ.line]?.bind fun i => exec code i σ

/-- **Where the machine stops**: at the end, and at a return outside every call. -/
def State.isDone (code : List Instr) (σ : State) : Bool :=
  match code[σ.line]? with
  | some .stop => true
  | some (.ret _) => σ.callers.isEmpty
  | _ => false

/-- **Executes a listing** from a state, for at most so many lines, until the machine stops. -/
def run (code : List Instr) : Nat → State → Option State
  | 0, _ => none
  | n + 1, σ => if σ.isDone code then some σ else (step code σ).bind (run code n)

/-- One line is executed. -/
def Step (code : List Instr) (σ σ' : State) : Prop := step code σ = some σ'

/-- Lines are executed one after the other. -/
def Steps (code : List Instr) : State → State → Prop := Relation.ReflTransGen (Step code)

variable {code : List Instr}

/-- The machine does not go on from where it stops. -/
theorem step_eq_none_of_isDone {σ : State} (h : σ.isDone code = true) : step code σ = none := by
  unfold State.isDone at h
  unfold step
  split at h
  · next hline => simp [hline, exec]
  · next source hline =>
      rw [hline, Option.bind_some, exec]
      cases σ.value source with
      | none => rfl
      | some v => simp [State.leave, List.isEmpty_iff.mp h]
  · cases h

/-- **A run is a sequence of steps** to a place where the machine stops. -/
theorem run_eq_some_iff {σ τ : State} :
    (∃ n, run code n σ = some τ) ↔ Steps code σ τ ∧ τ.isDone code = true := by
  constructor
  · rintro ⟨n, h⟩
    induction n generalizing σ with
    | zero => cases h
    | succ n ih =>
        rw [run] at h
        split at h
        · next hdone =>
            obtain rfl := Option.some.inj h
            exact ⟨.refl, hdone⟩
        · obtain ⟨σ', hstep, hrun⟩ := Option.bind_eq_some_iff.mp h
          obtain ⟨hsteps, hdone⟩ := ih hrun
          exact ⟨.head hstep hsteps, hdone⟩
  · rintro ⟨hsteps, hdone⟩
    induction hsteps using Relation.ReflTransGen.head_induction_on with
    | refl => exact ⟨1, by rw [run, if_pos hdone]⟩
    | @head σ σ' hstep _ ih =>
        obtain ⟨n, hrun⟩ := ih
        have hgoes : σ.isDone code ≠ true := by
          intro hσ
          have hnone := step_eq_none_of_isDone hσ
          rw [show step code σ = some σ' from hstep] at hnone
          cases hnone
        refine ⟨n + 1, ?_⟩
        rw [run, if_neg hgoes, show step code σ = some σ' from hstep]
        exact hrun

/-- **A listing has at most one result.** -/
theorem run_unique {n m : Nat} {σ τ τ' : State} (h : run code n σ = some τ)
    (h' : run code m σ = some τ') : τ' = τ := by
  induction n generalizing m σ with
  | zero => cases h
  | succ n ih =>
      cases m with
      | zero => cases h'
      | succ m =>
          rw [run] at h h'
          split at h
          · next hdone =>
              rw [if_pos hdone] at h'
              exact Option.some.inj (h'.symm.trans h)
          · next hgoes =>
              rw [if_neg hgoes] at h'
              obtain ⟨σ', hstep, hrun⟩ := Option.bind_eq_some_iff.mp h
              rw [hstep] at h'
              exact ih hrun h'

end Machine

end Badger
