import Badger.Listing.Instr
import Badger.Source.Diagnostic

/-!
# Lowering

From trees to instruction listings. An expression becomes the instructions that compute it
and the operand that holds its value afterwards; conditionals and loops become jumps.

## Main definitions

* `Emit`: instructions in the making, with the next free temporary and label
* `Lower.expr`, `Lower.stmt`: the instructions of an expression and of a statement
* `Listing.ofStmts`: the listing of a program

## Design notes

Missing statements of a list are passed over; a missing node anywhere else has no
instructions, and neither has a function inside a function.
-/

namespace Badger

/-- The next free temporary and the next free label. -/
structure Fresh where
  temp : Nat := 0
  label : Nat := 0
deriving DecidableEq, Repr

/-- **Instructions in the making**: a result, the instructions for it and what is free
after them, or the first finding. -/
def Emit (α : Type) : Type := Fresh → Except Finding (α × List Instr × Fresh)

namespace Emit

instance : Monad Emit where
  pure a := fun k => .ok (a, [], k)
  bind x f := fun k =>
    match x k with
    | .error e => .error e
    | .ok (a, code, k) =>
      match f a k with
      | .error e => .error e
      | .ok (b, more, k) => .ok (b, code ++ more, k)

/-- One instruction. -/
def instr (i : Instr) : Emit Unit := fun k => .ok ((), [i], k)

/-- A free temporary. -/
def temp : Emit Nat := fun k => .ok (k.temp, [], { k with temp := k.temp + 1 })

/-- A free label. -/
def label : Emit Nat := fun k => .ok (k.label, [], { k with label := k.label + 1 })

/-- Fails with a problem at an offset. -/
def fail {α : Type} (problem : Problem) (offset : Int) : Emit α :=
  fun _ => .error ⟨problem, offset⟩

/-- One instruction for each element of a list. -/
def each {α : Type} (f : α → Instr) : List α → Emit Unit
  | [] => pure ()
  | a :: as => do
    instr (f a)
    each f as

/-- Reads a variable into a free temporary. -/
def load (name : Text) : Emit Operand := do
  let t ← temp
  instr (.load t name)
  pure (.temp t)

end Emit

namespace Lower

mutual

/-- **The instructions of an expression**, and the operand that holds its value. -/
def expr : Expr → Emit Operand
  | .missing => Emit.fail .lowerMissing missingOffset
  | .num _ value => pure (.num value)
  | .str _ value => pure (.str value)
  | .bool _ value => pure (.bool value)
  | .ident _ name => Emit.load name
  | .symbol _ name => Emit.load name
  | .group _ inner => expr inner
  | .assign _ name value => do
    let v ← expr value
    Emit.instr (.store name v)
    pure v
  | .unary pos op operand => do
    let v ← expr operand
    if op.mnemonic?.isNone then Emit.fail .lowerUnary pos
    else
      let t ← Emit.temp
      Emit.instr (.unary t op v)
      pure (.temp t)
  | .binary pos op left right => do
    let l ← expr left
    let r ← expr right
    if op.mnemonic?.isNone then Emit.fail .lowerBinary pos
    else
      let t ← Emit.temp
      Emit.instr (.binary t op l r)
      pure (.temp t)
  | .call _ callee arguments => do
    let target ← match callee with
      | .ident _ name => pure (Target.named name)
      | other => do
        let c ← expr other
        pure (Target.computed c)
    let vs ← args arguments
    Emit.each .param vs
    let t ← Emit.temp
    Emit.instr (.call t target vs.length)
    pure (.temp t)

/-- The instructions of arguments, from left to right, and their operands. -/
def args : List Expr → Emit (List Operand)
  | [] => pure []
  | e :: es => do
    let v ← expr e
    let vs ← args es
    pure (v :: vs)

end

mutual

/-- **The instructions of a statement**; `inside` tells whether it stands in the body of a
function. -/
def stmt (inside : Bool) : Stmt → Emit Unit
  | .missing => Emit.fail .lowerMissing missingOffset
  | .expr _ e => do
    let _ ← expr e
    pure ()
  | .ret _ value => do
    let v ← expr value
    Emit.instr (.print v)
    Emit.instr (.ret v)
  | .declare _ _ name init => do
    let v ← expr init
    Emit.instr (.declare name)
    Emit.instr (.store name v)
  | .block _ body => stmts inside body
  | .ifThen _ cond yes => do
    let c ← expr cond
    let after ← Emit.label
    Emit.instr (.jumpUnless c after)
    stmt inside yes
    Emit.instr (.label after)
  | .ifElse _ cond yes no => do
    let c ← expr cond
    let otherwise ← Emit.label
    Emit.instr (.jumpUnless c otherwise)
    stmt inside yes
    let after ← Emit.label
    Emit.instr (.jump after)
    Emit.instr (.label otherwise)
    stmt inside no
    Emit.instr (.label after)
  | .loop _ cond body => do
    let top ← Emit.label
    let after ← Emit.label
    Emit.instr (.label top)
    let c ← expr cond
    Emit.instr (.jumpUnless c after)
    stmt inside body
    Emit.instr (.jump top)
    Emit.instr (.label after)
  | .fxn pos name params body =>
    if inside then Emit.fail (.lowerNested name) pos
    else do
      Emit.instr (.func name)
      Emit.each .arg params
      stmts true body
      Emit.instr .endFunc

/-- The instructions of the statements of a list that are not missing. -/
def stmts (inside : Bool) : List Stmt → Emit Unit
  | [] => pure ()
  | .missing :: rest => stmts inside rest
  | s :: rest => do
    stmt inside s
    stmts inside rest

end

end Lower

namespace Listing

/-- The instructions of a program, ended by `stop`. -/
def program (body : List Stmt) : Emit Unit := do
  Lower.stmts false body
  Emit.instr .stop

/-- **The listing of a program**, or what keeps it from having one. -/
def ofStmts (body : List Stmt) (lines : LineTable) : Except Diagnostic (List Instr) :=
  match program body {} with
  | .ok (_, code, _) => .ok code
  | .error e => .error (e.diagnostic lines)

end Listing

end Badger
