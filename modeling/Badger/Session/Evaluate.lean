import Badger.Session.Basic
import Badger.Value.Operation

/-!
# Evaluation

The meaning of expressions and statements.

## Main definitions

* `Eval.expr`, `Eval.args`: expressions, and arguments from left to right
* `Eval.stmt`, `Eval.block`, `Eval.loop`: statements
* `Eval.apply`: calls

## Design notes

Loops and recursive functions need not end, so every function counts down a step budget;
`Outcome.outOfFuel` tells that it was too small. A block opens a scope of its own; the
branches of a conditional and the body of a loop do not unless they are blocks. A function
runs in a scope inside the scope of its declaration, and its value is that of its return or
else of its last statement.
-/

namespace Badger.Eval

/-- A provided function applied to its arguments. -/
def native (n : Native) (args : List Value) : Run Value := do
  match n, args with
  | .print, v :: _ => Run.write (.printed v.text)
  | .println, v :: _ => Run.write (.printed (v.text ++ [Text.newline]))
  | _, _ => pure ()
  pure .empty

/-- Declares the parameters of a call in its scope; a repeated name fails at the call. -/
def bindParams (scope : ScopeId) (offset : Int) : List Text → List Value → Run Unit
  | name :: names, v :: vs => do
    Run.declareName scope name v offset
    bindParams scope offset names vs
  | _, _ => pure ()

mutual

/-- **The value of an expression** in a scope. -/
def expr : Nat → Expr → ScopeId → Run Value
  | 0, _, _ => Run.exhausted
  | fuel + 1, e, scope =>
    match e with
    | .missing => pure .empty
    | .num _ value => pure (.num value)
    | .str _ value => pure (.str (.ofText value))
    | .bool _ value => pure (.bool value)
    | .ident pos name => Run.getName scope name pos
    | .symbol pos name => Run.getName scope name pos
    | .group _ inner => expr fuel inner scope
    | .assign pos name value => do
      let v ← expr fuel value scope
      Run.setName scope name v pos
      pure v
    | .unary pos op operand => do
      let v ← expr fuel operand scope
      Run.liftValue pos (Value.unary op v)
    | .binary pos op left right => do
      let l ← expr fuel left scope
      let r ← expr fuel right scope
      Run.liftValue pos (Value.binary op l r)
    | .call pos callee arguments => do
      let f ← expr fuel callee scope
      let vs ← args fuel arguments scope
      match f with
      | .fxn f =>
        match f.arity? with
        | some n =>
          if vs.length = n then apply fuel f vs pos else Run.raise (.arity n vs.length) pos
        | none => apply fuel f vs pos
      | _ => Run.raise .notCallable pos
termination_by structural fuel => fuel

/-- The values of arguments, from left to right. -/
def args : Nat → List Expr → ScopeId → Run (List Value)
  | 0, _, _ => Run.exhausted
  | _ + 1, [], _ => pure []
  | fuel + 1, e :: es, scope => do
    let v ← expr fuel e scope
    let vs ← args fuel es scope
    pure (v :: vs)
termination_by structural fuel => fuel

/-- **A call** of a function with as many arguments as it takes, made at an offset. -/
def apply : Nat → Callable → List Value → Int → Run Value
  | 0, _, _, _ => Run.exhausted
  | fuel + 1, f, vs, pos =>
    match f with
    | .unassigned => pure .empty
    | .native n => native n vs
    | .custom c => do
      Run.guardCalls pos
      let scope ← Run.openScope c.scope
      bindParams scope pos c.params vs
      Run.within c (Run.catchReturn (block fuel c.body scope .empty))
termination_by structural fuel => fuel

/-- **Runs a statement** in a scope. -/
def stmt : Nat → Stmt → ScopeId → Run Value
  | 0, _, _ => Run.exhausted
  | fuel + 1, st, scope =>
    match st with
    | .missing => pure .empty
    | .expr _ e => expr fuel e scope
    | .ret _ value => do
      let v ← expr fuel value scope
      Run.echo v
      Run.returns v
    | .block _ body => do
      let inner ← Run.openScope scope
      block fuel body inner .empty
    | .declare pos type name init => do
      let v ← expr fuel init scope
      if type.admits v.tag then
        Run.declareName scope name v pos
        pure .empty
      else Run.raise (.unexpectedType v.tag) pos
    | .ifThen _ cond yes => do
      let c ← expr fuel cond scope
      if c.truthy then stmt fuel yes scope else pure .empty
    | .ifElse _ cond yes no => do
      let c ← expr fuel cond scope
      if c.truthy then stmt fuel yes scope else stmt fuel no scope
    | .loop _ cond body => loop fuel cond body scope .empty
    | .fxn pos name params body => do
      let chunk ← Run.activeChunk
      Run.declareName scope name (.fxn (.custom (.declared name params body scope chunk))) pos
      pure .empty
termination_by structural fuel => fuel

/-- Runs statements one after the other in a scope; the value is that of the last one, or
`last` if there is none. Missing statements are passed over. -/
def block : Nat → List Stmt → ScopeId → Value → Run Value
  | 0, _, _, _ => Run.exhausted
  | _ + 1, [], _, last => pure last
  | fuel + 1, st :: rest, scope, last =>
    if st.isMissing then block fuel rest scope last
    else do
      let v ← stmt fuel st scope
      block fuel rest scope v
termination_by structural fuel => fuel

/-- A loop: runs the body as long as the condition holds; the value is that of the last
round, or `last` if there is none. -/
def loop : Nat → Expr → Stmt → ScopeId → Value → Run Value
  | 0, _, _, _, _ => Run.exhausted
  | fuel + 1, cond, body, scope, last => do
    let c ← expr fuel cond scope
    if c.truthy then
      let v ← stmt fuel body scope
      loop fuel cond body scope v
    else pure last
termination_by structural fuel => fuel

end

end Badger.Eval
