import Badger.Number.Decimal
import Badger.Problem
import Badger.Source.Chunk
import Badger.Text.Packed
import Badger.Tree.Basic

/-!
# Values

What expressions evaluate to: numbers, strings, truth values and functions.

## Main definitions

* `Closure`: a declared function with the scope and the chunk of its declaration
* `Closure.declared`: the closure of a declaration
* `Native`: a function that the language provides
* `Callable`, `Value`: functions and values
* `Value.tag`: the type of a value
* `Value.packed`, `Value.text`: what is printed for a value
* `Value.truthy`: how a value counts as a condition
-/

namespace Badger

/-- Scopes are numbered in the order of their creation. -/
abbrev ScopeId := Nat

/-- **A closure.** A declared function: it is called with `arity` arguments, its body runs in
a new scope inside `scope`, and problems found in it are placed in `chunk`. -/
structure Closure where
  name : Text
  arity : Nat
  params : List Text
  body : List Stmt
  scope : ScopeId
  chunk : Chunk

namespace Closure

variable (name : Text) (params : List Text) (body : List Stmt) (scope : ScopeId) (chunk : Chunk)

/-- **The closure of a declaration**, which is called with an argument for each parameter. -/
def declared : Closure where
  name := name
  arity := params.length
  params := params
  body := body
  scope := scope
  chunk := chunk

@[simp] theorem params_declared : (declared name params body scope chunk).params = params := rfl

@[simp] theorem body_declared : (declared name params body scope chunk).body = body := rfl

end Closure

/-- A function that the language provides. An `inert` one takes no argument and does
nothing. -/
inductive Native where
  | print
  | println
  | inert (name : Text)
deriving DecidableEq, Repr

namespace Native

/-- The name of a provided function. -/
def name : Native → Text
  | .print => utf8 "print"
  | .println => utf8 "println"
  | .inert name => name

/-- The number of arguments of a provided function. -/
def arity : Native → Nat
  | .print | .println => 1
  | .inert _ => 0

end Native

/-- Functions: a provided one, a declared one, or none at all. -/
inductive Callable where
  | unassigned
  | native (n : Native)
  | custom (c : Closure)

namespace Callable

/-- What is printed for a function. -/
def text : Callable → Text
  | .unassigned => utf8 "<none>"
  | .native n => utf8 "<native " ++ n.name ++ utf8 ">"
  | .custom c => utf8 "<fxn " ++ c.name ++ utf8 ">"

/-- Whether there is a function. -/
def isAssigned : Callable → Bool
  | .unassigned => false
  | _ => true

/-- The number of arguments that a function takes. -/
def arity? : Callable → Option Nat
  | .unassigned => none
  | .native n => some n.arity
  | .custom c => some c.arity

end Callable

/-- **Values.** -/
inductive Value where
  | num (x : Float)
  | str (s : Packed)
  | bool (b : Bool)
  | fxn (f : Callable)

namespace Value

/-- What statements evaluate to that have no value of their own. -/
def empty : Value := .num 0

/-- The type of a value. -/
def tag : Value → Tag
  | .num _ => .num
  | .str _ => .str
  | .bool _ => .bool
  | .fxn _ => .fxn

/-- What is printed for a truth value. -/
def boolText (b : Bool) : Text := utf8 (if b then "true" else "false")

/-- **What is printed for a value**, in packed form. -/
def packed : Value → Packed
  | .num x => .ofText (Number.toText x)
  | .str s => s
  | .bool b => .ofText (boolText b)
  | .fxn f => .ofText f.text

/-- What is printed for a value. -/
def text (v : Value) : Text := v.packed.toText

/-- What is shown for a value when variables are listed: strings are quoted. -/
def display : Value → Text
  | .str s => Quoted.text s.toText
  | v => v.text

/-- **Truth.** A number counts as true if it is positive, a string if it is not empty, and
a function if there is one. -/
def truthy : Value → Bool
  | .num x => 0 < x
  | .str s => !s.isEmpty
  | .bool b => b
  | .fxn f => f.isAssigned

/-- Whether a value is a declared function. -/
def isCustom : Value → Bool
  | .fxn (.custom _) => true
  | _ => false

end Value

/-- Whether a declaration that asks for this type takes a value of the given type. -/
def DeclaredType.admits : DeclaredType → Tag → Bool
  | .num, t => t = .num
  | .str, t => t = .str
  | .bool, t => t = .bool
  | .any, _ => true
  | .other _, _ => true

end Badger
