import Badger.Value.Basic

/-!
# Operations on values

The unary and binary operators, on operands that have been evaluated.

## Main definitions

* `Value.unary`: negation of numbers, and logical negation of anything
* `Value.binary`: the binary operators

## Design notes

There are no conversions, with one exception: `+` joins a string to any value that is no
function, and a number to a string. Operands of `and` and `or` are both evaluated before
the operator is applied.
-/

namespace Badger.Value

/-- A unary operator applied to a value. -/
def unary (op : UnaryOp) (v : Value) : Except Problem Value :=
  match op, v with
  | .not, v => .ok (.bool (!v.truthy))
  | .negate, .num x => .ok (.num (-x))
  | .negate, v => .error (.negation v.tag)
  | .other lexeme, _ => .error (.unknownUnary lexeme)

/-- A string repeated as often as a number says, if it says a natural number and the result
is not too long. -/
def repeated (s : Packed) (x : Float) : Except Problem Value :=
  match Number.toNat? x with
  | none => .error .repetitionCount
  | some n =>
    if s.isEmpty then .ok (.str .empty)
    else if maxRepetition < n * s.size then .error .repetitionSize
    else .ok (.str (s.times n))

/-- Whether two values of one type are equal; functions are not compared. -/
def equal? : Value → Value → Option Bool
  | .num x, .num y => some (x == y)
  | .str s, .str t => some (s.same t)
  | .bool a, .bool b => some (a == b)
  | _, _ => none

/-- The order of two numbers, unless one of them is no number. -/
def orderNumbers (x y : Float) : Option Ordering :=
  if x < y then some .lt
  else if y < x then some .gt
  else if x == y then some .eq
  else none

/-- The order of two numbers or two strings; `none` if these types have no order, and
`some none` for numbers that cannot be ordered. -/
def order? : Value → Value → Option (Option Ordering)
  | .num x, .num y => some (orderNumbers x y)
  | .str s, .str t => some (some (s.compare t))
  | _, _ => none

/-- A comparison: defined where the order is, and false where two numbers cannot be
ordered. -/
def comparison (test : Ordering → Bool) (l r : Value) : Option Value :=
  (order? l r).map fun o => .bool ((o.map test).getD false)

/-- A binary operator applied to two values; `none` where it is not defined. -/
def binary? (op : BinaryOp) (l r : Value) : Option (Except Problem Value) :=
  match op, l, r with
  | .add, .num x, .num y => some (.ok (.num (x + y)))
  | .add, .str _, .fxn _ => none
  | .add, .str s, r => some (.ok (.str (s.append r.packed)))
  | .add, .num x, .str t => some (.ok (.str ((Value.num x).packed.append t)))
  | .sub, .num x, .num y => some (.ok (.num (x - y)))
  | .div, .num x, .num y => some (.ok (.num (x / y)))
  | .rem, .num x, .num y => some (.ok (.num (Number.remainder x y)))
  | .mul, .num x, .num y => some (.ok (.num (x * y)))
  | .mul, .str s, .num y => some (repeated s y)
  | .and, .bool a, .bool b => some (.ok (.bool (a && b)))
  | .or, .bool a, .bool b => some (.ok (.bool (a || b)))
  | .eq, l, r => (equal? l r).map fun b => .ok (.bool b)
  | .ne, l, r => (equal? l r).map fun b => .ok (.bool (!b))
  | .gt, l, r => (comparison (· == .gt) l r).map .ok
  | .ge, l, r => (comparison (· != .lt) l r).map .ok
  | .lt, l, r => (comparison (· == .lt) l r).map .ok
  | .le, l, r => (comparison (· != .gt) l r).map .ok
  | _, _, _ => none

/-- **A binary operator applied to two values.** -/
def binary (op : BinaryOp) (l r : Value) : Except Problem Value :=
  (binary? op l r).getD (.error (.operation op.lexeme l.tag r.tag))

end Badger.Value
