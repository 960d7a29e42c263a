import Badger.Text.Basic

/-!
# Syntax trees

Programs as trees. Every node remembers the offset of one token of its text; trees can also
be built by hand, with any offsets, any operator and with nodes left out.

## Main definitions

* `UnaryOp`, `BinaryOp`: the operators of the language and, with `other`, any other text
* `DeclaredType`: the types that a declaration can ask for
* `Expr`, `Stmt`: expressions and statements
* `Expr.offset`, `Stmt.offset`: the offset of a node, `-1` for a missing one

## Design notes

`Expr.missing` and `Stmt.missing` stand for a node that is not there. A parser leaves
`Stmt.missing` where a statement could not be read; nothing else of the library builds them.
Whether an `if` has an `else` is a matter of the constructor.
-/

namespace Badger

/-- Unary operators. -/
inductive UnaryOp where
  | not
  | negate
  | other (lexeme : Text)
deriving DecidableEq, Repr

namespace UnaryOp

/-- The operator written as the given text. -/
def ofLexeme (t : Text) : UnaryOp :=
  if t = utf8 "!" then .not else if t = utf8 "-" then .negate else .other t

/-- How an operator is written. -/
def lexeme : UnaryOp → Text
  | .not => utf8 "!"
  | .negate => utf8 "-"
  | .other t => t

end UnaryOp

/-- Binary operators. -/
inductive BinaryOp where
  | add
  | sub
  | mul
  | div
  | rem
  | and
  | or
  | eq
  | ne
  | gt
  | ge
  | lt
  | le
  | other (lexeme : Text)
deriving DecidableEq, Repr

namespace BinaryOp

/-- How an operator is written; the logical operators are words. -/
def lexeme : BinaryOp → Text
  | .add => utf8 "+"
  | .sub => utf8 "-"
  | .mul => utf8 "*"
  | .div => utf8 "/"
  | .rem => utf8 "%"
  | .and => utf8 "and"
  | .or => utf8 "or"
  | .eq => utf8 "=="
  | .ne => utf8 "!="
  | .gt => utf8 ">"
  | .ge => utf8 ">="
  | .lt => utf8 "<"
  | .le => utf8 "<="
  | .other t => t

/-- The operators of the language. -/
def proper : List BinaryOp :=
  [.add, .sub, .mul, .div, .rem, .and, .or, .eq, .ne, .gt, .ge, .lt, .le]

/-- The operator written as the given text. -/
def ofLexeme (t : Text) : BinaryOp :=
  (proper.find? fun op => op.lexeme = t).getD (.other t)

end BinaryOp

/-- The type that a variable declaration asks for. -/
inductive DeclaredType where
  | num
  | str
  | bool
  | any
  | other (name : Text)
deriving DecidableEq, Repr

namespace DeclaredType

/-- How a type is written. -/
def name : DeclaredType → Text
  | .num => utf8 "num"
  | .str => utf8 "str"
  | .bool => utf8 "bool"
  | .any => utf8 "var"
  | .other t => t

/-- The type written as the given text. -/
def ofName (t : Text) : DeclaredType :=
  if t = utf8 "num" then .num
  else if t = utf8 "str" then .str
  else if t = utf8 "bool" then .bool
  else if t = utf8 "var" then .any
  else .other t

end DeclaredType

/-- **Expressions.** -/
inductive Expr where
  /-- A node that is not there. -/
  | missing
  /-- A numeral. -/
  | num (pos : Int) (value : Float)
  /-- A string literal. -/
  | str (pos : Int) (value : Text)
  /-- `true` or `false`. -/
  | bool (pos : Int) (value : Bool)
  /-- A name. -/
  | ident (pos : Int) (name : Text)
  /-- A name after `@`, which denotes the same as the name. -/
  | symbol (pos : Int) (name : Text)
  /-- A unary operator; `pos` is the operator's. -/
  | unary (pos : Int) (op : UnaryOp) (operand : Expr)
  /-- A binary operator; `pos` is the operator's. -/
  | binary (pos : Int) (op : BinaryOp) (left right : Expr)
  /-- An expression in parentheses. -/
  | group (pos : Int) (inner : Expr)
  /-- An assignment to a name. -/
  | assign (pos : Int) (name : Text) (value : Expr)
  /-- A call; `pos` is that of the opening parenthesis. -/
  | call (pos : Int) (callee : Expr) (args : List Expr)

/-- **Statements.** -/
inductive Stmt where
  /-- A node that is not there. -/
  | missing
  /-- An expression and a semicolon. -/
  | expr (pos : Int) (e : Expr)
  /-- A return with its value. -/
  | ret (pos : Int) (value : Expr)
  /-- Statements in braces. -/
  | block (pos : Int) (body : List Stmt)
  /-- A variable declaration; `pos` is the name's. -/
  | declare (pos : Int) (type : DeclaredType) (name : Text) (init : Expr)
  /-- A conditional without `else`. -/
  | ifThen (pos : Int) (cond : Expr) (yes : Stmt)
  /-- A conditional with `else`. -/
  | ifElse (pos : Int) (cond : Expr) (yes no : Stmt)
  /-- A loop. -/
  | loop (pos : Int) (cond : Expr) (body : Stmt)
  /-- A function declaration; `pos` is the name's. -/
  | fxn (pos : Int) (name : Text) (params : List Text) (body : List Stmt)

instance : Inhabited Expr := ⟨.missing⟩

instance : Inhabited Stmt := ⟨.missing⟩

/-- The offset of a missing node. -/
def missingOffset : Int := -1

/-- The offset of an expression. -/
def Expr.offset : Expr → Int
  | .missing => missingOffset
  | .num pos _ | .str pos _ | .bool pos _ | .ident pos _ | .symbol pos _ => pos
  | .unary pos _ _ | .binary pos _ _ _ | .group pos _ | .assign pos _ _ | .call pos _ _ => pos

/-- The offset of a statement. -/
def Stmt.offset : Stmt → Int
  | .missing => missingOffset
  | .expr pos _ | .ret pos _ | .block pos _ | .declare pos _ _ _ => pos
  | .ifThen pos _ _ | .ifElse pos _ _ _ | .loop pos _ _ | .fxn pos _ _ _ => pos

/-- Whether a statement is missing. -/
def Stmt.isMissing : Stmt → Bool
  | .missing => true
  | _ => false

end Badger
