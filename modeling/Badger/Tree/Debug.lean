import Badger.Number.Decimal
import Badger.Text.Quoted
import Badger.Tree.Basic

/-!
# The debug form of a tree

A tree written out with the names of its nodes, on one line and without offsets.

## Main definitions

* `Expr.debugOnto`, `Stmt.debugOnto`: the debug form in front of a text
* `Expr.debug`, `Stmt.debug`: the debug form

## Design notes

Every part is written in front of what follows it, so that no text is copied however deep a
tree is.
-/

namespace Badger

/-- A node in front of a text: its name and, in parentheses, what it holds. -/
def debugNode (name : String) (inside : Text → Text) (tail : Text) : Text :=
  utf8 name ++ utf8 "(" ++ inside (utf8 ")" ++ tail)

/-- What is written for a missing node. -/
def debugMissing : Text := utf8 "<error>"

mutual

/-- **The debug form of an expression**, in front of a text. -/
def Expr.debugOnto (tail : Text) : Expr → Text
  | .missing => debugMissing ++ tail
  | .num _ value => debugNode "Number" (Number.toText value ++ ·) tail
  | .str _ value => debugNode "String" (Quoted.text value ++ ·) tail
  | .bool _ value => debugNode "Bool" (utf8 (if value then "true" else "false") ++ ·) tail
  | .ident _ name => debugNode "Ident" (name ++ ·) tail
  | .symbol _ name => debugNode "Symbol" (utf8 "@" ++ name ++ ·) tail
  | .unary _ op operand =>
    debugNode "Unary" (fun t => op.lexeme ++ utf8 " " ++ operand.debugOnto t) tail
  | .binary _ op left right =>
    debugNode "Binary"
      (fun t => left.debugOnto (utf8 " " ++ op.lexeme ++ utf8 " " ++ right.debugOnto t)) tail
  | .group _ inner => debugNode "Group" (fun t => inner.debugOnto t) tail
  | .assign _ name value =>
    debugNode "Assign" (fun t => name ++ utf8 " = " ++ value.debugOnto t) tail
  | .call _ callee args =>
    debugNode "Call"
      (fun t => callee.debugOnto (utf8 ", [" ++ Expr.debugListOnto true (utf8 "]" ++ t) args)) tail

/-- The debug forms of a list of expressions, with commas between, in front of a text. -/
def Expr.debugListOnto (isFirst : Bool) (tail : Text) : List Expr → Text
  | [] => tail
  | e :: es =>
    utf8 (if isFirst then "" else ", ") ++ e.debugOnto (Expr.debugListOnto false tail es)

end

mutual

/-- **The debug form of a statement**, in front of a text. -/
def Stmt.debugOnto (tail : Text) : Stmt → Text
  | .missing => debugMissing ++ tail
  | .expr _ e => debugNode "ExprStmt" (fun t => e.debugOnto t) tail
  | .ret _ value => debugNode "Return" (fun t => value.debugOnto t) tail
  | .block _ body =>
    debugNode "Block" (fun t => utf8 "[" ++ Stmt.debugListOnto true (utf8 "]" ++ t) body) tail
  | .declare _ type name init =>
    debugNode "VarDecl"
      (fun t => type.name ++ utf8 " " ++ name ++ utf8 " = " ++ init.debugOnto t) tail
  | .ifThen _ cond yes =>
    debugNode "If" (fun t => cond.debugOnto (utf8 ", " ++ yes.debugOnto t)) tail
  | .ifElse _ cond yes no =>
    debugNode "If"
      (fun t => cond.debugOnto (utf8 ", " ++ yes.debugOnto (utf8 ", else " ++ no.debugOnto t))) tail
  | .loop _ cond body =>
    debugNode "While" (fun t => cond.debugOnto (utf8 ", " ++ body.debugOnto t)) tail
  | .fxn _ name params body =>
    debugNode "Fxn"
      (fun t => name ++ utf8 "(" ++ Text.join (utf8 ", ") params ++ utf8 "), [" ++
        Stmt.debugListOnto true (utf8 "]" ++ t) body) tail

/-- The debug forms of a list of statements, with semicolons between, in front of a text. -/
def Stmt.debugListOnto (isFirst : Bool) (tail : Text) : List Stmt → Text
  | [] => tail
  | s :: ss =>
    utf8 (if isFirst then "" else "; ") ++ s.debugOnto (Stmt.debugListOnto false tail ss)

end

/-- **The debug form of an expression.** -/
def Expr.debug (e : Expr) : Text := e.debugOnto []

/-- **The debug form of a statement.** -/
def Stmt.debug (s : Stmt) : Text := s.debugOnto []

end Badger
