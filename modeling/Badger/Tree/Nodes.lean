import Badger.Tree.Basic

/-!
# The nodes of a tree

All nodes of a tree from the root down, each with its kind and offset. A node comes before
what it holds, and what it holds comes in the order of the text.

## Main definitions

* `Node`: kind and offset of a node
* `Expr.nodesOnto`, `Stmt.nodesOnto`: the nodes of a tree in front of a list
* `Expr.nodes`, `Stmt.nodes`: the nodes of a tree
-/

namespace Badger

/-- The kind and the offset of a node of a tree. -/
structure Node where
  kind : String
  offset : Int
deriving DecidableEq, Repr

/-- The name of an expression's kind. -/
def Expr.kind : Expr → String
  | .missing => "nil"
  | .num _ _ => "NumberLiteral"
  | .str _ _ => "StringLiteral"
  | .bool _ _ => "BoolLiteral"
  | .ident _ _ => "Identifier"
  | .symbol _ _ => "SpecialSymbol"
  | .unary _ _ _ => "UnaryExpr"
  | .binary _ _ _ _ => "BinaryExpr"
  | .group _ _ => "GroupExpr"
  | .assign _ _ _ => "AssignExpr"
  | .call _ _ _ => "CallExpr"

/-- The name of a statement's kind. -/
def Stmt.kind : Stmt → String
  | .missing => "nil"
  | .expr _ _ => "ExprStmt"
  | .ret _ _ => "ReturnStmt"
  | .block _ _ => "BlockStmt"
  | .declare _ _ _ _ => "VarDecl"
  | .ifThen _ _ _ | .ifElse _ _ _ _ => "IfStmt"
  | .loop _ _ _ => "WhileStmt"
  | .fxn _ _ _ _ => "FxnDecl"

/-- The node at the root of an expression. -/
def Expr.node (e : Expr) : Node := ⟨e.kind, e.offset⟩

/-- The node at the root of a statement. -/
def Stmt.node (s : Stmt) : Node := ⟨s.kind, s.offset⟩

mutual

/-- **The nodes of an expression**, the root first, in front of a list. -/
def Expr.nodesOnto (tail : List Node) (e : Expr) : List Node :=
  e.node ::
    match e with
    | .missing | .num _ _ | .str _ _ | .bool _ _ | .ident _ _ | .symbol _ _ => tail
    | .unary _ _ operand => operand.nodesOnto tail
    | .binary _ _ left right => left.nodesOnto (right.nodesOnto tail)
    | .group _ inner => inner.nodesOnto tail
    | .assign _ _ value => value.nodesOnto tail
    | .call _ callee args => callee.nodesOnto (Expr.listNodesOnto tail args)

/-- The nodes of a list of expressions, in front of a list. -/
def Expr.listNodesOnto (tail : List Node) : List Expr → List Node
  | [] => tail
  | e :: es => e.nodesOnto (Expr.listNodesOnto tail es)

end

mutual

/-- **The nodes of a statement**, the root first, in front of a list. -/
def Stmt.nodesOnto (tail : List Node) (s : Stmt) : List Node :=
  s.node ::
    match s with
    | .missing => tail
    | .expr _ e => e.nodesOnto tail
    | .ret _ value => value.nodesOnto tail
    | .block _ body => Stmt.listNodesOnto tail body
    | .declare _ _ _ init => init.nodesOnto tail
    | .ifThen _ cond yes => cond.nodesOnto (yes.nodesOnto tail)
    | .ifElse _ cond yes no => cond.nodesOnto (yes.nodesOnto (no.nodesOnto tail))
    | .loop _ cond body => cond.nodesOnto (body.nodesOnto tail)
    | .fxn _ _ _ body => Stmt.listNodesOnto tail body

/-- The nodes of a list of statements, in front of a list. -/
def Stmt.listNodesOnto (tail : List Node) : List Stmt → List Node
  | [] => tail
  | s :: ss => s.nodesOnto (Stmt.listNodesOnto tail ss)

end

/-- **The nodes of an expression**, the root first. -/
def Expr.nodes (e : Expr) : List Node := e.nodesOnto []

/-- **The nodes of a statement**, the root first. -/
def Stmt.nodes (s : Stmt) : List Node := s.nodesOnto []

end Badger
