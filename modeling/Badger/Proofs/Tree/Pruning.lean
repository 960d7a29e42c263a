import Badger.Tree.Basic

/-!
# Programs without dead code

What stands after a return in a list of statements is never run. Pruning takes it out, in the list
itself and in every list inside its statements.

## Main definitions

* `Stmt.isReturn`: that a statement is a return
* `Stmt.prune`, `Stmt.listPrune`: a statement or a list of statements without dead code

## Main statements

* `Stmt.listPrune_listPrune`: nothing is left to be pruned
-/

namespace Badger

/-- Whether a statement is a return. -/
def Stmt.isReturn : Stmt → Bool
  | .ret _ _ => true
  | _ => false

mutual

/-- **The statement without dead code** in the lists of statements inside it. -/
def Stmt.prune : Stmt → Stmt
  | .block pos body => .block pos (Stmt.listPrune body)
  | .ifThen pos cond yes => .ifThen pos cond yes.prune
  | .ifElse pos cond yes no => .ifElse pos cond yes.prune no.prune
  | .loop pos cond body => .loop pos cond body.prune
  | .fxn pos name params body => .fxn pos name params (Stmt.listPrune body)
  | s => s

/-- **The statements without dead code**: those up to the first return among them, each without
dead code inside it. -/
def Stmt.listPrune : List Stmt → List Stmt
  | [] => []
  | s :: ss => s.prune :: if s.isReturn then [] else Stmt.listPrune ss

end

namespace Stmt

theorem listPrune_cons {s : Stmt} (h : s.isReturn = false) (ss : List Stmt) :
    listPrune (s :: ss) = s.prune :: listPrune ss := by
  rw [listPrune, h]
  rfl

@[simp] theorem isMissing_prune (s : Stmt) : s.prune.isMissing = s.isMissing := by
  cases s <;> rfl

@[simp] theorem isReturn_prune (s : Stmt) : s.prune.isReturn = s.isReturn := by
  cases s <;> rfl

mutual

theorem prune_prune (s : Stmt) : s.prune.prune = s.prune := by
  cases s with
  | missing | expr _ _ | ret _ _ | declare _ _ _ _ => rfl
  | block _ body => simp only [prune, listPrune_listPrune body]
  | ifThen _ _ yes => simp only [prune, prune_prune yes]
  | ifElse _ _ yes no => simp only [prune, prune_prune yes, prune_prune no]
  | loop _ _ body => simp only [prune, prune_prune body]
  | fxn _ _ _ body => simp only [prune, listPrune_listPrune body]

/-- **Nothing is left to be pruned.** -/
theorem listPrune_listPrune (ss : List Stmt) : listPrune (listPrune ss) = listPrune ss := by
  cases ss with
  | nil => rfl
  | cons s ss =>
      rw [listPrune, listPrune, prune_prune s, isReturn_prune]
      cases s.isReturn with
      | true => rfl
      | false => exact congrArg (s.prune :: ·) (listPrune_listPrune ss)

end

-- a return inside a block ends the list of the block, not the one around it
example (e : Expr) :
    listPrune [.block 0 [.ret 1 e, .expr 2 e], .expr 3 e, .ret 4 e, .expr 5 e] =
      [.block 0 [.ret 1 e], .expr 3 e, .ret 4 e] := rfl

end Stmt

end Badger
