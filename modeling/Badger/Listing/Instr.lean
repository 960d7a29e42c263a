import Badger.Number.Decimal
import Badger.Text.Quoted
import Badger.Tree.Basic

/-!
# Instruction listings

A flat form of programs: a list of instructions on variables, numbered temporaries and
numbered labels.

## Main definitions

* `Operand`: a literal or a temporary
* `Instr`: the instructions
* `Instr.render`: an instruction as a line of a listing
-/

namespace Badger

/-- What an instruction computes with: a literal, or a temporary by its number. -/
inductive Operand where
  | num (value : Float)
  | str (value : Text)
  | bool (value : Bool)
  | temp (n : Nat)

/-- What a call instruction calls: a function by name, or the value of an operand. -/
inductive Target where
  | named (name : Text)
  | computed (operand : Operand)

/-- **Instructions.** Temporaries and labels are numbers. -/
inductive Instr where
  /-- Reads a variable into a temporary. -/
  | load (dest : Nat) (name : Text)
  /-- Writes a variable. -/
  | store (name : Text) (source : Operand)
  /-- Applies a unary operator. -/
  | unary (dest : Nat) (op : UnaryOp) (operand : Operand)
  /-- Applies a binary operator. -/
  | binary (dest : Nat) (op : BinaryOp) (left right : Operand)
  /-- Passes an argument to the next call. -/
  | param (source : Operand)
  /-- Calls a function with the arguments passed since the last call. -/
  | call (dest : Nat) (target : Target) (count : Nat)
  /-- Declares a variable. -/
  | declare (name : Text)
  /-- Prints a value. -/
  | print (source : Operand)
  /-- Returns a value. -/
  | ret (source : Operand)
  /-- Marks a place. -/
  | label (n : Nat)
  /-- Goes to a place. -/
  | jump (n : Nat)
  /-- Goes to a place if a value counts as false. -/
  | jumpUnless (cond : Operand) (n : Nat)
  /-- Opens the body of a function. -/
  | func (name : Text)
  /-- Names a parameter of the function just opened. -/
  | arg (name : Text)
  /-- Closes the body of a function. -/
  | endFunc
  /-- Ends the program. -/
  | stop

/-- The word for a unary operator in a listing, if it has one. -/
def UnaryOp.mnemonic? : UnaryOp → Option Text
  | .not => some (utf8 "invert")
  | .negate => some (utf8 "uneg")
  | .other _ => none

/-- The word or sign for a binary operator in a listing, if it has one. -/
def BinaryOp.mnemonic? : BinaryOp → Option Text
  | .eq => some (utf8 "eq")
  | .ne => some (utf8 "neq")
  | .gt => some (utf8 "gt")
  | .ge => some (utf8 "gte")
  | .lt => some (utf8 "lt")
  | .le => some (utf8 "lte")
  | .other _ => none
  | op => some op.lexeme

/-- The name of a temporary. -/
def tempName (n : Nat) : Text := utf8 "t" ++ Text.ofNat n

/-- The name of a label. -/
def labelName (n : Nat) : Text := utf8 "L" ++ Text.ofNat n

/-- An operand in a listing. -/
def Operand.render : Operand → Text
  | .num value => Number.toText value
  | .str value => Quoted.text value
  | .bool value => utf8 (if value then "true" else "false")
  | .temp n => tempName n

/-- What is called, in a listing. -/
def Target.render : Target → Text
  | .named name => name
  | .computed operand => operand.render

/-- **A line of a listing.** -/
def Instr.render : Instr → Text
  | .load dest name => tempName dest ++ utf8 " = " ++ name
  | .store name source => name ++ utf8 " = " ++ source.render
  | .unary dest op operand =>
    tempName dest ++ utf8 " = " ++ op.mnemonic?.getD [] ++ utf8 " " ++ operand.render
  | .binary dest op left right =>
    tempName dest ++ utf8 " = " ++ left.render ++ utf8 " " ++ op.mnemonic?.getD [] ++ utf8 " " ++
      right.render
  | .param source => utf8 "param " ++ source.render
  | .call dest target count =>
    tempName dest ++ utf8 " = call " ++ target.render ++ utf8 ", " ++ Text.ofNat count
  | .declare name => utf8 "new " ++ name
  | .print source => utf8 "print " ++ source.render
  | .ret source => utf8 "ret " ++ source.render
  | .label n => utf8 "label " ++ labelName n
  | .jump n => utf8 "jump " ++ labelName n
  | .jumpUnless cond n => utf8 "jne " ++ cond.render ++ utf8 " " ++ labelName n
  | .func name => utf8 "func " ++ name
  | .arg name => utf8 "arg " ++ name
  | .endFunc => utf8 "endfunc"
  | .stop => utf8 "end"

end Badger
