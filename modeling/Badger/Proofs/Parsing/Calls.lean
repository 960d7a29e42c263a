import Badger.Proofs.Parsing.Contract
import Mathlib.Logic.Relation

/-!
# Calls of parsers

A parser reads a construct by calling other parsers, each on the tokens that are ahead by then. This
module lists the calls that each parser makes. The budget ties the list to the parsers: a call runs
out of its budget if a call that it makes does, and unless it has none left, only then.

## Main definitions

* `Parser.Construct`, `Parser.Call`: what a parser reads, and a call of it
* `Parser.Call.rest?`: the tokens that a call leaves, whether it succeeds or fails
* `Parser.Call.Makes`, `Parser.Call.Reaches`: the calls that a call makes, itself or through others

## Main statements

* `Parser.Call.Makes.rest?_eq_none`: a call runs out of its budget if one that it makes does
* `Parser.Call.exists_makes`: a call that runs out has no budget, or makes a call that runs out
-/

namespace Badger

variable {α : Type}

namespace Parsed

/-- The tokens that are left, after a success and after a failure; there are none to tell of if the
budget was too small. -/
def rest? : Parsed α → Option (List Token)
  | .ok _ rest | .fail _ rest => some rest
  | .outOfFuel => none

variable {r : Parsed α} {ok : α → List Token → Prop} {fail : Finding → List Token → Prop}
  {out : Prop} {P : List Token → Prop} {rest : List Token}

theorem rest?_of_eq_ok {a : α} (h : r = .ok a rest) : r.rest? = some rest := by
  rw [h]
  rfl

/-- The contract that names what there is. -/
theorem Meets.self (r : Parsed α) : r.Meets (fun a rest => r = .ok a rest)
    (fun e rest => r = .fail e rest) (r.rest? = none) := by
  cases r <;> rfl

/-- The contract of a success. -/
theorem Meets.of_eq_ok {a : α} (h : r = .ok a rest) (hok : ok a rest) : r.Meets ok fail out := by
  subst h
  exact hok

/-- A contract for what is left. -/
theorem Meets.of_rest? (h : r.Meets (fun _ rest => P rest) (fun _ rest => P rest) out)
    (hrest : r.rest? = some rest) : P rest := by
  cases r with
  | ok a _ =>
      cases hrest
      exact h
  | fail e _ =>
      cases hrest
      exact h
  | outOfFuel => cases hrest

/-- A parser that runs out of its budget meets every contract that allows for that. -/
theorem Meets.of_rest?_eq_none (h : r.rest? = none) (hout : out) : r.Meets ok fail out := by
  cases r with
  | outOfFuel => exact hout
  | _ => cases h

/-- What follows if a parser runs out of its budget. -/
theorem ranOut (hr : r.rest? = none) (h : r.Meets (fun _ _ => True) (fun _ _ => True) out) :
    out := by
  cases r with
  | outOfFuel => exact h
  | _ => cases hr

/-- What a parser that is called has to do with the contract of the one that calls it. -/
theorem Meets.of_called (hok : ∀ a rest, r = .ok a rest → ok a rest) (hfail : ∀ e rest, fail e rest)
    (hout : r.rest? = none → out) : r.Meets ok fail out :=
  (Meets.self r).mono hok (fun e rest _ => hfail e rest) hout

/-- The same for a parser that is called last. -/
theorem Meets.of_lastCalled (hout : r.rest? = none → out) :
    r.Meets (fun _ _ => True) (fun _ _ => True) out :=
  .of_called (fun _ _ _ => trivial) (fun _ _ => trivial) hout

/-- A parser that neither succeeds nor fails runs out of its budget. -/
theorem rest?_eq_none_of_meets (h : r.Meets (fun _ _ => False) (fun _ _ => False) True) :
    r.rest? = none := by
  cases r with
  | outOfFuel => rfl
  | _ => exact h.elim

end Parsed

namespace Recovering

variable {r : Parsed α × List Finding} {ok : α → List Token → List Finding → Prop}
  {fail : Finding → List Token → List Finding → Prop} {out : Prop} {P : List Token → Prop}
  {rest : List Token}

/-- The contract of a success. -/
theorem Meets.of_eq_ok {a : α} {log : List Finding} (h : r = (.ok a rest, log))
    (hok : ok a rest log) : Meets r ok fail out := by
  subst h
  exact hok

/-- A contract for what is left. -/
theorem Meets.of_rest? (h : Meets r (fun _ rest _ => P rest) (fun _ rest _ => P rest) out)
    (hrest : r.1.rest? = some rest) : P rest :=
  Parsed.Meets.of_rest? h hrest

/-- A parser that runs out of its budget meets every contract that allows for that. -/
theorem Meets.of_rest?_eq_none (h : r.1.rest? = none) (hout : out) : Meets r ok fail out :=
  Parsed.Meets.of_rest?_eq_none h hout

/-- What follows if a parser runs out of its budget. -/
theorem ranOut (hr : r.1.rest? = none)
    (h : Meets r (fun _ _ _ => True) (fun _ _ _ => True) out) : out :=
  Parsed.ranOut hr h

/-- What a parser that is called has to do with the contract of the one that calls it. -/
theorem Meets.of_called (hok : ∀ a rest log, r = (.ok a rest, log) → ok a rest log)
    (hfail : ∀ e rest log, fail e rest log) (hout : r.1.rest? = none → out) :
    Meets r ok fail out :=
  (Meets.self r).mono hok (fun e rest log _ => hfail e rest log) fun h => hout (by rw [h]; rfl)

/-- The same for a parser that is called last. -/
theorem Meets.of_lastCalled (hout : r.1.rest? = none → out) :
    Meets r (fun _ _ _ => True) (fun _ _ _ => True) out :=
  .of_called (fun _ _ _ _ => trivial) (fun _ _ _ => trivial) hout

/-- A parser that neither succeeds nor fails runs out of its budget. -/
theorem rest?_eq_none_of_meets
    (h : Meets r (fun _ _ _ => False) (fun _ _ _ => False) True) : r.1.rest? = none :=
  Parsed.rest?_eq_none_of_meets h

end Recovering

namespace Parser

/-! ## Calls -/

/-- **What a parser reads**, and what it has to know for that. -/
inductive Construct where
  | expression
  | operators (tiers : List (List TokenKind))
  | operatorsAfter (level : List TokenKind) (tighter : List (List TokenKind)) (left : Expr)
  | unary
  | calls (callee : Expr)
  | arguments
  | primary
  | variableDeclaration
  | parameters
  | functionHead
  | condition (opening : Expectation)
  | returnStatement
  | exprStatement
  | declaration
  | statement
  | block
  | declarations

/-- **A call of a parser**, within a budget, on the tokens that are ahead. -/
structure Call where
  construct : Construct
  fuel : Nat
  ahead : List Token

namespace Call

open Recovering

/-- **The tokens that a call leaves**, whether it succeeds or fails; there are none to tell of if
the budget was too small. -/
def rest? (c : Call) : Option (List Token) :=
  match c.construct with
  | .expression => (expr c.fuel c.ahead).rest?
  | .operators tiers => (operators c.fuel tiers c.ahead).rest?
  | .operatorsAfter level tighter left => (operatorsAfter c.fuel level tighter left c.ahead).rest?
  | .unary => (unary c.fuel c.ahead).rest?
  | .calls callee => (calls c.fuel callee c.ahead).rest?
  | .arguments => (arguments c.fuel c.ahead).rest?
  | .primary => (primary c.fuel c.ahead).rest?
  | .variableDeclaration => (variableDeclaration c.fuel c.ahead).rest?
  | .parameters => (parameters c.fuel c.ahead).rest?
  | .functionHead => (functionHead c.fuel c.ahead).rest?
  | .condition opening => (condition c.fuel opening c.ahead).rest?
  | .returnStatement => (returnStatement c.fuel c.ahead).rest?
  | .exprStatement => (exprStatement c.fuel c.ahead).rest?
  | .declaration => (declaration c.fuel c.ahead).1.rest?
  | .statement => (statement c.fuel c.ahead).1.rest?
  | .block => (block c.fuel c.ahead).1.rest?
  | .declarations => (declarations c.fuel c.ahead).1.rest?

/-- **The calls that a call makes**, one kind of step for each place where a parser calls another.
What was read before must have been read with success. -/
inductive Makes : Call → Call → Prop where
  -- expressions
  | target {fuel ts} : Makes ⟨.expression, fuel + 1, ts⟩ ⟨.operators levels, fuel, ts⟩
  | value {fuel ts target rest} (htarget : operators fuel levels ts = .ok target rest)
      (hequals : (current rest).kind = .assign) :
      Makes ⟨.expression, fuel + 1, ts⟩ ⟨.expression, fuel, advance rest⟩
  | tightest {fuel ts} : Makes ⟨.operators [], fuel + 1, ts⟩ ⟨.unary, fuel, ts⟩
  | left {fuel ts level tighter} :
      Makes ⟨.operators (level :: tighter), fuel + 1, ts⟩ ⟨.operators tighter, fuel, ts⟩
  | afterLeft {fuel ts level tighter left rest}
      (hleft : operators fuel tighter ts = .ok left rest) :
      Makes ⟨.operators (level :: tighter), fuel + 1, ts⟩
        ⟨.operatorsAfter level tighter left, fuel, rest⟩
  | right {fuel ts level tighter left} (hop : (current ts).kind ∈ level) :
      Makes ⟨.operatorsAfter level tighter left, fuel + 1, ts⟩
        ⟨.operators tighter, fuel, advance ts⟩
  | afterRight {fuel ts level tighter left right rest} (hop : (current ts).kind ∈ level)
      (hright : operators fuel tighter (advance ts) = .ok right rest) :
      Makes ⟨.operatorsAfter level tighter left, fuel + 1, ts⟩
        ⟨.operatorsAfter level tighter
          (.binary (current ts).offset (binaryOp (current ts)) left right), fuel, rest⟩
  | operand {fuel ts} (hop : (current ts).kind = .bang ∨ (current ts).kind = .minus) :
      Makes ⟨.unary, fuel + 1, ts⟩ ⟨.unary, fuel, advance ts⟩
  | callee {fuel ts} (hop : ¬((current ts).kind = .bang ∨ (current ts).kind = .minus)) :
      Makes ⟨.unary, fuel + 1, ts⟩ ⟨.primary, fuel, ts⟩
  | afterCallee {fuel ts callee rest}
      (hop : ¬((current ts).kind = .bang ∨ (current ts).kind = .minus))
      (hcallee : primary fuel ts = .ok callee rest) :
      Makes ⟨.unary, fuel + 1, ts⟩ ⟨.calls callee, fuel, rest⟩
  | someArguments {fuel ts callee} (hparen : (current ts).kind = .lparen)
      (hsome : (current (advance ts)).kind ≠ .rparen) :
      Makes ⟨.calls callee, fuel + 1, ts⟩ ⟨.arguments, fuel, advance ts⟩
  | afterArguments {fuel ts callee args rest} (hparen : (current ts).kind = .lparen)
      (hargs : (if (current (advance ts)).kind = .rparen then pure [] else arguments fuel)
        (advance ts) = .ok args rest)
      (hclose : (current rest).kind = .rparen) :
      Makes ⟨.calls callee, fuel + 1, ts⟩
        ⟨.calls (.call (current ts).offset callee args), fuel, advance rest⟩
  | argument {fuel ts} : Makes ⟨.arguments, fuel + 1, ts⟩ ⟨.expression, fuel, ts⟩
  | otherArguments {fuel ts first rest} (hfirst : expr fuel ts = .ok first rest)
      (hcomma : (current rest).kind = .comma) :
      Makes ⟨.arguments, fuel + 1, ts⟩ ⟨.arguments, fuel, advance rest⟩
  | inner {fuel ts} (hparen : (current ts).kind = .lparen) :
      Makes ⟨.primary, fuel + 1, ts⟩ ⟨.expression, fuel, advance ts⟩
  -- parts of statements
  | initial {fuel ts} (hname : (current (advance ts)).kind = .ident)
      (hequals : (current (advance (advance ts))).kind = .assign) :
      Makes ⟨.variableDeclaration, fuel, ts⟩
        ⟨.expression, fuel, advance (advance (advance ts))⟩
  | otherParameters {fuel ts} (hname : (current ts).kind = .ident)
      (hcomma : (current (advance ts)).kind = .comma) :
      Makes ⟨.parameters, fuel + 1, ts⟩ ⟨.parameters, fuel, advance (advance ts)⟩
  | someParameters {fuel ts} (hname : (current (advance ts)).kind = .ident)
      (hparen : (current (advance (advance ts))).kind = .lparen)
      (hsome : (current (advance (advance (advance ts)))).kind ≠ .rparen) :
      Makes ⟨.functionHead, fuel, ts⟩ ⟨.parameters, fuel, advance (advance (advance ts))⟩
  | tested {fuel ts opening} (hparen : (current (advance ts)).kind = .lparen) :
      Makes ⟨.condition opening, fuel, ts⟩ ⟨.expression, fuel, advance (advance ts)⟩
  | returned {fuel ts} : Makes ⟨.returnStatement, fuel, ts⟩ ⟨.expression, fuel, advance ts⟩
  | evaluated {fuel ts} : Makes ⟨.exprStatement, fuel, ts⟩ ⟨.expression, fuel, ts⟩
  -- declarations and statements
  | typed {fuel ts} (htype : (current ts).kind.isType = true) :
      Makes ⟨.declaration, fuel + 1, ts⟩ ⟨.variableDeclaration, fuel, ts⟩
  | head {fuel ts} (hfxn : (current ts).kind = .fxn) :
      Makes ⟨.declaration, fuel + 1, ts⟩ ⟨.functionHead, fuel, ts⟩
  | body {fuel ts head rest} (hfxn : (current ts).kind = .fxn)
      (hhead : functionHead fuel ts = .ok head rest) :
      Makes ⟨.declaration, fuel + 1, ts⟩ ⟨.block, fuel, rest⟩
  | plain {fuel ts} (htype : ¬(current ts).kind.isType = true) (hfxn : (current ts).kind ≠ .fxn) :
      Makes ⟨.declaration, fuel + 1, ts⟩ ⟨.statement, fuel, ts⟩
  | ret {fuel ts} (hword : (current ts).kind = .returnWord) :
      Makes ⟨.statement, fuel + 1, ts⟩ ⟨.returnStatement, fuel, ts⟩
  | braces {fuel ts} (hbrace : (current ts).kind = .lbrace) :
      Makes ⟨.statement, fuel + 1, ts⟩ ⟨.block, fuel, advance ts⟩
  | ifCondition {fuel ts} (hword : (current ts).kind = .ifWord) :
      Makes ⟨.statement, fuel + 1, ts⟩ ⟨.condition .parenthesisAfterIf, fuel, ts⟩
  | ifYes {fuel ts head rest} (hword : (current ts).kind = .ifWord)
      (hcond : condition fuel .parenthesisAfterIf ts = .ok head rest) :
      Makes ⟨.statement, fuel + 1, ts⟩ ⟨.statement, fuel, rest⟩
  | ifNo {fuel ts head rest yes log rest'} (hword : (current ts).kind = .ifWord)
      (hcond : condition fuel .parenthesisAfterIf ts = .ok head rest)
      (hyes : statement fuel rest = (.ok yes rest', log))
      (helse : (current rest').kind = .elseWord) :
      Makes ⟨.statement, fuel + 1, ts⟩ ⟨.statement, fuel, advance rest'⟩
  | whileCondition {fuel ts} (hword : (current ts).kind = .whileWord) :
      Makes ⟨.statement, fuel + 1, ts⟩ ⟨.condition .parenthesisAfterWhile, fuel, ts⟩
  | whileBody {fuel ts head rest} (hword : (current ts).kind = .whileWord)
      (hcond : condition fuel .parenthesisAfterWhile ts = .ok head rest) :
      Makes ⟨.statement, fuel + 1, ts⟩ ⟨.statement, fuel, rest⟩
  | bare {fuel ts} (hreturn : (current ts).kind ≠ .returnWord)
      (hbrace : (current ts).kind ≠ .lbrace) (hif : (current ts).kind ≠ .ifWord)
      (hwhile : (current ts).kind ≠ .whileWord) :
      Makes ⟨.statement, fuel + 1, ts⟩ ⟨.exprStatement, fuel, ts⟩
  -- declarations one after the other
  | firstInside {fuel ts} (hclose : (current ts).kind ≠ .rbrace)
      (hmore : (current ts).kind ≠ .eof) :
      Makes ⟨.block, fuel + 1, ts⟩ ⟨.declaration, fuel, ts⟩
  | othersInside {fuel ts first rest log} (hclose : (current ts).kind ≠ .rbrace)
      (hmore : (current ts).kind ≠ .eof)
      (hfirst : declaration fuel ts = (.ok first rest, log)) :
      Makes ⟨.block, fuel + 1, ts⟩ ⟨.block, fuel, rest⟩
  | first {fuel ts} (hmore : (current ts).kind ≠ .eof) :
      Makes ⟨.declarations, fuel + 1, ts⟩ ⟨.declaration, fuel, ts⟩
  | others {fuel ts first rest log} (hmore : (current ts).kind ≠ .eof)
      (hfirst : declaration fuel ts = (.ok first rest, log)) :
      Makes ⟨.declarations, fuel + 1, ts⟩ ⟨.declarations, fuel, rest⟩

/-- **The calls that a call comes to**: itself, those that it makes, those that these make, and so
on. -/
def Reaches : Call → Call → Prop := Relation.ReflTransGen Makes

/-! ## Calls without budget -/

variable {c c' : Call}

private theorem not_isType_of_fxn {kind : TokenKind} (h : kind = .fxn) : ¬kind.isType = true := by
  subst h
  decide

/-- **A call runs out of its budget if a call that it makes does.** -/
theorem Makes.rest?_eq_none (h : c.Makes c') (hout : c'.rest? = none) : c.rest? = none := by
  -- once the parser has come to the call, its contract is the one of that call
  cases h with
  | target =>
      refine Parsed.rest?_eq_none_of_meets ((meets_expr ..).mpr ?_)
      exact .of_rest?_eq_none hout trivial
  | value htarget hequals =>
      refine Parsed.rest?_eq_none_of_meets ((meets_expr ..).mpr ?_)
      exact .of_eq_ok htarget ((if_pos hequals).mpr (.of_rest?_eq_none hout trivial))
  | tightest =>
      refine Parsed.rest?_eq_none_of_meets ((meets_operators_nil ..).mpr ?_)
      exact .of_rest?_eq_none hout trivial
  | left =>
      refine Parsed.rest?_eq_none_of_meets ((meets_operators_cons ..).mpr ?_)
      exact .of_rest?_eq_none hout trivial
  | afterLeft hleft =>
      refine Parsed.rest?_eq_none_of_meets ((meets_operators_cons ..).mpr ?_)
      exact .of_eq_ok hleft (.of_rest?_eq_none hout trivial)
  | right hop =>
      refine Parsed.rest?_eq_none_of_meets ((meets_operatorsAfter ..).mpr ((if_pos hop).mpr ?_))
      exact .of_rest?_eq_none hout trivial
  | afterRight hop hright =>
      refine Parsed.rest?_eq_none_of_meets ((meets_operatorsAfter ..).mpr ((if_pos hop).mpr ?_))
      exact .of_eq_ok hright (.of_rest?_eq_none hout trivial)
  | operand hop =>
      refine Parsed.rest?_eq_none_of_meets ((meets_unary ..).mpr ((if_pos hop).mpr ?_))
      exact .of_rest?_eq_none hout trivial
  | callee hop =>
      refine Parsed.rest?_eq_none_of_meets ((meets_unary ..).mpr ((if_neg hop).mpr ?_))
      exact .of_rest?_eq_none hout trivial
  | afterCallee hop hcallee =>
      refine Parsed.rest?_eq_none_of_meets ((meets_unary ..).mpr ((if_neg hop).mpr ?_))
      exact .of_eq_ok hcallee (.of_rest?_eq_none hout trivial)
  | someArguments hparen hsome =>
      refine Parsed.rest?_eq_none_of_meets ((meets_calls ..).mpr ((if_pos hparen).mpr ?_))
      rw [if_neg hsome]
      exact .of_rest?_eq_none hout trivial
  | afterArguments hparen hargs hclose =>
      refine Parsed.rest?_eq_none_of_meets ((meets_calls ..).mpr ((if_pos hparen).mpr ?_))
      exact .of_eq_ok hargs ((if_pos hclose).mpr (.of_rest?_eq_none hout trivial))
  | argument =>
      refine Parsed.rest?_eq_none_of_meets ((meets_arguments ..).mpr ?_)
      exact .of_rest?_eq_none hout trivial
  | otherArguments hfirst hcomma =>
      refine Parsed.rest?_eq_none_of_meets ((meets_arguments ..).mpr ?_)
      exact .of_eq_ok hfirst ((if_pos hcomma).mpr (.of_rest?_eq_none hout trivial))
  | inner hparen =>
      refine Parsed.rest?_eq_none_of_meets ((meets_primary ..).mpr ?_)
      rw [hparen]
      exact .of_rest?_eq_none hout trivial
  | initial hname hequals =>
      refine Parsed.rest?_eq_none_of_meets
        ((Recovering.meets_variableDeclaration ..).mpr ((if_pos hname).mpr ?_))
      exact (if_pos hequals).mpr (.of_rest?_eq_none hout trivial)
  | otherParameters hname hcomma =>
      refine Parsed.rest?_eq_none_of_meets
        ((Recovering.meets_parameters ..).mpr ((if_pos hname).mpr ?_))
      exact (if_pos hcomma).mpr (.of_rest?_eq_none hout trivial)
  | someParameters hname hparen hsome =>
      refine Parsed.rest?_eq_none_of_meets
        ((Recovering.meets_functionHead ..).mpr ((if_pos hname).mpr ((if_pos hparen).mpr ?_)))
      rw [if_neg hsome]
      exact .of_rest?_eq_none hout trivial
  | tested hparen =>
      refine Parsed.rest?_eq_none_of_meets
        ((Recovering.meets_condition ..).mpr ((if_pos hparen).mpr ?_))
      exact .of_rest?_eq_none hout trivial
  | returned =>
      refine Parsed.rest?_eq_none_of_meets ((Recovering.meets_returnStatement ..).mpr ?_)
      exact .of_rest?_eq_none hout trivial
  | evaluated =>
      refine Parsed.rest?_eq_none_of_meets ((Recovering.meets_exprStatement ..).mpr ?_)
      exact .of_rest?_eq_none hout trivial
  | typed htype =>
      refine rest?_eq_none_of_meets ((meets_declaration ..).mpr ((if_pos htype).mpr ?_))
      exact .of_rest?_eq_none hout trivial
  | head hfxn =>
      refine rest?_eq_none_of_meets ((meets_declaration ..).mpr ?_)
      refine (if_neg (not_isType_of_fxn hfxn)).mpr ((if_pos hfxn).mpr ?_)
      exact .of_rest?_eq_none hout trivial
  | body hfxn hhead =>
      refine rest?_eq_none_of_meets ((meets_declaration ..).mpr ?_)
      refine (if_neg (not_isType_of_fxn hfxn)).mpr ((if_pos hfxn).mpr ?_)
      exact .of_eq_ok hhead (.of_rest?_eq_none hout trivial)
  | plain htype hfxn =>
      refine rest?_eq_none_of_meets ((meets_declaration ..).mpr ?_)
      refine (if_neg htype).mpr ((if_neg hfxn).mpr ?_)
      exact .of_rest?_eq_none hout trivial
  | ret hword =>
      refine rest?_eq_none_of_meets ((meets_statement ..).mpr ?_)
      rw [hword]
      exact .of_rest?_eq_none hout trivial
  | braces hbrace =>
      refine rest?_eq_none_of_meets ((meets_statement ..).mpr ?_)
      rw [hbrace]
      exact .of_rest?_eq_none hout trivial
  | ifCondition hword =>
      refine rest?_eq_none_of_meets ((meets_statement ..).mpr ?_)
      rw [hword]
      exact .of_rest?_eq_none hout trivial
  | ifYes hword hcond =>
      refine rest?_eq_none_of_meets ((meets_statement ..).mpr ?_)
      rw [hword]
      exact .of_eq_ok hcond (.of_rest?_eq_none hout trivial)
  | ifNo hword hcond hyes helse =>
      refine rest?_eq_none_of_meets ((meets_statement ..).mpr ?_)
      rw [hword]
      refine .of_eq_ok hcond (.of_eq_ok hyes ((if_pos helse).mpr ?_))
      exact .of_rest?_eq_none hout trivial
  | whileCondition hword =>
      refine rest?_eq_none_of_meets ((meets_statement ..).mpr ?_)
      rw [hword]
      exact .of_rest?_eq_none hout trivial
  | whileBody hword hcond =>
      refine rest?_eq_none_of_meets ((meets_statement ..).mpr ?_)
      rw [hword]
      exact .of_eq_ok hcond (.of_rest?_eq_none hout trivial)
  | bare hreturn hbrace hif hwhile =>
      refine rest?_eq_none_of_meets ((meets_statement ..).mpr ?_)
      split
      · contradiction
      · contradiction
      · contradiction
      · contradiction
      · exact .of_rest?_eq_none hout trivial
  | firstInside hclose hmore =>
      refine rest?_eq_none_of_meets ((meets_block ..).mpr ?_)
      refine (if_neg hclose).mpr ((if_neg hmore).mpr ?_)
      exact .of_rest?_eq_none hout trivial
  | othersInside hclose hmore hfirst =>
      refine rest?_eq_none_of_meets ((meets_block ..).mpr ?_)
      refine (if_neg hclose).mpr ((if_neg hmore).mpr ?_)
      exact .of_eq_ok hfirst (.of_rest?_eq_none hout trivial)
  | first hmore =>
      refine rest?_eq_none_of_meets ((meets_declarations ..).mpr ((if_neg hmore).mpr ?_))
      exact .of_rest?_eq_none hout trivial
  | others hmore hfirst =>
      refine rest?_eq_none_of_meets ((meets_declarations ..).mpr ((if_neg hmore).mpr ?_))
      exact .of_eq_ok hfirst (.of_rest?_eq_none hout trivial)

/-- A call that is made runs out of its budget. -/
def Exposes (c : Call) : Prop := ∃ c', c.Makes c' ∧ c'.rest? = none

section

variable {fuel : Nat} {ts : List Token}

private theorem exposes_expression (h : (expr (fuel + 1) ts).rest? = none) :
    Exposes ⟨.expression, fuel + 1, ts⟩ := by
  refine Parsed.ranOut h ((meets_expr ..).mpr ?_)
  refine .of_called (fun target rest htarget => ?_) (fun _ _ => trivial) fun h =>
    ⟨_, .target, h⟩
  split
  · next hequals =>
    refine .of_called (fun _ _ _ => ?_) (fun _ _ => trivial) fun h =>
      ⟨_, .value htarget hequals, h⟩
    split <;> trivial
  · trivial

private theorem exposes_operators {tiers : List (List TokenKind)}
    (h : (operators (fuel + 1) tiers ts).rest? = none) :
    Exposes ⟨.operators tiers, fuel + 1, ts⟩ := by
  cases tiers with
  | nil =>
      refine Parsed.ranOut h ((meets_operators_nil ..).mpr ?_)
      exact .of_lastCalled fun h => ⟨_, .tightest, h⟩
  | cons level tighter =>
      refine Parsed.ranOut h ((meets_operators_cons ..).mpr ?_)
      refine .of_called (fun left rest hleft => ?_) (fun _ _ => trivial) fun h => ⟨_, .left, h⟩
      exact .of_lastCalled fun h => ⟨_, .afterLeft hleft, h⟩

private theorem exposes_operatorsAfter {level : List TokenKind}
    {tighter : List (List TokenKind)} {left : Expr}
    (h : (operatorsAfter (fuel + 1) level tighter left ts).rest? = none) :
    Exposes ⟨.operatorsAfter level tighter left, fuel + 1, ts⟩ := by
  refine Parsed.ranOut h ((meets_operatorsAfter ..).mpr ?_)
  split
  · next hop =>
    refine .of_called (fun right rest hright => ?_) (fun _ _ => trivial) fun h =>
      ⟨_, .right hop, h⟩
    exact .of_lastCalled fun h => ⟨_, .afterRight hop hright, h⟩
  · trivial

private theorem exposes_unary (h : (unary (fuel + 1) ts).rest? = none) :
    Exposes ⟨.unary, fuel + 1, ts⟩ := by
  refine Parsed.ranOut h ((meets_unary ..).mpr ?_)
  split
  · next hop =>
    exact .of_lastCalled fun h => ⟨_, .operand hop, h⟩
  · next hop =>
    refine .of_called (fun callee rest hcallee => ?_) (fun _ _ => trivial) fun h =>
      ⟨_, .callee hop, h⟩
    exact .of_lastCalled fun h => ⟨_, .afterCallee hop hcallee, h⟩

private theorem exposes_calls {callee : Expr} (h : (calls (fuel + 1) callee ts).rest? = none) :
    Exposes ⟨.calls callee, fuel + 1, ts⟩ := by
  refine Parsed.ranOut h ((meets_calls ..).mpr ?_)
  split
  · next hparen =>
    refine .of_called (fun args rest hargs => ?_) (fun _ _ => trivial) fun h => ?_
    · split
      · next hclose =>
        exact .of_lastCalled fun h => ⟨_, .afterArguments hparen hargs hclose, h⟩
      · trivial
    · split at h
      · cases h
      · next hsome => exact ⟨_, .someArguments hparen hsome, h⟩
  · trivial

private theorem exposes_arguments (h : (arguments (fuel + 1) ts).rest? = none) :
    Exposes ⟨.arguments, fuel + 1, ts⟩ := by
  refine Parsed.ranOut h ((meets_arguments ..).mpr ?_)
  refine .of_called (fun first rest hfirst => ?_) (fun _ _ => trivial) fun h =>
    ⟨_, .argument, h⟩
  split
  · next hcomma =>
    exact .of_lastCalled fun h => ⟨_, .otherArguments hfirst hcomma, h⟩
  · trivial

private theorem exposes_primary (h : (primary (fuel + 1) ts).rest? = none) :
    Exposes ⟨.primary, fuel + 1, ts⟩ := by
  refine Parsed.ranOut h ((meets_primary ..).mpr ?_)
  split
  iterate 5 trivial
  · split <;> trivial
  · next hparen =>
    refine .of_called (fun _ _ _ => ?_) (fun _ _ => trivial) fun h => ⟨_, .inner hparen, h⟩
    split <;> trivial
  · trivial

private theorem exposes_variableDeclaration (h : (variableDeclaration fuel ts).rest? = none) :
    Exposes ⟨.variableDeclaration, fuel, ts⟩ := by
  refine Parsed.ranOut h ((meets_variableDeclaration ..).mpr ?_)
  dsimp only
  split
  · next hname =>
    split
    · next hequals =>
      refine .of_called (fun _ _ _ => ?_) (fun _ _ => trivial) fun h =>
        ⟨_, .initial hname hequals, h⟩
      split <;> trivial
    · split <;> trivial
  · trivial

private theorem exposes_parameters (h : (parameters (fuel + 1) ts).rest? = none) :
    Exposes ⟨.parameters, fuel + 1, ts⟩ := by
  refine Parsed.ranOut h ((meets_parameters ..).mpr ?_)
  split
  · next hname =>
    split
    · next hcomma =>
      exact .of_lastCalled fun h => ⟨_, .otherParameters hname hcomma, h⟩
    · trivial
  · trivial

private theorem exposes_functionHead (h : (functionHead fuel ts).rest? = none) :
    Exposes ⟨.functionHead, fuel, ts⟩ := by
  refine Parsed.ranOut h ((meets_functionHead ..).mpr ?_)
  dsimp only
  split
  · next hname =>
    split
    · next hparen =>
      refine .of_called (fun _ _ _ => ?_) (fun _ _ => trivial) fun h => ?_
      · split
        · split <;> trivial
        · trivial
      · split at h
        · cases h
        · next hsome => exact ⟨_, .someParameters hname hparen hsome, h⟩
    · trivial
  · trivial

private theorem exposes_condition {opening : Expectation}
    (h : (condition fuel opening ts).rest? = none) :
    Exposes ⟨.condition opening, fuel, ts⟩ := by
  refine Parsed.ranOut h ((meets_condition ..).mpr ?_)
  split
  · next hparen =>
    refine .of_called (fun _ _ _ => ?_) (fun _ _ => trivial) fun h => ⟨_, .tested hparen, h⟩
    split <;> trivial
  · trivial

private theorem exposes_returnStatement (h : (returnStatement fuel ts).rest? = none) :
    Exposes ⟨.returnStatement, fuel, ts⟩ := by
  refine Parsed.ranOut h ((meets_returnStatement ..).mpr ?_)
  refine .of_called (fun _ _ _ => ?_) (fun _ _ => trivial) fun h => ⟨_, .returned, h⟩
  split <;> trivial

private theorem exposes_exprStatement (h : (exprStatement fuel ts).rest? = none) :
    Exposes ⟨.exprStatement, fuel, ts⟩ := by
  refine Parsed.ranOut h ((meets_exprStatement ..).mpr ?_)
  refine .of_called (fun _ _ _ => ?_) (fun _ _ => trivial) fun h => ⟨_, .evaluated, h⟩
  split <;> trivial

private theorem exposes_declaration (h : (declaration (fuel + 1) ts).1.rest? = none) :
    Exposes ⟨.declaration, fuel + 1, ts⟩ := by
  refine ranOut h ((meets_declaration ..).mpr ?_)
  dsimp only
  split
  · next htype =>
    exact .of_lastCalled fun h => ⟨_, .typed htype, h⟩
  · next htype =>
    split
    · next hfxn =>
      refine .of_called (fun head rest hhead => ?_) (fun _ _ => trivial) fun h =>
        ⟨_, .head hfxn, h⟩
      exact .of_lastCalled fun h => ⟨_, .body hfxn hhead, h⟩
    · next hfxn =>
      exact .of_lastCalled fun h => ⟨_, .plain htype hfxn, h⟩

private theorem exposes_statement (h : (statement (fuel + 1) ts).1.rest? = none) :
    Exposes ⟨.statement, fuel + 1, ts⟩ := by
  refine ranOut h ((meets_statement ..).mpr ?_)
  split
  · next hword =>
    exact .of_lastCalled fun h => ⟨_, .ret hword, h⟩
  · next hbrace =>
    exact .of_lastCalled fun h => ⟨_, .braces hbrace, h⟩
  · next hword =>
    refine .of_called (fun head rest hcond => ?_) (fun _ _ => trivial) fun h =>
      ⟨_, .ifCondition hword, h⟩
    refine .of_called (fun yes rest' log hyes => ?_) (fun _ _ _ => trivial) fun h =>
      ⟨_, .ifYes hword hcond, h⟩
    split
    · next helse =>
      exact .of_lastCalled fun h => ⟨_, .ifNo hword hcond hyes helse, h⟩
    · trivial
  · next hword =>
    refine .of_called (fun head rest hcond => ?_) (fun _ _ => trivial) fun h =>
      ⟨_, .whileCondition hword, h⟩
    exact .of_lastCalled fun h => ⟨_, .whileBody hword hcond, h⟩
  · next hreturn hbrace hif hwhile =>
    exact .of_lastCalled fun h => ⟨_, .bare hreturn hbrace hif hwhile, h⟩

private theorem exposes_block (h : (block (fuel + 1) ts).1.rest? = none) :
    Exposes ⟨.block, fuel + 1, ts⟩ := by
  refine ranOut h ((meets_block ..).mpr ?_)
  split
  · trivial
  · next hclose =>
    split
    · trivial
    · next hmore =>
      refine .of_called (fun first rest log hfirst => ?_) (fun _ _ _ => trivial) fun h =>
        ⟨_, .firstInside hclose hmore, h⟩
      exact .of_lastCalled fun h => ⟨_, .othersInside hclose hmore hfirst, h⟩

private theorem exposes_declarations (h : (declarations (fuel + 1) ts).1.rest? = none) :
    Exposes ⟨.declarations, fuel + 1, ts⟩ := by
  refine ranOut h ((meets_declarations ..).mpr ?_)
  split
  · trivial
  · next hmore =>
    refine .of_called (fun first rest log hfirst => ?_) (fun _ _ _ => trivial) fun h =>
      ⟨_, .first hmore, h⟩
    exact .of_lastCalled fun h => ⟨_, .others hmore hfirst, h⟩

end

/-- **A call that runs out of its budget** has none left, or makes a call that runs out of its
own. -/
theorem exists_makes : ∀ {c : Call}, c.rest? = none → c.fuel = 0 ∨ c.Exposes
  | ⟨.variableDeclaration, _, _⟩, h => .inr (exposes_variableDeclaration h)
  | ⟨.functionHead, _, _⟩, h => .inr (exposes_functionHead h)
  | ⟨.condition _, _, _⟩, h => .inr (exposes_condition h)
  | ⟨.returnStatement, _, _⟩, h => .inr (exposes_returnStatement h)
  | ⟨.exprStatement, _, _⟩, h => .inr (exposes_exprStatement h)
  | ⟨_, 0, _⟩, _ => .inl rfl
  | ⟨.expression, _ + 1, _⟩, h => .inr (exposes_expression h)
  | ⟨.operators _, _ + 1, _⟩, h => .inr (exposes_operators h)
  | ⟨.operatorsAfter .., _ + 1, _⟩, h => .inr (exposes_operatorsAfter h)
  | ⟨.unary, _ + 1, _⟩, h => .inr (exposes_unary h)
  | ⟨.calls _, _ + 1, _⟩, h => .inr (exposes_calls h)
  | ⟨.arguments, _ + 1, _⟩, h => .inr (exposes_arguments h)
  | ⟨.primary, _ + 1, _⟩, h => .inr (exposes_primary h)
  | ⟨.parameters, _ + 1, _⟩, h => .inr (exposes_parameters h)
  | ⟨.declaration, _ + 1, _⟩, h => .inr (exposes_declaration h)
  | ⟨.statement, _ + 1, _⟩, h => .inr (exposes_statement h)
  | ⟨.block, _ + 1, _⟩, h => .inr (exposes_block h)
  | ⟨.declarations, _ + 1, _⟩, h => .inr (exposes_declarations h)

end Call

end Parser

end Badger
