import Badger.Proofs.Parsing.Confinement
import Badger.Proofs.Parsing.Cursor
import Badger.Proofs.Parsing.Tracking

/-!
# The cursor and the tokens ahead

Parsing with a cursor and parsing the tokens ahead are the same. Each construct is read as it is
parsed, one parser at a time, and so are whole programs and expressions. What a reader does is
therefore a matter of the tokens ahead of it: the cursor never leaves the tokens, and where it
stands in them shows only in how it is moved.

## Main definitions

* `Reading.ExprRefines`, `Reading.StmtRefines`: constructs are read as they are parsed, within a
  budget

## Main statements

* `Reading.exprRefines`, `Reading.stmtRefines`: constructs are read as they are parsed
* `Reader.parseExpression_tracks`, `Reader.parseProgram_eq`: so are expressions and programs
* `Reader.parseProgram_newAt`: **a program is what a new reader reads**
* `Reader.parseProgram_shift`: **the cursor may be shifted**
-/

namespace Badger

open Recovering (ofParser)

/-- **A larger budget changes nothing** for an expression. -/
theorem Parser.expr_mono {n m : Nat} (hle : n ≤ m) {ts : List Token}
    (hfuel : Parser.expr n ts ≠ .outOfFuel) : Parser.expr m ts = Parser.expr n ts := by
  have hts : Seam.nothing.Ahead ts := .inl ⟨rfl, rfl⟩
  have hruns := (Parser.exprCarries Seam.nothing hle).expr hts
  rw [show Seam.nothing.near = [] from rfl, show Seam.nothing.far = [] from rfl,
    List.append_nil] at hruns
  generalize Parser.expr n ts = r, Parser.expr m ts = r' at hfuel hruns
  cases hruns with
  | ok | fail => rfl
  | outOfFuel => exact absurd rfl hfuel

namespace Reading

variable {n : Nat}

/-! ## Expressions -/

/-- **Expressions are read as they are parsed**, within the budget `n`. -/
structure ExprRefines (n : Nat) : Prop where
  expr : Refines (expr n) (ofParser (Parser.expr n))
  operators (levels : List (List TokenKind)) :
    Refines (operators n levels) (ofParser (Parser.operators n levels))
  operatorsAfter (level : List TokenKind) (tighter : List (List TokenKind)) (left : Expr) :
    Refines (operatorsAfter n level tighter left)
      (ofParser (Parser.operatorsAfter n level tighter left))
  unary : Refines (unary n) (ofParser (Parser.unary n))
  calls (callee : Expr) : Refines (calls n callee) (ofParser (Parser.calls n callee))
  arguments : Refines (arguments n) (ofParser (Parser.arguments n))
  primary : Refines (primary n) (ofParser (Parser.primary n))

section

variable (ih : ExprRefines n)

include ih

private theorem refines_expr : Refines (expr (n + 1)) (ofParser (Parser.expr (n + 1))) := by
  rw [expr, Parser.expr]
  refine refines_bind_ofParser (ih.operators _) fun target => ?_
  refine refines_bind_ofParser refines_current fun t => ?_
  split
  · refine refines_bind_ofParser refines_next fun equals => ?_
    refine refines_bind_ofParser ih.expr fun value => ?_
    cases target with
    | ident pos name => exact refines_pure _
    | _ => exact refines_failAt _ _
  · exact refines_pure _

private theorem refines_operators (levels : List (List TokenKind)) :
    Refines (operators (n + 1) levels) (ofParser (Parser.operators (n + 1) levels)) := by
  cases levels with
  | nil =>
      rw [operators, Parser.operators]
      exact ih.unary
  | cons level tighter =>
      rw [operators, Parser.operators]
      exact refines_bind_ofParser (ih.operators tighter) fun left => ih.operatorsAfter _ _ left

private theorem refines_operatorsAfter (level : List TokenKind) (tighter : List (List TokenKind))
    (left : Expr) : Refines (operatorsAfter (n + 1) level tighter left)
      (ofParser (Parser.operatorsAfter (n + 1) level tighter left)) := by
  rw [operatorsAfter, Parser.operatorsAfter]
  refine refines_bind_ofParser refines_current fun t => ?_
  split
  · refine refines_bind_ofParser refines_next fun op => ?_
    exact refines_bind_ofParser (ih.operators tighter) fun right => ih.operatorsAfter _ _ _
  · exact refines_pure _

private theorem refines_unary : Refines (unary (n + 1)) (ofParser (Parser.unary (n + 1))) := by
  rw [unary, Parser.unary]
  refine refines_bind_ofParser refines_current fun t => ?_
  split
  · refine refines_bind_ofParser refines_next fun op => ?_
    exact refines_bind_ofParser ih.unary fun operand => refines_pure _
  · exact refines_bind_ofParser ih.primary fun callee => ih.calls callee

private theorem refines_calls (callee : Expr) :
    Refines (calls (n + 1) callee) (ofParser (Parser.calls (n + 1) callee)) := by
  rw [calls, Parser.calls]
  have hclosing (paren : Token) (args : List Expr) :
      Refines (do
          let _ ← expect .rparen .parenthesisAfterArguments
          calls n (.call paren.offset callee args))
        (ofParser do
          let _ ← Parser.expect .rparen .parenthesisAfterArguments
          Parser.calls n (.call paren.offset callee args)) :=
    refines_bind_ofParser (refines_expect (by decide) _) fun _ => ih.calls _
  refine refines_bind_ofParser refines_current fun t => ?_
  split
  · refine refines_bind_ofParser refines_next fun paren => ?_
    refine refines_bind_ofParser refines_current fun t => ?_
    split
    · exact refines_bind_ofParser (refines_pure _) fun args => hclosing paren args
    · exact refines_bind_ofParser ih.arguments fun args => hclosing paren args
  · exact refines_pure _

private theorem refines_arguments :
    Refines (arguments (n + 1)) (ofParser (Parser.arguments (n + 1))) := by
  rw [arguments, Parser.arguments]
  refine refines_bind_ofParser ih.expr fun first => ?_
  refine refines_bind_ofParser (refines_accept (by decide)) fun more => ?_
  split
  · exact refines_bind_ofParser ih.arguments fun others => refines_pure _
  · exact refines_pure _

private theorem refines_primary :
    Refines (primary (n + 1)) (ofParser (Parser.primary (n + 1))) := by
  rw [primary, Parser.primary]
  refine refines_bind_ofParser refines_current fun t => ?_
  have hleaf (e : Expr) : Refines (do let _ ← next; return e)
      (ofParser do let _ ← Parser.take; return e) :=
    refines_bind_ofParser refines_next fun _ => refines_pure e
  cases t.kind with
  | falseWord | trueWord | number | string | ident => exact hleaf _
  | «at» =>
      refine refines_bind_ofParser refines_next fun _ => ?_
      exact refines_bind_ofParser (refines_expect (by decide) _) fun name => refines_pure _
  | lparen =>
      refine refines_bind_ofParser refines_next fun _ => ?_
      refine refines_bind_ofParser ih.expr fun inner => ?_
      exact refines_bind_ofParser (refines_expect (by decide) _) fun _ => refines_pure _
  | _ => exact refines_failHere _

end

/-- **Expressions are read as they are parsed**, within every budget. -/
theorem exprRefines (n : Nat) : ExprRefines n := by
  induction n with
  | zero => constructor <;> intros <;> exact refines_exhausted
  | succ n ih =>
      exact ⟨refines_expr ih, refines_operators ih, refines_operatorsAfter ih, refines_unary ih,
        refines_calls ih, refines_arguments ih, refines_primary ih⟩

/-! ## Parts of statements -/

theorem refines_variableDeclaration (n : Nat) :
    Refines (variableDeclaration n) (ofParser (Recovering.variableDeclaration n)) := by
  have hclosing (type : DeclaredType) (name : Token) (init : Expr) :
      Refines (do
          let _ ← expect .semi .semicolonAfterDeclaration
          return Stmt.declare name.offset type name.lexeme init)
        (ofParser do
          let _ ← Parser.expect .semi .semicolonAfterDeclaration
          return Stmt.declare name.offset type name.lexeme init) :=
    refines_bind_ofParser (refines_expect (by decide) _) fun _ => refines_pure _
  refine refines_bind_ofParser refines_next fun type => ?_
  refine refines_bind_ofParser (refines_expect (by decide) _) fun name => ?_
  refine refines_bind_ofParser (refines_accept (by decide)) fun given => ?_
  split
  · exact refines_bind_ofParser (exprRefines n).expr fun init => hclosing _ name init
  · exact refines_bind_ofParser (refines_pure _) fun init => hclosing _ name init

theorem refines_parameters (n : Nat) :
    Refines (parameters n) (ofParser (Recovering.parameters n)) := by
  induction n with
  | zero => exact refines_exhausted
  | succ n ih =>
      rw [parameters, Recovering.parameters]
      refine refines_bind_ofParser (refines_expect (by decide) _) fun first => ?_
      refine refines_bind_ofParser (refines_accept (by decide)) fun more => ?_
      split
      · exact refines_bind_ofParser ih fun others => refines_pure _
      · exact refines_pure _

theorem refines_functionHead (n : Nat) :
    Refines (functionHead n) (ofParser (Recovering.functionHead n)) := by
  have hclosing (name : Token) (params : List Text) :
      Refines (do
          let _ ← expect .rparen .parenthesisAfterParameters
          let _ ← expect .lbrace .functionBody
          return (name, params))
        (ofParser do
          let _ ← Parser.expect .rparen .parenthesisAfterParameters
          let _ ← Parser.expect .lbrace .functionBody
          return (name, params)) := by
    refine refines_bind_ofParser (refines_expect (by decide) _) fun _ => ?_
    exact refines_bind_ofParser (refines_expect (by decide) _) fun _ => refines_pure _
  refine refines_bind_ofParser refines_next fun _ => ?_
  refine refines_bind_ofParser (refines_expect (by decide) _) fun name => ?_
  refine refines_bind_ofParser (refines_expect (by decide) _) fun _ => ?_
  refine refines_bind_ofParser refines_current fun t => ?_
  split
  · exact refines_bind_ofParser (refines_pure _) fun params => hclosing name params
  · exact refines_bind_ofParser (refines_parameters n) fun params => hclosing name params

theorem refines_condition (n : Nat) (opening : Expectation) :
    Refines (condition n opening) (ofParser (Recovering.condition n opening)) := by
  refine refines_bind_ofParser refines_next fun keyword => ?_
  refine refines_bind_ofParser (refines_expect (by decide) _) fun _ => ?_
  refine refines_bind_ofParser (exprRefines n).expr fun cond => ?_
  exact refines_bind_ofParser (refines_expect (by decide) _) fun _ => refines_pure _

theorem refines_returnStatement (n : Nat) :
    Refines (returnStatement n) (ofParser (Recovering.returnStatement n)) := by
  refine refines_bind_ofParser refines_next fun keyword => ?_
  refine refines_bind_ofParser (exprRefines n).expr fun value => ?_
  exact refines_bind_ofParser (refines_expect (by decide) _) fun _ => refines_pure _

theorem refines_exprStatement (n : Nat) :
    Refines (exprStatement n) (ofParser (Recovering.exprStatement n)) := by
  refine refines_bind_ofParser refines_current fun first => ?_
  refine refines_bind_ofParser (exprRefines n).expr fun e => ?_
  exact refines_bind_ofParser (refines_expect (by decide) _) fun _ => refines_pure _

/-! ## Statements -/

/-- **Statements are read as they are parsed**, within the budget `n`. -/
structure StmtRefines (n : Nat) : Prop where
  declaration : Refines (declaration n) (Recovering.declaration n)
  statement : Refines (statement n) (Recovering.statement n)
  block : Refines (block n) (Recovering.block n)

section

variable (ih : StmtRefines n)

include ih

private theorem refines_declaration :
    Refines (declaration (n + 1)) (Recovering.declaration (n + 1)) := by
  rw [declaration, Recovering.declaration]
  refine refines_recover (refines_bind refines_current fun t => ?_)
  split
  · exact refines_variableDeclaration n
  · split
    · refine refines_bind (refines_functionHead n) fun head => ?_
      exact refines_bind ih.block fun body => refines_pure _
    · exact ih.statement

private theorem refines_statement :
    Refines (statement (n + 1)) (Recovering.statement (n + 1)) := by
  rw [statement, Recovering.statement]
  refine refines_bind refines_current fun t => ?_
  cases t.kind with
  | returnWord => exact refines_returnStatement n
  | lbrace =>
      refine refines_bind refines_next fun brace => ?_
      exact refines_bind ih.block fun body => refines_pure _
  | ifWord =>
      refine refines_bind (refines_condition n _) fun head => ?_
      refine refines_bind ih.statement fun yes => ?_
      refine refines_bind (refines_accept (by decide)) fun found => ?_
      split
      · exact refines_bind ih.statement fun no => refines_pure _
      · exact refines_pure _
  | whileWord =>
      refine refines_bind (refines_condition n _) fun head => ?_
      exact refines_bind ih.statement fun body => refines_pure _
  | _ => exact refines_exprStatement n

private theorem refines_block : Refines (block (n + 1)) (Recovering.block (n + 1)) := by
  rw [block, Recovering.block]
  refine refines_bind refines_current fun t => ?_
  split
  · exact refines_bind (refines_expect (by decide) _) fun _ => refines_pure _
  · refine refines_bind ih.declaration fun first => ?_
    exact refines_bind ih.block fun others => refines_pure _

end

/-- **Statements are read as they are parsed**, within every budget. -/
theorem stmtRefines (n : Nat) : StmtRefines n := by
  induction n with
  | zero => constructor <;> exact refines_exhausted
  | succ n ih => exact ⟨refines_declaration ih, refines_statement ih, refines_block ih⟩

theorem refines_declarations (n : Nat) :
    Refines (declarations n) (Recovering.declarations n) := by
  induction n with
  | zero => exact refines_exhausted
  | succ n ih =>
      have hatEnd (f : Bool → Reading (List Stmt)) :
          atEnd >>= f = current >>= fun t => f (t.kind = .eof) := by
        rw [atEnd, bind_assoc]
        rfl
      rw [declarations, Recovering.declarations, hatEnd]
      refine refines_bind refines_current fun t => ?_
      by_cases hend : t.kind = .eof
      · rw [if_pos (decide_eq_true hend), if_pos hend]
        exact refines_pure []
      · rw [if_neg (by simp [hend]), if_neg hend]
        refine refines_bind (stmtRefines n).declaration fun first => ?_
        exact refines_bind ih fun others => refines_pure _

end Reading

/-! ## Programs -/

namespace Reader

variable {r r' : Reader}

/-- A new reader is in its place. -/
theorem placed_newAt (ts : List Token) (start : Int) : (newAt ts start).Placed := by
  refine ⟨?_, ?_⟩
  · have hlength := Parser.complete_length_pos ts
    simp only [newAt, List.size_toArray, Bool.or_eq_true, decide_eq_true_eq]
    split <;> omega
  · exact Parser.complete_ends ts

/-- What is ahead of a new reader is what a parser is given. -/
theorem ahead_newAt (ts : List Token) (start : Int) :
    (newAt ts start).ahead = Parser.startAt ts start := by
  simp only [ahead, newAt, Parser.startAt, List.size_toArray]
  split <;> rfl

/-- The budget of a reader suffices for the tokens ahead. -/
theorem budget_ahead_le (r : Reader) : Parser.budget r.ahead ≤ r.budget := by
  simp only [budget, Parser.budget, length_ahead, Array.length_toList]
  omega

/-- **An expression is read as it is parsed.** -/
theorem parseExpression_tracks (hr : r.Placed) :
    r.Tracks r.parseExpression (Parser.expression r.ahead, []) := by
  have hfuel : Parser.expression r.ahead ≠ .outOfFuel := by
    intro hout
    have hmeets := (Parser.exprProgress (Parser.budget r.ahead)).expr r.ahead
    rw [Parser.expression] at hout
    rw [hout] at hmeets
    have hsmall : Parser.budget r.ahead < 16 * r.ahead.length + 9 := hmeets
    simp only [Parser.budget] at hsmall
    omega
  have hexpr := (Reading.exprRefines r.budget).expr r hr
  rw [ofParser, Parser.expr_mono (budget_ahead_le r) hfuel] at hexpr
  exact hexpr

/-- **A program is read as it is parsed.** The cursor comes to rest at the end token where the
parser ends, and the errors on the way are recorded in order. -/
theorem parseProgram_eq (hr : r.Placed) :
    ∃ stmts log, ∃ k < r.ahead.length, r.parseProgram = .ok stmts (r.moved k log) ∧
      Parser.program r.ahead = (.ok stmts (r.ahead.drop k), log) ∧
      (Parser.current (r.ahead.drop k)).kind = .eof := by
  obtain ⟨stmts, rest, log, hprogram, hend⟩ := Grammar.program_ok r.ahead
  have hlarger : Recovering.declarations r.budget r.ahead = (.ok stmts rest, log) := by
    rw [← hprogram, Parser.program]
    refine Recovering.declarations_mono (budget_ahead_le r) ?_
    rw [← Parser.program, hprogram]
    simp
  have htracks := Reading.refines_declarations r.budget r hr
  rw [hlarger] at htracks
  generalize hrun : Reading.declarations r.budget r = result at htracks
  cases htracks with
  | ok _ _ hk => exact ⟨stmts, log, _, hk, hrun, hprogram, hend⟩

/-- **A program is what a new reader reads.** The cursor moves to an end token. -/
theorem parseProgram_newAt (ts : List Token) (start : Int) :
    ∃ k, (newAt ts start).parseProgram = .ok (Program.ofTokens ts start).stmts
        ((newAt ts start).moved k (Program.ofTokens ts start).errors) ∧
      ∃ ending, (newAt ts start).tokens[(newAt ts start).cursor + k]? = some ending ∧
        ending.kind = .eof := by
  have hplaced := placed_newAt ts start
  obtain ⟨stmts, log, k, hk, hrun, hprogram, hend⟩ := parseProgram_eq hplaced
  have hread : Program.ofTokens ts start = ⟨stmts, log⟩ :=
    Grammar.ofTokens_eq (ahead_newAt ts start ▸ hprogram)
  rw [← ahead_moved _ k log] at hend
  rw [hread]
  exact ⟨k, hrun, _, (hplaced.moved hk log).getElem?_cursor, hend⟩

/-- **The cursor may be shifted.** Readers with the same tokens ahead, whatever stands before, read
the same program, record the same errors and move equally far. -/
theorem parseProgram_shift (hr : r.Placed) (hr' : r'.Placed) (h : r.ahead = r'.ahead) :
    ∃ stmts k log, Parser.program r.ahead = (.ok stmts (r.ahead.drop k), log) ∧
      r.parseProgram = .ok stmts (r.moved k log) ∧
      r'.parseProgram = .ok stmts (r'.moved k log) := by
  obtain ⟨stmts, log, k, hk, hrun, hprogram, -⟩ := parseProgram_eq hr
  obtain ⟨stmts', log', k', hk', hrun', hprogram', -⟩ := parseProgram_eq hr'
  rw [← h] at hk' hprogram'
  obtain ⟨hparsed, rfl⟩ := Prod.mk.inj (hprogram.symm.trans hprogram')
  obtain ⟨rfl, hdrop⟩ := Parsed.ok.inj hparsed
  have hlength := congrArg List.length hdrop
  rw [List.length_drop, List.length_drop] at hlength
  obtain rfl : k = k' := by omega
  exact ⟨stmts, k, log, hprogram, hrun, hrun'⟩

end Reader

end Badger
