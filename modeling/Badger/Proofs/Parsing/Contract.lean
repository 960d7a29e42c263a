import Badger.Tree.Parser

/-!
# Contracts of parsers

What a parser makes of tokens is described by a contract: what holds of a result and the
tokens left, what holds of an error and the tokens left, and what follows if the budget was
too small.

## Main definitions

* `Parsed.Meets`: a contract for what a parser makes of tokens
* `Recovering.Meets`: the same for parsers that record errors on the way
* `Parsed.Yields`, `Recovering.Yields`: the contract that names the result

## Main statements

One equation for each parser: a contract holds of it exactly if contracts hold of the parsers
that it calls.
-/

namespace Badger

variable {α β : Type}

/-- **A contract.** What holds of a result, of an error, and of an exhausted budget. -/
def Parsed.Meets (r : Parsed α) (ok : α → List Token → Prop)
    (fail : Finding → List Token → Prop) (out : Prop) : Prop :=
  match r with
  | .ok a rest => ok a rest
  | .fail e rest => fail e rest
  | .outOfFuel => out

namespace Parsed

/-- A contract may be weakened. -/
theorem Meets.mono {r : Parsed α} {ok ok' : α → List Token → Prop}
    {fail fail' : Finding → List Token → Prop} {out out' : Prop} (h : r.Meets ok fail out)
    (hok : ∀ a rest, ok a rest → ok' a rest) (hfail : ∀ e rest, fail e rest → fail' e rest)
    (hout : out → out') : r.Meets ok' fail' out' := by
  cases r with
  | ok a rest => exact hok a rest h
  | fail e rest => exact hfail e rest h
  | outOfFuel => exact hout h

/-- Unless the budget runs out, the result is the given one. -/
def Yields (r : Parsed α) (a : α) (rest : List Token) : Prop :=
  r.Meets (fun a' rest' => a' = a ∧ rest' = rest) (fun _ _ => False) True

theorem Yields.meets {r : Parsed α} {a : α} {rest : List Token} (h : r.Yields a rest)
    {ok : α → List Token → Prop} {fail : Finding → List Token → Prop} (hok : ok a rest) :
    r.Meets ok fail True := by
  refine h.mono ?_ (fun _ _ h => h.elim) (fun h => h)
  rintro a' rest' ⟨rfl, rfl⟩
  exact hok

end Parsed

namespace Parser

variable {ok : α → List Token → Prop} {fail : Finding → List Token → Prop} {out : Prop}

/-! ## Single tokens -/

theorem eq_current_cons_advance {ts : List Token} (h : (current ts).kind ≠ .eof) :
    ts = current ts :: advance ts := by
  cases ts with
  | nil => exact absurd rfl h
  | cons t ts => simpa [current, advance] using h

@[simp] theorem current_cons (t : Token) (ts : List Token) : current (t :: ts) = t := rfl

theorem advance_cons {t : Token} (h : t.kind ≠ .eof) (ts : List Token) :
    advance (t :: ts) = ts := if_neg h

/-- A token of a kind other than the end stands ahead of the tokens that follow it. -/
theorem exists_cons_of_kind {ts : List Token} {kind : TokenKind}
    (h : (current ts).kind = kind) (hkind : kind ≠ .eof) :
    ∃ t rest, ts = t :: rest ∧ t.kind = kind ∧ advance ts = rest := by
  have hne : (current ts).kind ≠ .eof := h ▸ hkind
  exact ⟨current ts, advance ts, eq_current_cons_advance hne, h, rfl⟩

theorem advance_suffix (ts : List Token) : advance ts <:+ ts := by
  cases ts with
  | nil => exact List.suffix_rfl
  | cons t ts =>
      by_cases h : t.kind = .eof
      · simp [advance, h]
      · rw [advance_cons h]
        exact List.suffix_cons t ts

@[simp] theorem meets_pure (a : α) (ts : List Token) :
    ((pure a : Parser α) ts).Meets ok fail out ↔ ok a ts := Iff.rfl

@[simp] theorem meets_bind (p : Parser β) (f : β → Parser α) (ts : List Token) :
    ((p >>= f) ts).Meets ok fail out ↔
      (p ts).Meets (fun b rest => (f b rest).Meets ok fail out) fail out := by
  simp only [bind]
  cases p ts <;> rfl

@[simp] theorem meets_peek {ok : Token → List Token → Prop} (ts : List Token) :
    (peek ts).Meets ok fail out ↔ ok (current ts) ts := Iff.rfl

@[simp] theorem meets_take {ok : Token → List Token → Prop} (ts : List Token) :
    (take ts).Meets ok fail out ↔ ok (current ts) (advance ts) := Iff.rfl

@[simp] theorem meets_exhausted (ts : List Token) :
    ((exhausted : Parser α) ts).Meets ok fail out ↔ out := Iff.rfl

@[simp] theorem meets_failAt (problem : Problem) (offset : Int) (ts : List Token) :
    ((failAt problem offset : Parser α) ts).Meets ok fail out ↔
      fail ⟨problem, offset⟩ ts := Iff.rfl

@[simp] theorem meets_failHere (what : Expectation) (ts : List Token) :
    ((failHere what : Parser α) ts).Meets ok fail out ↔
      fail ⟨.expected what, (current ts).offset⟩ ts := Iff.rfl

@[simp] theorem meets_expect {ok : Token → List Token → Prop} (kind : TokenKind)
    (what : Expectation) (ts : List Token) :
    (expect kind what ts).Meets ok fail out ↔
      if (current ts).kind = kind then ok (current ts) (advance ts)
      else fail ⟨.expected what, (current ts).offset⟩ ts := by
  rw [expect]
  split <;> rfl

@[simp] theorem meets_accept {ok : Bool → List Token → Prop} (kind : TokenKind)
    (ts : List Token) :
    (accept kind ts).Meets ok fail out ↔
      if (current ts).kind = kind then ok true (advance ts) else ok false ts := by
  rw [accept]
  split <;> rfl

/-- A choice between two parsers is made before either of them looks at the tokens. -/
@[simp] theorem meets_ite (c : Prop) [Decidable c] (p q : Parser α) (ts : List Token) :
    ((if c then p else q) ts).Meets ok fail out ↔
      if c then (p ts).Meets ok fail out else (q ts).Meets ok fail out := by
  split <;> rfl

/-! ## Expressions -/

section Expressions

variable {ok : Expr → List Token → Prop}

theorem meets_expr (fuel : Nat) (ts : List Token) :
    (expr (fuel + 1) ts).Meets ok fail out ↔
      (operators fuel levels ts).Meets (fun target rest =>
        if (current rest).kind = .assign then
          (expr fuel (advance rest)).Meets (fun value rest' =>
            match target with
            | .ident pos name => ok (.assign pos name value) rest'
            | _ => fail ⟨.invalidTarget, (current rest).offset⟩ rest') fail out
        else ok target rest) fail out := by
  rw [expr]
  simp only [meets_bind, meets_peek, meets_ite, meets_take, meets_pure]
  refine Iff.of_eq (congrArg (fun q => Parsed.Meets _ q fail out) ?_)
  funext target rest
  cases target <;> rfl

theorem meets_operators_nil (fuel : Nat) (ts : List Token) :
    (operators (fuel + 1) [] ts).Meets ok fail out ↔
      (unary fuel ts).Meets ok fail out := by
  rw [operators]

theorem meets_operators_cons (fuel : Nat) (level : List TokenKind)
    (tighter : List (List TokenKind)) (ts : List Token) :
    (operators (fuel + 1) (level :: tighter) ts).Meets ok fail out ↔
      (operators fuel tighter ts).Meets (fun left rest =>
        (operatorsAfter fuel level tighter left rest).Meets ok fail out) fail out := by
  rw [operators, meets_bind]

theorem meets_operatorsAfter (fuel : Nat) (level : List TokenKind)
    (tighter : List (List TokenKind)) (left : Expr) (ts : List Token) :
    (operatorsAfter (fuel + 1) level tighter left ts).Meets ok fail out ↔
      if (current ts).kind ∈ level then
        (operators fuel tighter (advance ts)).Meets (fun right rest =>
          (operatorsAfter fuel level tighter
            (.binary (current ts).offset (binaryOp (current ts)) left right)
            rest).Meets ok fail out) fail out
      else ok left ts := by
  rw [operatorsAfter]
  simp only [meets_bind, meets_peek, meets_ite, meets_take, meets_pure, List.contains_iff_mem]

theorem meets_unary (fuel : Nat) (ts : List Token) :
    (unary (fuel + 1) ts).Meets ok fail out ↔
      if (current ts).kind = .bang ∨ (current ts).kind = .minus then
        (unary fuel (advance ts)).Meets (fun operand rest =>
          ok (.unary (current ts).offset (UnaryOp.ofLexeme (current ts).lexeme) operand) rest)
          fail out
      else
        (primary fuel ts).Meets (fun callee rest =>
          (calls fuel callee rest).Meets ok fail out) fail out := by
  rw [unary]
  simp only [meets_bind, meets_peek, meets_ite, meets_take, meets_pure, Bool.or_eq_true,
    decide_eq_true_eq]

theorem meets_calls (fuel : Nat) (callee : Expr) (ts : List Token) :
    (calls (fuel + 1) callee ts).Meets ok fail out ↔
      if (current ts).kind = .lparen then
        (if (current (advance ts)).kind = .rparen then pure [] else arguments fuel)
          (advance ts) |>.Meets (fun args rest =>
            if (current rest).kind = .rparen then
              (calls fuel (.call (current ts).offset callee args)
                (advance rest)).Meets ok fail out
            else fail ⟨.expected .parenthesisAfterArguments, (current rest).offset⟩ rest)
          fail out
      else ok callee ts := by
  rw [calls]
  simp only [meets_bind, meets_peek, meets_ite, meets_take, meets_pure, meets_expect]

theorem meets_arguments {ok : List Expr → List Token → Prop} (fuel : Nat) (ts : List Token) :
    (arguments (fuel + 1) ts).Meets ok fail out ↔
      (expr fuel ts).Meets (fun first rest =>
        if (current rest).kind = .comma then
          (arguments fuel (advance rest)).Meets (fun others rest' => ok (first :: others) rest')
            fail out
        else ok [first] rest) fail out := by
  rw [arguments]
  simp only [meets_bind, meets_accept, meets_ite, meets_pure, if_true, Bool.false_eq_true,
    if_false]

/-- What `primary` does depends on the kind of the token ahead. -/
theorem meets_primary (fuel : Nat) (ts : List Token) :
    (primary (fuel + 1) ts).Meets ok fail out ↔
      match (current ts).kind with
      | .falseWord => ok (.bool (current ts).offset false) (advance ts)
      | .trueWord => ok (.bool (current ts).offset true) (advance ts)
      | .number => ok (.num (current ts).offset (current ts).number) (advance ts)
      | .string => ok (.str (current ts).offset (current ts).lexeme) (advance ts)
      | .ident => ok (.ident (current ts).offset (current ts).lexeme) (advance ts)
      | .at =>
        if (current (advance ts)).kind = .ident then
          ok (.symbol (current ts).offset (current (advance ts)).lexeme) (advance (advance ts))
        else fail ⟨.expected .symbolName, (current (advance ts)).offset⟩ (advance ts)
      | .lparen =>
        (expr fuel (advance ts)).Meets (fun inner rest =>
          if (current rest).kind = .rparen then
            ok (.group (current ts).offset inner) (advance rest)
          else fail ⟨.expected .parenthesisAfterExpression, (current rest).offset⟩ rest) fail out
      | _ => fail ⟨.expected .expression, (current ts).offset⟩ ts := by
  rw [primary]
  rw [meets_bind, meets_peek]
  cases (current ts).kind <;>
    simp only [meets_bind, meets_take, meets_pure, meets_expect, meets_failHere]

end Expressions

end Parser

namespace Recovering

open Badger.Parser

/-! ## Parts of statements -/

section Parts

variable {ok : Stmt → List Token → Prop} {fail : Finding → List Token → Prop} {out : Prop}

theorem meets_variableDeclaration (fuel : Nat) (ts : List Token) :
    (variableDeclaration fuel ts).Meets ok fail out ↔
      if (current (advance ts)).kind = .ident then
        let type := DeclaredType.ofName (current ts).lexeme
        let name := current (advance ts)
        let finish := fun init rest =>
          if (current rest).kind = .semi then
            ok (.declare name.offset type name.lexeme init) (advance rest)
          else fail ⟨.expected .semicolonAfterDeclaration, (current rest).offset⟩ rest
        let after := advance (advance ts)
        if (current after).kind = .assign then
          (expr fuel (advance after)).Meets finish fail out
        else finish (zeroValue type name.offset) after
      else fail ⟨.expected .variableName, (current (advance ts)).offset⟩ (advance ts) := by
  rw [variableDeclaration]
  simp only [meets_bind, meets_take, meets_expect, meets_accept, meets_ite, meets_pure, if_true,
    Bool.false_eq_true, if_false]

theorem meets_parameters {ok : List Text → List Token → Prop} (fuel : Nat) (ts : List Token) :
    (parameters (fuel + 1) ts).Meets ok fail out ↔
      if (current ts).kind = .ident then
        if (current (advance ts)).kind = .comma then
          (parameters fuel (advance (advance ts))).Meets
            (fun others rest => ok ((current ts).lexeme :: others) rest) fail out
        else ok [(current ts).lexeme] (advance ts)
      else fail ⟨.expected .parameterName, (current ts).offset⟩ ts := by
  rw [parameters]
  simp only [meets_bind, meets_expect, meets_accept, meets_ite, meets_pure, if_true,
    Bool.false_eq_true, if_false]

theorem meets_functionHead {ok : Token × List Text → List Token → Prop} (fuel : Nat)
    (ts : List Token) :
    (functionHead fuel ts).Meets ok fail out ↔
      let name := current (advance ts)
      let opening := advance (advance ts)
      if name.kind = .ident then
        if (current opening).kind = .lparen then
          (if (current (advance opening)).kind = .rparen then pure [] else parameters fuel)
            (advance opening) |>.Meets (fun params rest =>
              if (current rest).kind = .rparen then
                if (current (advance rest)).kind = .lbrace then
                  ok (name, params) (advance (advance rest))
                else
                  fail ⟨.expected .functionBody, (current (advance rest)).offset⟩ (advance rest)
              else fail ⟨.expected .parenthesisAfterParameters, (current rest).offset⟩ rest)
            fail out
        else fail ⟨.expected .parenthesisAfterFunctionName, (current opening).offset⟩ opening
      else fail ⟨.expected .functionName, name.offset⟩ (advance ts) := by
  rw [functionHead]
  simp only [meets_bind, meets_take, meets_peek, meets_expect, meets_ite, meets_pure]

theorem meets_condition {ok : Token × Expr → List Token → Prop} (fuel : Nat)
    (opening : Expectation) (ts : List Token) :
    (condition fuel opening ts).Meets ok fail out ↔
      if (current (advance ts)).kind = .lparen then
        (expr fuel (advance (advance ts))).Meets (fun cond rest =>
          if (current rest).kind = .rparen then ok (current ts, cond) (advance rest)
          else fail ⟨.expected .parenthesisAfterCondition, (current rest).offset⟩ rest) fail out
      else fail ⟨.expected opening, (current (advance ts)).offset⟩ (advance ts) := by
  rw [condition]
  simp only [meets_bind, meets_take, meets_expect, meets_pure]

theorem meets_returnStatement (fuel : Nat) (ts : List Token) :
    (returnStatement fuel ts).Meets ok fail out ↔
      (expr fuel (advance ts)).Meets (fun value rest =>
        if (current rest).kind = .semi then ok (.ret (current ts).offset value) (advance rest)
        else fail ⟨.expected .semicolonAfterValue, (current rest).offset⟩ rest) fail out := by
  rw [returnStatement]
  simp only [meets_bind, meets_take, meets_expect, meets_pure]

theorem meets_exprStatement (fuel : Nat) (ts : List Token) :
    (exprStatement fuel ts).Meets ok fail out ↔
      (expr fuel ts).Meets (fun e rest =>
        if (current rest).kind = .semi then ok (.expr (current ts).offset e) (advance rest)
        else fail ⟨.expected .semicolonAfterValue, (current rest).offset⟩ rest) fail out := by
  rw [exprStatement]
  simp only [meets_bind, meets_peek, meets_expect, meets_pure]

end Parts

/-! ## Statements -/

/-- A contract for a parser that records errors; the record is an argument of what holds of
results and errors. -/
def Meets (r : Parsed α × List Finding) (ok : α → List Token → List Finding → Prop)
    (fail : Finding → List Token → List Finding → Prop) (out : Prop) : Prop :=
  r.1.Meets (fun a rest => ok a rest r.2) (fun e rest => fail e rest r.2) out

variable {ok : α → List Token → List Finding → Prop}
  {fail : Finding → List Token → List Finding → Prop} {out : Prop}

/-- A contract may be weakened. -/
theorem Meets.mono {r : Parsed α × List Finding}
    {ok' : α → List Token → List Finding → Prop}
    {fail' : Finding → List Token → List Finding → Prop} {out' : Prop} (h : Meets r ok fail out)
    (hok : ∀ a rest log, ok a rest log → ok' a rest log)
    (hfail : ∀ e rest log, fail e rest log → fail' e rest log) (hout : out → out') :
    Meets r ok' fail' out' :=
  Parsed.Meets.mono h (fun a rest => hok a rest r.2) (fun e rest => hfail e rest r.2) hout

/-- Two contracts are met together. -/
theorem Meets.and {r : Parsed α × List Finding} {ok' : α → List Token → List Finding → Prop}
    {fail' : Finding → List Token → List Finding → Prop} {out' : Prop} (h : Meets r ok fail out)
    (h' : Meets r ok' fail' out') :
    Meets r (fun a rest log => ok a rest log ∧ ok' a rest log)
      (fun e rest log => fail e rest log ∧ fail' e rest log) (out ∧ out') := by
  rcases r with ⟨_ | _ | _, log⟩ <;> exact ⟨h, h'⟩

/-- The contract that names what there is. -/
theorem Meets.self (r : Parsed α × List Finding) : Meets r
    (fun a rest log => r = (.ok a rest, log)) (fun e rest log => r = (.fail e rest, log))
    (r.1 = .outOfFuel) := by
  rcases r with ⟨_ | _ | _, log⟩ <;> rfl

/-- A contract that asks nothing is met. -/
theorem Meets.of_forall {r : Parsed α × List Finding} (hok : ∀ a rest log, ok a rest log)
    (hfail : ∀ e rest log, fail e rest log) (hout : out) : Meets r ok fail out := by
  rcases r with ⟨_ | _ | _, log⟩
  · exact hok _ _ log
  · exact hfail _ _ log
  · exact hout

/-- Unless the budget runs out, the result is the given one and nothing is recorded. -/
def Yields (r : Parsed α × List Finding) (a : α) (rest : List Token) : Prop :=
  Meets r (fun a' rest' log => a' = a ∧ rest' = rest ∧ log = []) (fun _ _ _ => False) True

theorem Yields.meets {r : Parsed α × List Finding} {a : α} {rest : List Token}
    (h : Yields r a rest) (hok : ok a rest []) : Meets r ok fail True := by
  refine h.mono ?_ (fun _ _ _ h => h.elim) (fun h => h)
  rintro a' rest' log ⟨rfl, rfl, rfl⟩
  exact hok

theorem meets_pure (a : α) (ts : List Token) :
    Meets ((pure a : Recovering α) ts) ok fail out ↔ ok a ts [] := Iff.rfl

theorem meets_lift (p : Parser α) (ts : List Token) :
    Meets ((liftM p : Recovering α) ts) ok fail out ↔
      (p ts).Meets (fun a rest => ok a rest []) (fun e rest => fail e rest []) out := Iff.rfl

theorem meets_bind (p : Recovering β) (f : β → Recovering α) (ts : List Token) :
    Meets ((p >>= f) ts) ok fail out ↔
      Meets (p ts) (fun b rest log =>
        Meets (f b rest) (fun a rest' more => ok a rest' (log ++ more))
          (fun e rest' more => fail e rest' (log ++ more)) out) fail out := by
  simp only [bind]
  rcases p ts with ⟨_ | _ | _, log⟩ <;> rfl

theorem meets_ite (c : Prop) [Decidable c] (p q : Recovering α) (ts : List Token) :
    Meets ((if c then p else q) ts) ok fail out ↔
      if c then Meets (p ts) ok fail out else Meets (q ts) ok fail out := by
  split <;> rfl

theorem meets_recover {ok : Stmt → List Token → List Finding → Prop} (p : Recovering Stmt)
    (ts : List Token) :
    Meets (recover p ts) ok fail out ↔
      Meets (p ts) ok (fun e rest log => ok .missing (synchronize rest) (log ++ [e])) out := by
  rw [recover]
  rcases p ts with ⟨_ | _ | _, log⟩ <;> rfl

theorem meets_declaration {ok : Stmt → List Token → List Finding → Prop} (fuel : Nat)
    (ts : List Token) :
    Meets (declaration (fuel + 1) ts) ok fail out ↔
      let failed := fun e rest log => ok .missing (synchronize rest) (log ++ [e])
      if (current ts).kind.isType then
        (variableDeclaration fuel ts).Meets (fun s rest => ok s rest [])
          (fun e rest => failed e rest []) out
      else if (current ts).kind = .fxn then
        (functionHead fuel ts).Meets (fun head rest =>
          Meets (block fuel rest) (fun body rest' log =>
            ok (.fxn head.1.offset head.1.lexeme head.2 body) rest' log) failed out)
          (fun e rest => failed e rest []) out
      else Meets (statement fuel ts) ok failed out := by
  rw [declaration, meets_recover]
  simp only [meets_bind, meets_lift, meets_peek, meets_ite, meets_pure, List.append_nil,
    List.nil_append]

theorem meets_statement {ok : Stmt → List Token → List Finding → Prop} (fuel : Nat)
    (ts : List Token) :
    Meets (statement (fuel + 1) ts) ok fail out ↔
      match (current ts).kind with
      | .returnWord =>
        (returnStatement fuel ts).Meets (fun s rest => ok s rest [])
          (fun e rest => fail e rest []) out
      | .lbrace =>
        Meets (block fuel (advance ts))
          (fun body rest log => ok (.block (current ts).offset body) rest log) fail out
      | .ifWord =>
        (condition fuel .parenthesisAfterIf ts).Meets (fun head rest =>
          Meets (statement fuel rest) (fun yes rest' log =>
            if (current rest').kind = .elseWord then
              Meets (statement fuel (advance rest'))
                (fun no rest'' more =>
                  ok (.ifElse head.1.offset head.2 yes no) rest'' (log ++ more))
                (fun e rest'' more => fail e rest'' (log ++ more)) out
            else ok (.ifThen head.1.offset head.2 yes) rest' log) fail out)
          (fun e rest => fail e rest []) out
      | .whileWord =>
        (condition fuel .parenthesisAfterWhile ts).Meets (fun head rest =>
          Meets (statement fuel rest)
            (fun body rest' log => ok (.loop head.1.offset head.2 body) rest' log) fail out)
          (fun e rest => fail e rest []) out
      | _ =>
        (exprStatement fuel ts).Meets (fun s rest => ok s rest [])
          (fun e rest => fail e rest []) out := by
  rw [statement, meets_bind, meets_lift, meets_peek]
  cases (current ts).kind <;>
    simp only [meets_bind, meets_lift, meets_take, meets_accept, meets_ite, meets_pure, if_true,
      Bool.false_eq_true, if_false, List.append_nil, List.nil_append]

theorem meets_block {ok : List Stmt → List Token → List Finding → Prop} (fuel : Nat)
    (ts : List Token) :
    Meets (block (fuel + 1) ts) ok fail out ↔
      if (current ts).kind = .rbrace then ok [] (advance ts) []
      else if (current ts).kind = .eof then
        fail ⟨.expected .braceAfterBlock, (current ts).offset⟩ ts []
      else
        Meets (declaration fuel ts) (fun first rest log =>
          Meets (block fuel rest)
            (fun others rest' more =>
              ok (if first.isMissing then others else first :: others) rest' (log ++ more))
            (fun e rest' more => fail e rest' (log ++ more)) out) fail out := by
  rw [block]
  simp only [meets_bind, meets_lift, meets_peek, meets_ite, meets_pure, meets_expect,
    List.append_nil, List.nil_append, Bool.or_eq_true, decide_eq_true_eq]
  split <;> split <;> simp_all

theorem meets_declarations {ok : List Stmt → List Token → List Finding → Prop} (fuel : Nat)
    (ts : List Token) :
    Meets (declarations (fuel + 1) ts) ok fail out ↔
      if (current ts).kind = .eof then ok [] ts []
      else
        Meets (declaration fuel ts) (fun first rest log =>
          Meets (declarations fuel rest)
            (fun others rest' more => ok (first :: others) rest' (log ++ more))
            (fun e rest' more => fail e rest' (log ++ more)) out) fail out := by
  rw [declarations]
  simp only [meets_bind, meets_lift, meets_peek, meets_ite, meets_pure, List.append_nil,
    List.nil_append]

end Recovering

end Badger
