import Badger.Proofs.Parsing.Refinement

/-!
# Where reading starts and where it ends

A parser looks at the tokens ahead of it. What stands before them plays no part, not even where the
parser has a cursor in all tokens and could look there; and the end token behind them is never
consumed: its offset shows in the errors that are placed at it, and nowhere else.

## Main definitions

* `Mark`: the place of an error, which is one of the tokens or the end token, whichever that is
* `Parsed.Uniform`: runs that differ in the end token only, and only there
* `Parser.Uniform`, `Recovering.Uniform`: parsers with such runs

## Main statements

* `Parser.exprUniform`: the parsers of expressions are uniform, at every budget
* `Recovering.stmtUniform`: so are the parsers of statements
* `Program.reads_ahead`: **a program depends on what lies ahead**, also for a parser with a cursor,
  and on the offset of the end in errors only

## Design notes

All runs are taken together, as a function of the end token. An error is then placed at the end
token if it moves with it, even where the offset of that token is the one of another token too.
-/

namespace Badger

open Badger.Parser

variable {α β : Type} {tokens xs : List Token}

/-! ## Runs that differ in the end token -/

/-- An end token, wherever it is placed. -/
abbrev Ending : Type := { t : Token // t.kind = .eof }

/-- **The place of an error**: one of the tokens or, if none is named, the end token. -/
structure Mark where
  problem : Problem
  token? : Option Token

namespace Mark

/-- The error, for an end token. -/
def finding (m : Mark) (ending : Token) : Finding := ⟨m.problem, (m.token?.getD ending).offset⟩

theorem finding_congr (m : Mark) {ending ending' : Token} (h : ending.offset = ending'.offset) :
    m.finding ending = m.finding ending' := by
  unfold finding
  cases m.token? with
  | none => exact congrArg _ h
  | some t => rfl

/-- The place of an error is among some tokens, if it is not the end token. -/
def Among (tokens : List Token) (m : Mark) : Prop := ∀ t ∈ m.token?, t ∈ tokens

end Mark

/-- **Runs that differ in the end token only.** They have the same result, or the same problem at
the same place, and leave the same tokens in front of the end token. -/
inductive Parsed.Uniform (tokens : List Token) : (Ending → Parsed α) → Prop where
  | ok (a : α) {rest : List Token} (hrest : rest <:+ tokens) :
      Uniform tokens fun e => .ok a (rest ++ [e.1])
  | fail {m : Mark} {rest : List Token} (hm : m.Among tokens) (hrest : rest <:+ tokens) :
      Uniform tokens fun e => .fail (m.finding e.1) (rest ++ [e.1])
  | outOfFuel : Uniform tokens fun _ => .outOfFuel

theorem mem_of_suffix {t : Token} {ts : List Token} (h : t :: ts <:+ tokens) : t ∈ tokens :=
  h.subset List.mem_cons_self

theorem tail_suffix {t : Token} {ts : List Token} (h : t :: ts <:+ tokens) : ts <:+ tokens :=
  (List.suffix_cons t ts).trans h

namespace Parser

/-- **A uniform parser.** With tokens `xs` ahead its runs differ in the end token behind them
only. -/
def Uniform (tokens : List Token) (p : Parser α) (xs : List Token) : Prop :=
  Parsed.Uniform tokens fun e => p (xs ++ [e.1])

theorem uniform_pure (h : xs <:+ tokens) (a : α) : Uniform tokens (pure a) xs := .ok a h

theorem uniform_exhausted : Uniform tokens (exhausted : Parser α) xs := .outOfFuel

/-- **One uniform parser after another.** -/
theorem uniform_bind {p : Parser α} {f : α → Parser β} (hp : Uniform tokens p xs)
    (hf : ∀ a rest, rest <:+ tokens → Uniform tokens (f a) rest) : Uniform tokens (p >>= f) xs := by
  unfold Uniform at hp ⊢
  generalize hrun : (fun e : Ending => p (xs ++ [e.1])) = run at hp
  have hrun (e : Ending) : p (xs ++ [e.1]) = run e := congrFun hrun e
  simp only [bind, hrun]
  cases hp with
  | ok a hrest => exact hf a _ hrest
  | fail hm hrest => exact .fail hm hrest
  | outOfFuel => exact .outOfFuel

/-- What follows a look at the token ahead: `b`, if that is the end token. -/
theorem uniform_peek {f : Token → Parser α} (b : Parser α) (hb : ∀ t, t.kind = .eof → f t = b)
    (hhere : ∀ t ts, xs = t :: ts → Uniform tokens (f t) xs)
    (hend : xs = [] → Uniform tokens b xs) : Uniform tokens (peek >>= f) xs := by
  cases xs with
  | nil =>
      have hrun : (fun e : Ending => (peek >>= f) ([] ++ [e.1])) = fun e => b ([] ++ [e.1]) :=
        funext fun e => congrFun (hb e.1 e.2) _
      unfold Uniform
      rw [hrun]
      exact hend rfl
  | cons t ts => exact hhere t ts rfl

/-- A choice by the kind of the token ahead. -/
theorem uniform_choice (c : TokenKind → Prop) [DecidablePred c] (hc : ¬c .eof)
    {f g : Token → Parser α} {b : Parser α} (hf : ∀ t, f t = if c t.kind then g t else b)
    (hg : ∀ t ts, xs = t :: ts → c t.kind → Uniform tokens (g t) (t :: ts))
    (hb : Uniform tokens b xs) : Uniform tokens (peek >>= f) xs := by
  refine uniform_peek b (fun t ht => by rw [hf, ht, if_neg hc]) (fun t ts hxs => ?_) fun _ => hb
  rw [hf]
  split
  · next hchosen => exact hxs ▸ hg t ts hxs hchosen
  · exact hb

theorem uniform_failHere (h : xs <:+ tokens) (what : Expectation) :
    Uniform tokens (failHere what : Parser α) xs := by
  cases xs with
  | nil => exact .fail (m := ⟨.expected what, none⟩) (fun _ ht => nomatch ht) h
  | cons t ts =>
      refine .fail (m := ⟨.expected what, some t⟩) (fun u hu => ?_) h
      cases hu
      exact mem_of_suffix h

theorem uniform_failAt (h : xs <:+ tokens) (problem : Problem) {t : Token} (ht : t ∈ tokens) :
    Uniform tokens (failAt problem t.offset : Parser α) xs := by
  refine .fail (m := ⟨problem, some t⟩) (fun u hu => ?_) h
  cases hu
  exact ht

section

variable (htokens : ∀ t ∈ tokens, t.kind ≠ .eof)

include htokens

theorem advance_append_ending {t : Token} {ts : List Token} (h : t :: ts <:+ tokens) (e : Ending) :
    advance (t :: ts ++ [e.1]) = ts ++ [e.1] :=
  advance_cons (htokens t (mem_of_suffix h)) _

/-- What follows a token that is consumed. -/
theorem uniform_take {f : Token → Parser α} {t : Token} {ts : List Token} (h : t :: ts <:+ tokens)
    (hf : Uniform tokens (f t) ts) : Uniform tokens (take >>= f) (t :: ts) := by
  have hrun : (fun e : Ending => (take >>= f) (t :: ts ++ [e.1])) =
      fun e => f t (ts ++ [e.1]) := by
    funext e
    simp only [bind, take, advance_append_ending htokens h]
    rfl
  unfold Uniform
  rw [hrun]
  exact hf

theorem uniform_expect (h : xs <:+ tokens) {kind : TokenKind} (hkind : kind ≠ .eof)
    (what : Expectation) : Uniform tokens (expect kind what) xs := by
  have hexpect : expect kind what = peek >>= fun t =>
      if t.kind = kind then take >>= pure else failHere what := by
    funext ts
    show _ = (if (current ts).kind = kind then take >>= pure else failHere what) ts
    rw [expect, apply_ite (fun p : Parser Token => p ts)]
    rfl
  rw [hexpect]
  refine uniform_choice (· = kind) hkind.symm (fun _ => rfl) ?_ (uniform_failHere h what)
  rintro t ts rfl -
  exact uniform_take htokens h (uniform_pure (tail_suffix h) t)

/-- A token of a given kind that ends a construct. -/
theorem uniform_closing (h : xs <:+ tokens) {kind : TokenKind} (hkind : kind ≠ .eof)
    (what : Expectation) (a : α) :
    Uniform tokens (expect kind what >>= fun _ => pure a) xs :=
  uniform_bind (uniform_expect htokens h hkind what) fun _ _ hrest => uniform_pure hrest a

theorem uniform_accept (h : xs <:+ tokens) {kind : TokenKind} (hkind : kind ≠ .eof) :
    Uniform tokens (accept kind) xs := by
  have haccept : accept kind = peek >>= fun t =>
      if t.kind = kind then take >>= fun _ => pure true else pure false := by
    funext ts
    show _ = (if (current ts).kind = kind then take >>= fun _ => pure true else pure false) ts
    rw [accept, apply_ite (fun p : Parser Bool => p ts)]
    rfl
  rw [haccept]
  refine uniform_choice (· = kind) hkind.symm (fun _ => rfl) ?_ (uniform_pure h false)
  rintro t ts rfl -
  exact uniform_take htokens h (uniform_pure (tail_suffix h) true)

end

/-! ## Expressions -/

/-- **The parsers of expressions are uniform**, at a budget. -/
structure ExprUniform (tokens : List Token) (fuel : Nat) : Prop where
  expr {xs : List Token} (h : xs <:+ tokens) : Uniform tokens (expr fuel) xs
  operators {tighter : List (List TokenKind)} (ht : tighter <:+ levels) {xs : List Token}
    (h : xs <:+ tokens) : Uniform tokens (operators fuel tighter) xs
  operatorsAfter {level : List TokenKind} {tighter : List (List TokenKind)}
    (ht : level :: tighter <:+ levels) (left : Expr) {xs : List Token} (h : xs <:+ tokens) :
    Uniform tokens (operatorsAfter fuel level tighter left) xs
  unary {xs : List Token} (h : xs <:+ tokens) : Uniform tokens (unary fuel) xs
  calls (callee : Expr) {xs : List Token} (h : xs <:+ tokens) :
    Uniform tokens (calls fuel callee) xs
  arguments {xs : List Token} (h : xs <:+ tokens) : Uniform tokens (arguments fuel) xs
  primary {xs : List Token} (h : xs <:+ tokens) : Uniform tokens (primary fuel) xs

section

variable {fuel : Nat} (htokens : ∀ t ∈ tokens, t.kind ≠ .eof) (ih : ExprUniform tokens fuel)

include htokens ih

private theorem expr_uniform (h : xs <:+ tokens) : Uniform tokens (expr (fuel + 1)) xs := by
  rw [expr]
  refine uniform_bind (ih.operators List.suffix_rfl h) fun target rest hrest => ?_
  refine uniform_choice (· = .assign) (by decide) (fun _ => rfl) ?_ (uniform_pure hrest target)
  rintro equals rest rfl -
  refine uniform_take htokens hrest ?_
  refine uniform_bind (ih.expr (tail_suffix hrest)) fun value rest' hrest' => ?_
  split
  · exact uniform_pure hrest' _
  · exact uniform_failAt hrest' _ (mem_of_suffix hrest)

omit htokens in
private theorem operators_uniform {tighter : List (List TokenKind)} (ht : tighter <:+ levels)
    (h : xs <:+ tokens) : Uniform tokens (operators (fuel + 1) tighter) xs := by
  cases tighter with
  | nil =>
      rw [operators]
      exact ih.unary h
  | cons level tighter =>
      rw [operators]
      refine uniform_bind (ih.operators (tighter_suffix ht) h) fun left rest hrest => ?_
      exact ih.operatorsAfter ht left hrest

private theorem operatorsAfter_uniform {level : List TokenKind} {tighter : List (List TokenKind)}
    (ht : level :: tighter <:+ levels) (left : Expr) (h : xs <:+ tokens) :
    Uniform tokens (operatorsAfter (fuel + 1) level tighter left) xs := by
  have hend : ¬level.contains .eof = true := by
    rw [List.contains_iff_mem]
    exact eof_notMem_of_suffix ht
  rw [operatorsAfter]
  refine uniform_choice (level.contains · = true) hend (fun _ => rfl) ?_ (uniform_pure h left)
  rintro op rest rfl -
  refine uniform_take htokens h ?_
  refine uniform_bind (ih.operators (tighter_suffix ht) (tail_suffix h)) fun right rest hrest => ?_
  exact ih.operatorsAfter ht _ hrest

private theorem unary_uniform (h : xs <:+ tokens) : Uniform tokens (unary (fuel + 1)) xs := by
  rw [unary]
  refine uniform_choice (fun k => (k = .bang || k = .minus) = true) (by decide) (fun _ => rfl) ?_ ?_
  · rintro op rest rfl -
    refine uniform_take htokens h ?_
    exact uniform_bind (ih.unary (tail_suffix h)) fun operand rest hrest => uniform_pure hrest _
  · refine uniform_bind (ih.primary h) fun callee rest hrest => ?_
    exact ih.calls callee hrest

private theorem calls_uniform (callee : Expr) (h : xs <:+ tokens) :
    Uniform tokens (calls (fuel + 1) callee) xs := by
  rw [calls]
  refine uniform_choice (· = .lparen) (by decide) (fun _ => rfl) ?_ (uniform_pure h callee)
  rintro paren rest rfl -
  refine uniform_take htokens h ?_
  have hclosing (args : List Expr) {rest : List Token} (hrest : rest <:+ tokens) :=
    uniform_bind (uniform_expect htokens hrest (by decide : TokenKind.rparen ≠ .eof)
      .parenthesisAfterArguments)
      fun _ rest hrest => ih.calls (.call paren.offset callee args) hrest
  refine uniform_choice (· = .rparen) (by decide) (fun _ => rfl) ?_ ?_
  · rintro t rest rfl -
    exact hclosing [] (tail_suffix h)
  · exact uniform_bind (ih.arguments (tail_suffix h)) fun args rest hrest => hclosing args hrest

private theorem arguments_uniform (h : xs <:+ tokens) :
    Uniform tokens (arguments (fuel + 1)) xs := by
  rw [arguments]
  refine uniform_bind (ih.expr h) fun first rest hrest => ?_
  refine uniform_bind (uniform_accept htokens hrest (by decide)) fun more rest hrest => ?_
  split
  · exact uniform_bind (ih.arguments hrest) fun others rest hrest => uniform_pure hrest _
  · exact uniform_pure hrest _

private theorem primary_uniform (h : xs <:+ tokens) : Uniform tokens (primary (fuel + 1)) xs := by
  rw [primary]
  refine uniform_peek (failHere .expression) (fun t ht => by rw [ht]) ?_
    fun _ => uniform_failHere h _
  rintro t rest rfl
  have hrest := tail_suffix h
  cases t.kind with
  | falseWord | trueWord | number | string | ident =>
      exact uniform_take htokens h (uniform_pure hrest _)
  | «at» =>
      refine uniform_take htokens h ?_
      refine uniform_bind (uniform_expect htokens hrest (by decide) _) fun name rest hrest => ?_
      exact uniform_pure hrest _
  | lparen =>
      refine uniform_take htokens h ?_
      refine uniform_bind (ih.expr hrest) fun inner rest hrest => ?_
      exact uniform_closing htokens hrest (by decide) _ _
  | _ => exact uniform_failHere h _

end

/-- **The parsers of expressions are uniform**, at every budget. -/
theorem exprUniform (htokens : ∀ t ∈ tokens, t.kind ≠ .eof) (fuel : Nat) :
    ExprUniform tokens fuel := by
  induction fuel with
  | zero => constructor <;> intros <;> exact uniform_exhausted
  | succ fuel ih =>
      exact ⟨expr_uniform htokens ih, fun ht _ h => operators_uniform ih ht h,
        fun ht left _ h => operatorsAfter_uniform htokens ih ht left h, unary_uniform htokens ih,
        fun callee _ h => calls_uniform htokens ih callee h, arguments_uniform htokens ih,
        primary_uniform htokens ih⟩

end Parser

namespace Recovering

/-! ## Statements -/

/-- **A uniform parser that records errors.** Its runs record the same problems at the same
places. -/
def Uniform (tokens : List Token) (p : Recovering α) (xs : List Token) : Prop :=
  Parsed.Uniform tokens (fun e => (p (xs ++ [e.1])).1) ∧
    ∃ marks : List Mark, (∀ m ∈ marks, m.Among tokens) ∧
      ∀ e : Ending, (p (xs ++ [e.1])).2 = marks.map (Mark.finding · e.1)

theorem uniform_lift {p : Parser α} (h : Parser.Uniform tokens p xs) :
    Uniform tokens (liftM p : Recovering α) xs :=
  ⟨h, [], List.forall_mem_nil _, fun _ => rfl⟩

theorem uniform_pure (h : xs <:+ tokens) (a : α) : Uniform tokens (pure a) xs :=
  uniform_lift (Parser.uniform_pure h a)

/-- The runs of a uniform parser, with what they record. -/
theorem Uniform.exists_run {p : Recovering α} (h : Uniform tokens p xs) :
    ∃ (run : Ending → Parsed α) (marks : List Mark), Parsed.Uniform tokens run ∧
      (∀ m ∈ marks, m.Among tokens) ∧
        ∀ e : Ending, p (xs ++ [e.1]) = (run e, marks.map (Mark.finding · e.1)) := by
  obtain ⟨hrun, marks, hmarks, hlog⟩ := h
  exact ⟨_, marks, hrun, hmarks, fun e => Prod.ext rfl (hlog e)⟩

/-- **One uniform parser after another.** -/
theorem uniform_bind {p : Recovering α} {f : α → Recovering β} (hp : Uniform tokens p xs)
    (hf : ∀ a rest, rest <:+ tokens → Uniform tokens (f a) rest) : Uniform tokens (p >>= f) xs := by
  obtain ⟨run, marks, hrun, hmarks, heq⟩ := hp.exists_run
  unfold Uniform
  simp only [bind, heq]
  cases hrun with
  | ok a hrest =>
      obtain ⟨hresult, more, hmore, hlog⟩ := hf a _ hrest
      refine ⟨hresult, marks ++ more, List.forall_mem_append.mpr ⟨hmarks, hmore⟩, fun e => ?_⟩
      rw [List.map_append, ← hlog]
  | fail hm hrest => exact ⟨.fail hm hrest, marks, hmarks, fun _ => rfl⟩
  | outOfFuel => exact ⟨.outOfFuel, marks, hmarks, fun _ => rfl⟩

/-- What follows a look at the token ahead: `b`, if that is the end token. -/
theorem uniform_peek {f : Token → Recovering α} (b : Recovering α)
    (hb : ∀ t, t.kind = .eof → f t = b) (hhere : ∀ t ts, xs = t :: ts → Uniform tokens (f t) xs)
    (hend : xs = [] → Uniform tokens b xs) :
    Uniform tokens (liftM peek >>= f : Recovering α) xs := by
  cases xs with
  | nil =>
      have hrun (e : Ending) :
          (liftM peek >>= f : Recovering α) ([] ++ [e.1]) = b ([] ++ [e.1]) :=
        congrFun (hb e.1 e.2) _
      unfold Uniform
      simp only [hrun]
      exact hend rfl
  | cons t ts => exact hhere t ts rfl

/-! ### Recovery -/

theorem skipAfter_append_ending (previous : TokenKind) (ts : List Token) (e : Ending) :
    skipAfter previous (ts ++ [e.1]) = skipAfter previous ts ++ [e.1] := by
  induction ts generalizing previous with
  | nil => simp [skipAfter, e.2]
  | cons t ts ih =>
      rw [List.cons_append, skipAfter, skipAfter]
      split
      · rfl
      · exact ih t.kind

/-- Recovery stops in front of the end token. -/
theorem synchronize_append_ending (ts : List Token) (e : Ending) :
    synchronize (ts ++ [e.1]) = synchronize ts ++ [e.1] := by
  cases ts with
  | nil => simp [synchronize, e.2]
  | cons t ts =>
      rw [List.cons_append, synchronize, synchronize]
      split
      · rfl
      · exact skipAfter_append_ending t.kind ts e

theorem uniform_recover {p : Recovering Stmt} (hp : Uniform tokens p xs) :
    Uniform tokens (recover p) xs := by
  obtain ⟨run, marks, hrun, hmarks, heq⟩ := hp.exists_run
  unfold Uniform recover
  simp only [heq]
  cases hrun with
  | ok s hrest => exact ⟨.ok s hrest, marks, hmarks, fun _ => rfl⟩
  | @fail m rest hm hrest =>
      simp only [synchronize_append_ending]
      refine ⟨.ok _ ((synchronize_suffix rest).trans hrest), marks ++ [m], ?_, fun e => ?_⟩
      · exact List.forall_mem_append.mpr ⟨hmarks, List.forall_mem_singleton.mpr hm⟩
      · rw [List.map_append, List.map_singleton]
  | outOfFuel => exact ⟨.outOfFuel, marks, hmarks, fun _ => rfl⟩

/-! ### Parts of statements -/

section Parts

variable (htokens : ∀ t ∈ tokens, t.kind ≠ .eof) {fuel : Nat} {t : Token} {ts : List Token}

include htokens

theorem variableDeclaration_uniform (h : t :: ts <:+ tokens) :
    Parser.Uniform tokens (variableDeclaration fuel) (t :: ts) := by
  unfold variableDeclaration
  refine Parser.uniform_take htokens h ?_
  refine Parser.uniform_bind (Parser.uniform_expect htokens (tail_suffix h) (by decide) _)
    fun name rest hrest => ?_
  refine Parser.uniform_bind (Parser.uniform_accept htokens hrest (by decide))
    fun given rest hrest => ?_
  split
  · refine Parser.uniform_bind ((Parser.exprUniform htokens fuel).expr hrest)
      fun init rest hrest => ?_
    exact Parser.uniform_closing htokens hrest (by decide) _ _
  · exact Parser.uniform_closing htokens hrest (by decide) _ _

theorem parameters_uniform (fuel : Nat) {xs : List Token} (h : xs <:+ tokens) :
    Parser.Uniform tokens (parameters fuel) xs := by
  induction fuel generalizing xs with
  | zero => exact Parser.uniform_exhausted
  | succ fuel ih =>
      rw [parameters]
      refine Parser.uniform_bind (Parser.uniform_expect htokens h (by decide) _)
        fun first rest hrest => ?_
      refine Parser.uniform_bind (Parser.uniform_accept htokens hrest (by decide))
        fun more rest hrest => ?_
      split
      · exact Parser.uniform_bind (ih hrest) fun others rest hrest => Parser.uniform_pure hrest _
      · exact Parser.uniform_pure hrest _

theorem functionHead_uniform (h : t :: ts <:+ tokens) :
    Parser.Uniform tokens (functionHead fuel) (t :: ts) := by
  unfold functionHead
  refine Parser.uniform_take htokens h ?_
  refine Parser.uniform_bind (Parser.uniform_expect htokens (tail_suffix h) (by decide) _)
    fun name rest hrest => ?_
  refine Parser.uniform_bind (Parser.uniform_expect htokens hrest (by decide) _)
    fun _ rest hrest => ?_
  have hclosing (params : List Text) {rest : List Token} (hrest : rest <:+ tokens) :=
    Parser.uniform_bind (Parser.uniform_expect htokens hrest (by decide : TokenKind.rparen ≠ .eof)
      .parenthesisAfterParameters) fun _ rest hrest => Parser.uniform_closing htokens hrest
        (by decide : TokenKind.lbrace ≠ .eof) .functionBody (name, params)
  refine Parser.uniform_choice (· = .rparen) (by decide) (fun _ => rfl) ?_ ?_
  · rintro t rest rfl -
    exact hclosing [] hrest
  · exact Parser.uniform_bind (parameters_uniform htokens fuel hrest) fun params rest hrest =>
      hclosing params hrest

theorem condition_uniform (opening : Expectation) (h : t :: ts <:+ tokens) :
    Parser.Uniform tokens (condition fuel opening) (t :: ts) := by
  unfold condition
  refine Parser.uniform_take htokens h ?_
  refine Parser.uniform_bind (Parser.uniform_expect htokens (tail_suffix h) (by decide) _)
    fun _ rest hrest => ?_
  refine Parser.uniform_bind ((Parser.exprUniform htokens fuel).expr hrest)
    fun cond rest hrest => ?_
  exact Parser.uniform_closing htokens hrest (by decide) _ _

theorem returnStatement_uniform (h : t :: ts <:+ tokens) :
    Parser.Uniform tokens (returnStatement fuel) (t :: ts) := by
  unfold returnStatement
  refine Parser.uniform_take htokens h ?_
  refine Parser.uniform_bind ((Parser.exprUniform htokens fuel).expr (tail_suffix h))
    fun value rest hrest => ?_
  exact Parser.uniform_closing htokens hrest (by decide) _ _

/-- The offset of the end token does not get into an expression statement, since no expression
starts there. -/
theorem exprStatement_uniform (h : xs <:+ tokens) :
    Parser.Uniform tokens (exprStatement fuel) xs := by
  have hexpr := (Parser.exprUniform htokens fuel).expr h
  unfold exprStatement
  cases xs with
  | cons t ts =>
      show Parser.Uniform tokens (expr fuel >>= fun value =>
        expect .semi .semicolonAfterValue >>= fun _ => pure (Stmt.expr t.offset value)) (t :: ts)
      exact Parser.uniform_bind hexpr fun value rest hrest =>
        Parser.uniform_closing htokens hrest (by decide) _ _
  | nil =>
      have hprogress (e : Ending) := (exprProgress fuel).expr [e.1]
      unfold Parser.Uniform at hexpr ⊢
      generalize hrun : (fun e : Ending => expr fuel ([] ++ [e.1])) = run at hexpr
      have hrun (e : Ending) : expr fuel [e.1] = run e := congrFun hrun e
      simp only [hrun] at hprogress
      simp only [List.nil_append, bind, peek, hrun]
      cases hexpr with
      | @ok value rest hrest =>
          have hshort := (hprogress ⟨Token.endAt 0, rfl⟩).2
          simp at hshort
      | fail hm hrest => exact .fail hm hrest
      | outOfFuel => exact .outOfFuel

end Parts

/-! ### Declarations, statements and blocks -/

/-- **The parsers of statements are uniform**, at a budget. -/
structure StmtUniform (tokens : List Token) (fuel : Nat) : Prop where
  declaration {xs : List Token} (h : xs <:+ tokens) : Uniform tokens (declaration fuel) xs
  statement {xs : List Token} (h : xs <:+ tokens) : Uniform tokens (statement fuel) xs
  block {xs : List Token} (h : xs <:+ tokens) : Uniform tokens (block fuel) xs

section

variable (htokens : ∀ t ∈ tokens, t.kind ≠ .eof) {fuel : Nat} (ih : StmtUniform tokens fuel)

include htokens ih

private theorem declaration_uniform (h : xs <:+ tokens) :
    Uniform tokens (declaration (fuel + 1)) xs := by
  rw [declaration]
  refine uniform_recover (uniform_peek (statement fuel) (fun t ht => ?_) ?_ fun _ => ih.statement h)
  · simp [ht, TokenKind.isType]
  rintro t ts rfl
  split
  · exact uniform_lift (variableDeclaration_uniform htokens h)
  · split
    · refine uniform_bind (uniform_lift (functionHead_uniform htokens h)) fun head rest hrest => ?_
      exact uniform_bind (ih.block hrest) fun body rest hrest => uniform_pure hrest _
    · exact ih.statement h

private theorem statement_uniform (h : xs <:+ tokens) :
    Uniform tokens (statement (fuel + 1)) xs := by
  rw [statement]
  refine uniform_peek (liftM (exprStatement fuel)) (fun t ht => by rw [ht]) ?_
    fun _ => uniform_lift (exprStatement_uniform htokens h)
  rintro t ts rfl
  have htake : Parser.Uniform tokens take (t :: ts) :=
    Parser.uniform_take htokens h (Parser.uniform_pure (tail_suffix h) t)
  cases t.kind with
  | returnWord => exact uniform_lift (returnStatement_uniform htokens h)
  | lbrace =>
      refine uniform_bind (uniform_lift htake) fun brace rest hrest => ?_
      exact uniform_bind (ih.block hrest) fun body rest hrest => uniform_pure hrest _
  | ifWord =>
      refine uniform_bind (uniform_lift (condition_uniform htokens _ h)) fun head rest hrest => ?_
      refine uniform_bind (ih.statement hrest) fun yes rest hrest => ?_
      refine uniform_bind (uniform_lift (Parser.uniform_accept htokens hrest (by decide)))
        fun found rest hrest => ?_
      cases found with
      | true => exact uniform_bind (ih.statement hrest) fun no rest hrest => uniform_pure hrest _
      | false => exact uniform_pure hrest _
  | whileWord =>
      refine uniform_bind (uniform_lift (condition_uniform htokens _ h)) fun head rest hrest => ?_
      exact uniform_bind (ih.statement hrest) fun body rest hrest => uniform_pure hrest _
  | _ => exact uniform_lift (exprStatement_uniform htokens h)

private theorem block_uniform (h : xs <:+ tokens) : Uniform tokens (block (fuel + 1)) xs := by
  have hclosing : Uniform tokens
      (liftM (expect .rbrace .braceAfterBlock) >>= fun _ => pure [] : Recovering (List Stmt)) xs :=
    uniform_bind (uniform_lift (Parser.uniform_expect htokens h (by decide) _))
      fun _ _ hrest => uniform_pure hrest _
  rw [block]
  refine uniform_peek _ (fun t ht => if_pos (by simp [ht])) ?_ fun _ => hclosing
  rintro t ts rfl
  split
  · exact hclosing
  · refine uniform_bind (ih.declaration h) fun first rest hrest => ?_
    exact uniform_bind (ih.block hrest) fun others rest hrest => uniform_pure hrest _

end

/-- **The parsers of statements are uniform**, at every budget. -/
theorem stmtUniform (htokens : ∀ t ∈ tokens, t.kind ≠ .eof) (fuel : Nat) :
    StmtUniform tokens fuel := by
  induction fuel with
  | zero => constructor <;> intros <;> exact uniform_lift Parser.uniform_exhausted
  | succ fuel ih =>
      exact ⟨declaration_uniform htokens ih, statement_uniform htokens ih,
        block_uniform htokens ih⟩

/-- Whole programs are read uniformly. -/
theorem declarations_uniform (htokens : ∀ t ∈ tokens, t.kind ≠ .eof) (fuel : Nat)
    (h : xs <:+ tokens) : Uniform tokens (declarations fuel) xs := by
  induction fuel generalizing xs with
  | zero => exact uniform_lift Parser.uniform_exhausted
  | succ fuel ih =>
      rw [declarations]
      refine uniform_peek (pure []) (fun t ht => if_pos ht) ?_ fun _ => uniform_pure h _
      rintro t ts rfl
      rw [if_neg (htokens t (mem_of_suffix h))]
      refine uniform_bind ((stmtUniform htokens fuel).declaration h) fun first rest hrest => ?_
      exact uniform_bind (ih hrest) fun others rest hrest => uniform_pure hrest _

end Recovering

/-! ## Whole programs -/

namespace Program

section

variable {ts : List Token} (hts : ∃ ending ∈ ts.getLast?, ending.kind = .eof)

include hts

/-- A list that an end token closes is read as it is. -/
theorem complete_of_ends : complete ts = ts := by
  obtain ⟨ending, hlast, hending⟩ := hts
  unfold complete
  rw [Option.mem_def.mp hlast]
  exact if_pos hending

variable {start : Int} (hstart : 0 ≤ start) (hlt : start < ts.length)

include hstart hlt

theorem startAt_of_ends : startAt ts start = ts.drop start.toNat := by
  unfold startAt
  simp only [complete_of_ends hts]
  exact if_neg (by simp; omega)

theorem newAt_of_ends : Reader.newAt ts start = ⟨ts.toArray, start.toNat, []⟩ := by
  unfold Reader.newAt
  simp only [complete_of_ends hts, List.size_toArray]
  rw [if_neg (by simp; omega)]

end

/-- What is read from some tokens and an end token, told for all end tokens at once. -/
theorem exists_marks {ts : List Token} (hts : ∀ t ∈ ts, t.kind ≠ .eof) :
    ∃ (stmts : List Stmt) (marks : List Mark), (∀ m ∈ marks, m.Among ts) ∧
      ∀ ending : Token, ending.kind = .eof →
        ofTokens (ts ++ [ending]) 0 = ⟨stmts, marks.map (Mark.finding · ending)⟩ := by
  obtain ⟨run, marks, hrun, hmarks, heq⟩ :=
    (Recovering.declarations_uniform hts (budget (ts ++ [Token.endAt 0]))
      List.suffix_rfl).exists_run
  -- the budget depends on the number of tokens only
  have hprogram (ending : Token) (hending : ending.kind = .eof) :
      Parser.program (ts ++ [ending]) =
        (run ⟨ending, hending⟩, marks.map (Mark.finding · ending)) := by
    have hbudget : budget (ts ++ [ending]) = budget (ts ++ [Token.endAt 0]) := by simp [budget]
    rw [Parser.program, hbudget]
    exact heq ⟨ending, hending⟩
  obtain ⟨stmts, rest, errors, hok, -⟩ := Grammar.program_ok (ts ++ [Token.endAt 0])
  rw [hprogram _ rfl] at hok
  have hread (ss : List Stmt) (ending : Token) (hending : ending.kind = .eof) (left : List Token)
      (hresult : run ⟨ending, hending⟩ = .ok ss left) :
      ofTokens (ts ++ [ending]) 0 = ⟨ss, marks.map (Mark.finding · ending)⟩ := by
    have hread : Parser.program (Parser.startAt (ts ++ [ending]) 0) =
        (.ok ss left, marks.map (Mark.finding · ending)) := by
      rw [Grammar.startAt_zero hending, hprogram ending hending, hresult]
    exact Grammar.ofTokens_eq hread
  cases hrun with
  | ok ss hrest => exact ⟨ss, marks, hmarks, fun ending hending => hread ss ending hending _ rfl⟩
  | fail hm hrest => cases hok
  | outOfFuel => cases hok

/-- **A program depends on what lies ahead, and on the offset of the end token in errors only.** A
start inside a list of tokens that an end token closes reads what stands from there on, and in the
two runs the cursor moves alike, from the start and from zero; and a list without an end token reads
as with one at any offset, but that the errors which are placed at the end token are placed at the
last token instead. -/
theorem reads_ahead :
    (∀ (ts : List Token) (start : Int), (∃ ending ∈ ts.getLast?, ending.kind = .eof) →
      0 ≤ start → start < ts.length →
        ofTokens ts start = ofTokens (ts.drop start.toNat) 0 ∧
          (∀ lines, (ofTokens ts start).diagnostics lines =
            (ofTokens (ts.drop start.toNat) 0).diagnostics lines) ∧
          ∃ stmts errors k, ofTokens ts start = ⟨stmts, errors⟩ ∧
            (Reader.newAt ts start).parseProgram =
              .ok stmts ⟨ts.toArray, start.toNat + k, errors⟩ ∧
            (Reader.newAt (ts.drop start.toNat) 0).parseProgram =
              .ok stmts ⟨(ts.drop start.toNat).toArray, k, errors⟩) ∧
      ∀ (ts : List Token) (last : Token), last ∈ ts.getLast? → (∀ t ∈ ts, t.kind ≠ .eof) →
        ∃ (stmts : List Stmt) (marks : List Mark), (∀ m ∈ marks, m.Among ts) ∧
          (∀ ending : Token, ending.kind = .eof →
            ofTokens (ts ++ [ending]) 0 = ⟨stmts, marks.map (Mark.finding · ending)⟩) ∧
          ofTokens ts 0 = ⟨stmts, marks.map (Mark.finding · last)⟩ := by
  refine ⟨fun ts start hends hstart hlt => ?_, fun ts last hlast hts => ?_⟩
  · have hlength : start.toNat < ts.length := by omega
    have hends' : ∃ ending ∈ (ts.drop start.toNat).getLast?, ending.kind = .eof := by
      rwa [List.getLast?_drop, if_neg (Nat.not_le.mpr hlength)]
    have hlt' : (0 : Int) < (ts.drop start.toNat).length := by
      rw [List.length_drop]
      omega
    have hahead : startAt ts start = startAt (ts.drop start.toNat) 0 := by
      rw [startAt_of_ends hends hstart hlt, startAt_of_ends hends' (Int.le_refl 0) hlt']
      rfl
    have hread : ofTokens ts start = ofTokens (ts.drop start.toNat) 0 := by
      unfold ofTokens
      rw [hahead]
    refine ⟨hread, fun lines => congrArg (·.diagnostics lines) hread, ?_⟩
    -- both cursors are at the same tokens
    obtain ⟨stmts, k, errors, hprogram, hrun, hrun'⟩ := Reader.parseProgram_shift
      (Reader.placed_newAt ts start) (Reader.placed_newAt (ts.drop start.toNat) 0)
      (by rw [Reader.ahead_newAt, Reader.ahead_newAt, hahead])
    rw [Reader.ahead_newAt] at hprogram
    rw [newAt_of_ends hends hstart hlt] at hrun ⊢
    rw [newAt_of_ends hends' (Int.le_refl 0) hlt'] at hrun' ⊢
    refine ⟨stmts, errors, k, Grammar.ofTokens_eq hprogram, hrun, hrun'.trans ?_⟩
    simp [Reader.moved]
  · obtain ⟨stmts, marks, hmarks, hread⟩ := exists_marks hts
    refine ⟨stmts, marks, hmarks, hread, ?_⟩
    have hcomplete : complete ts = ts ++ [Token.endAt last.offset] := by
      unfold complete
      rw [Option.mem_def.mp hlast]
      exact if_neg (hts last (List.mem_of_getLast? hlast))
    have hsame : ofTokens ts 0 = ofTokens (ts ++ [Token.endAt last.offset]) 0 := by
      have hclosed : complete (ts ++ [Token.endAt last.offset]) = complete ts := by
        rw [hcomplete]
        simp [complete, Token.endAt]
      unfold ofTokens startAt
      rw [hclosed]
    rw [hsame, hread _ rfl]
    exact congrArg _ (List.map_congr_left fun m _ => m.finding_congr rfl)

/-- The tokens of `{ a b; c`, without an end token. -/
def openBlock : List Token :=
  [⟨.lbrace, utf8 "\x7b", 0, 0⟩, ⟨.ident, utf8 "a", 0, 2⟩, ⟨.ident, utf8 "b", 0, 4⟩,
    ⟨.semi, utf8 ";", 0, 5⟩, ⟨.ident, utf8 "c", 0, 7⟩]

/-- One error inside a block that is still open at the end, and two at the end. -/
theorem reads_ahead_openBlock :
    ofTokens (openBlock ++ [Token.endAt 9]) 3 =
        ofTokens ((openBlock ++ [Token.endAt 9]).drop 3) 0 ∧
      (∃ stmts errors k,
        (Reader.newAt (openBlock ++ [Token.endAt 9]) 3).parseProgram =
            .ok stmts ⟨(openBlock ++ [Token.endAt 9]).toArray, 3 + k, errors⟩ ∧
          (Reader.newAt ((openBlock ++ [Token.endAt 9]).drop 3) 0).parseProgram =
            .ok stmts ⟨((openBlock ++ [Token.endAt 9]).drop 3).toArray, k, errors⟩) ∧
      ∃ (stmts : List Stmt) (marks : List Mark), (∀ m ∈ marks, m.Among openBlock) ∧
        ofTokens (openBlock ++ [Token.endAt 9]) 0 =
          ⟨stmts, marks.map (Mark.finding · (Token.endAt 9))⟩ ∧
        (ofTokens (openBlock ++ [Token.endAt 9]) 0).errors.map Finding.offset = [4, 9, 9] ∧
        (ofTokens openBlock 0).stmts = stmts ∧
        (ofTokens openBlock 0).errors.map Finding.offset = [4, 7, 7] := by
  obtain ⟨hstart, hend⟩ := reads_ahead
  obtain ⟨hsame, -, stmts', errors, k, -, hruns⟩ := hstart (openBlock ++ [Token.endAt 9]) 3
    ⟨Token.endAt 9, by decide, rfl⟩ (by decide) (by decide)
  obtain ⟨stmts, marks, hmarks, hread, hbare⟩ :=
    hend openBlock ⟨.ident, utf8 "c", 0, 7⟩ (by decide) (by decide)
  refine ⟨hsame, ⟨stmts', errors, k, hruns⟩, stmts, marks, hmarks, hread _ rfl, by decide, ?_,
    by decide⟩
  rw [hbare]

end Program

end Badger
