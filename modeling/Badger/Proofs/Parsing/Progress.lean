import Badger.Proofs.Parsing.Contract

/-!
# Progress of parsers

Parsers leave a final part of the tokens they were given, whether they succeed or fail, and
every construct consumes at least one token. A declaration that is not at the end of the
tokens moves on even when it fails, since recovery passes over the offending token. It follows
that the budget of the entry points is never used up.

## Main definitions

* `Shorter`: a proper final part of a list of tokens
* `ExprProgress`, `StmtProgress`: what each parser leaves, and the budget that it needs

## Main statements

* `Parsed.Meets.behind`, `Recovering.Meets.behind`: calls that follow a token that was consumed
* `Parser.exprProgress`, `Recovering.stmtProgress`: progress at every budget
* `Recovering.declarations_meets_end`: within its budget a program is read to the end token

## Design notes

A parser is granted sixteen units for each token ahead and as many more as it can call
parsers in a row without consuming a token; sixteen exceeds the longest such row.
-/

namespace Badger

/-- A proper final part of a list of tokens. -/
def Shorter (rest ts : List Token) : Prop := rest <:+ ts ∧ rest.length < ts.length

namespace Shorter

variable {rest rest' ts : List Token}

theorem trans_suffix (h : Shorter rest ts) (h' : rest' <:+ rest) : Shorter rest' ts :=
  ⟨h'.trans h.1, Nat.lt_of_le_of_lt h'.length_le h.2⟩

theorem trans (h : Shorter rest ts) (h' : Shorter rest' rest) : Shorter rest' ts :=
  h.trans_suffix h'.1

/-- A token that is not the end is consumed. -/
theorem advance (h : (Parser.current ts).kind ≠ .eof) : Shorter (Parser.advance ts) ts := by
  refine ⟨Parser.advance_suffix ts, ?_⟩
  rw [Parser.eq_current_cons_advance h, Parser.advance_cons h]
  exact Nat.lt_succ_self _

/-- A token of a kind other than the end is consumed. -/
theorem advance_of_kind {kind : TokenKind} (h : (Parser.current ts).kind = kind)
    (hkind : kind ≠ .eof) : Shorter (Parser.advance ts) ts :=
  advance (h ▸ hkind)

end Shorter

section Behind

variable {α : Type} {here ts : List Token} {out out' : Prop}

/-- **A parser behind a token.** Where tokens were consumed before a parser is called, what it
leaves when it fails is left of all the tokens, and the tokens consumed pay for its budget. -/
theorem Parsed.Meets.behind {r : Parsed α} {ok ok' : α → List Token → Prop}
    (h : r.Meets ok (fun _ rest => rest <:+ here) out) (hhere : Shorter here ts)
    (hok : ∀ a rest, ok a rest → ok' a rest) (hout : here.length < ts.length → out → out') :
    r.Meets ok' (fun _ rest => rest <:+ ts) out' :=
  h.mono hok (fun _ _ hrest => hrest.trans hhere.1) (hout hhere.2)

/-- The same for parsers that record errors. -/
theorem Recovering.Meets.behind {r : Parsed α × List Finding}
    {ok ok' : α → List Token → List Finding → Prop}
    (h : Recovering.Meets r ok (fun _ rest _ => rest <:+ here) out) (hhere : Shorter here ts)
    (hok : ∀ a rest log, ok a rest log → ok' a rest log)
    (hout : here.length < ts.length → out → out') :
    Recovering.Meets r ok' (fun _ rest _ => rest <:+ ts) out' :=
  h.mono hok (fun _ _ _ hrest => hrest.trans hhere.1) (hout hhere.2)

end Behind

namespace Parser

/-! ## Expressions -/

/-- **Progress of the parsers of expressions** at a budget: what they leave of the tokens, and
how large the budget must be. -/
structure ExprProgress (fuel : Nat) : Prop where
  expr (ts : List Token) : (expr fuel ts).Meets (fun _ rest => Shorter rest ts)
    (fun _ rest => rest <:+ ts) (fuel < 16 * ts.length + 9)
  operators {tighter : List (List TokenKind)} (h : tighter <:+ levels) (ts : List Token) :
    (operators fuel tighter ts).Meets (fun _ rest => Shorter rest ts)
      (fun _ rest => rest <:+ ts) (fuel < 16 * ts.length + 3 + tighter.length)
  operatorsAfter {level : List TokenKind} {tighter : List (List TokenKind)}
    (h : level :: tighter <:+ levels) (left : Expr) (ts : List Token) :
    (operatorsAfter fuel level tighter left ts).Meets (fun _ rest => rest <:+ ts)
      (fun _ rest => rest <:+ ts) (fuel < 16 * ts.length + 1)
  unary (ts : List Token) : (unary fuel ts).Meets (fun _ rest => Shorter rest ts)
    (fun _ rest => rest <:+ ts) (fuel < 16 * ts.length + 2)
  calls (callee : Expr) (ts : List Token) : (calls fuel callee ts).Meets
    (fun _ rest => rest <:+ ts) (fun _ rest => rest <:+ ts) (fuel < 16 * ts.length + 1)
  arguments (ts : List Token) : (arguments fuel ts).Meets (fun _ rest => Shorter rest ts)
    (fun _ rest => rest <:+ ts) (fuel < 16 * ts.length + 10)
  primary (ts : List Token) : (primary fuel ts).Meets (fun _ rest => Shorter rest ts)
    (fun _ rest => rest <:+ ts) (fuel < 16 * ts.length + 1)

theorem eof_notMem_of_suffix {level : List TokenKind} {tighter : List (List TokenKind)}
    (h : level :: tighter <:+ levels) : TokenKind.eof ∉ level := by
  have hall : ∀ level ∈ levels, TokenKind.eof ∉ level := by decide
  exact hall level (h.subset List.mem_cons_self)

theorem tighter_suffix {level : List TokenKind} {tighter : List (List TokenKind)}
    (h : level :: tighter <:+ levels) : tighter <:+ levels :=
  (List.suffix_cons level tighter).trans h

private theorem expr_progress {fuel : Nat} (ih : ExprProgress fuel) (ts : List Token) :
    (expr (fuel + 1) ts).Meets (fun _ rest => Shorter rest ts) (fun _ rest => rest <:+ ts)
      (fuel + 1 < 16 * ts.length + 9) := by
  rw [meets_expr]
  refine (ih.operators List.suffix_rfl ts).mono ?_ (fun _ _ h => h)
    (fun h => by simp only [levels, List.length_cons, List.length_nil] at h; omega)
  intro target rest hrest
  split
  · next hk =>
    have hadv := Shorter.advance_of_kind hk (by decide)
    refine (ih.expr (advance rest)).mono ?_ ?_ ?_
    · intro value rest' hrest'
      have hshort := hrest.trans (hadv.trans hrest')
      split
      · exact hshort
      · exact hshort.1
    · intro e rest' hrest'
      exact ((hrest.trans hadv).trans_suffix hrest').1
    · intro h
      have := hrest.2
      have := hadv.2
      omega
  · exact hrest

private theorem operators_progress {fuel : Nat} (ih : ExprProgress fuel)
    {tiers : List (List TokenKind)} (h : tiers <:+ levels) (ts : List Token) :
    (operators (fuel + 1) tiers ts).Meets (fun _ rest => Shorter rest ts)
      (fun _ rest => rest <:+ ts) (fuel + 1 < 16 * ts.length + 3 + tiers.length) := by
  cases tiers with
  | nil =>
      rw [meets_operators_nil]
      exact (ih.unary ts).mono (fun _ _ h => h) (fun _ _ h => h) (fun h => by simp; omega)
  | cons level tighter =>
      rw [meets_operators_cons]
      refine (ih.operators (tighter_suffix h) ts).mono ?_ (fun _ _ h => h)
        (fun h => by simp only [List.length_cons]; omega)
      intro left rest hrest
      refine (ih.operatorsAfter h left rest).behind hrest ?_ (by omega)
      intro e rest' hrest'
      exact hrest.trans_suffix hrest'

private theorem operatorsAfter_progress {fuel : Nat} (ih : ExprProgress fuel)
    {level : List TokenKind} {tighter : List (List TokenKind)}
    (h : level :: tighter <:+ levels) (left : Expr) (ts : List Token) :
    (operatorsAfter (fuel + 1) level tighter left ts).Meets (fun _ rest => rest <:+ ts)
      (fun _ rest => rest <:+ ts) (fuel + 1 < 16 * ts.length + 1) := by
  rw [meets_operatorsAfter]
  split
  · next hmem =>
    have hadv : Shorter (advance ts) ts :=
      Shorter.advance fun hk => eof_notMem_of_suffix h (hk ▸ hmem)
    have hfive : tighter.length + 1 ≤ 5 := h.length_le
    refine (ih.operators (tighter_suffix h) (advance ts)).behind hadv ?_ (by omega)
    intro right rest hrest
    refine (ih.operatorsAfter h _ rest).behind (hadv.trans hrest) ?_ (by omega)
    intro e rest' hrest'
    exact ((hadv.trans hrest).trans_suffix hrest').1
  · exact List.suffix_rfl

private theorem unary_progress {fuel : Nat} (ih : ExprProgress fuel) (ts : List Token) :
    (unary (fuel + 1) ts).Meets (fun _ rest => Shorter rest ts) (fun _ rest => rest <:+ ts)
      (fuel + 1 < 16 * ts.length + 2) := by
  rw [meets_unary]
  split
  · next hk =>
    have hadv : Shorter (advance ts) ts := by
      rcases hk with hk | hk <;> exact Shorter.advance_of_kind hk (by decide)
    refine (ih.unary (advance ts)).behind hadv ?_ (by omega)
    intro operand rest hrest
    exact hadv.trans hrest
  · refine (ih.primary ts).mono ?_ (fun _ _ h => h) (fun h => by omega)
    intro callee rest hrest
    refine (ih.calls callee rest).behind hrest ?_ (by omega)
    intro e rest' hrest'
    exact hrest.trans_suffix hrest'

/-- The arguments of a call, up to the closing parenthesis. -/
private theorem optionalArguments_progress {fuel : Nat} (ih : ExprProgress fuel)
    (ts : List Token) :
    ((if (current ts).kind = .rparen then pure [] else arguments fuel) ts).Meets
      (fun _ rest => rest <:+ ts) (fun _ rest => rest <:+ ts)
      (fuel < 16 * ts.length + 10) := by
  rw [meets_ite]
  split
  · exact List.suffix_rfl
  · exact (ih.arguments ts).mono (fun _ _ h => h.1) (fun _ _ h => h) (fun h => h)

private theorem calls_progress {fuel : Nat} (ih : ExprProgress fuel) (callee : Expr)
    (ts : List Token) :
    (calls (fuel + 1) callee ts).Meets (fun _ rest => rest <:+ ts)
      (fun _ rest => rest <:+ ts) (fuel + 1 < 16 * ts.length + 1) := by
  rw [meets_calls]
  split
  · next hk =>
    have hadv : Shorter (advance ts) ts := Shorter.advance_of_kind hk (by decide)
    refine (optionalArguments_progress ih (advance ts)).behind hadv ?_ (by omega)
    intro args rest hrest
    have hshort := hadv.trans_suffix hrest
    split
    · have hmore := hshort.trans_suffix (advance_suffix rest)
      refine (ih.calls _ (advance rest)).behind hmore ?_ (by omega)
      intro e rest' hrest'
      exact (hmore.trans_suffix hrest').1
    · exact hshort.1
  · exact List.suffix_rfl

private theorem arguments_progress {fuel : Nat} (ih : ExprProgress fuel) (ts : List Token) :
    (arguments (fuel + 1) ts).Meets (fun _ rest => Shorter rest ts) (fun _ rest => rest <:+ ts)
      (fuel + 1 < 16 * ts.length + 10) := by
  rw [meets_arguments]
  refine (ih.expr ts).mono ?_ (fun _ _ h => h) (fun h => by omega)
  intro first rest hrest
  split
  · have hadv := hrest.trans_suffix (advance_suffix rest)
    refine (ih.arguments (advance rest)).behind hadv ?_ (by omega)
    intro others rest' hrest'
    exact hadv.trans hrest'
  · exact hrest

private theorem primary_progress {fuel : Nat} (ih : ExprProgress fuel) (ts : List Token) :
    (primary (fuel + 1) ts).Meets (fun _ rest => Shorter rest ts) (fun _ rest => rest <:+ ts)
      (fuel + 1 < 16 * ts.length + 1) := by
  rw [meets_primary]
  split
  iterate 5
    · next hk => exact Shorter.advance_of_kind hk (by decide)
  · next hk =>
    have hadv : Shorter (advance ts) ts := Shorter.advance_of_kind hk (by decide)
    split
    · exact hadv.trans_suffix (advance_suffix _)
    · exact hadv.1
  · next hk =>
    have hadv : Shorter (advance ts) ts := Shorter.advance_of_kind hk (by decide)
    refine (ih.expr (advance ts)).behind hadv ?_ (by omega)
    intro inner rest hrest
    split
    · exact (hadv.trans hrest).trans_suffix (advance_suffix rest)
    · exact (hadv.trans hrest).1
  · exact List.suffix_rfl

/-- **Progress of the parsers of expressions**, at every budget. -/
theorem exprProgress (fuel : Nat) : ExprProgress fuel := by
  induction fuel with
  | zero =>
      constructor <;> intros <;> simp only [expr, operators, operatorsAfter, unary, calls,
        arguments, primary, meets_exhausted] <;> omega
  | succ fuel ih =>
      exact ⟨expr_progress ih, operators_progress ih, operatorsAfter_progress ih,
        unary_progress ih, calls_progress ih, arguments_progress ih, primary_progress ih⟩

end Parser

namespace Recovering

open Badger.Parser

/-! ## Parts of statements -/

/-- What follows a construct is consumed if it is of the expected kind. -/
private theorem closing_progress {ts rest : List Token} (kind : TokenKind)
    (h : Shorter rest ts) :
    if (current rest).kind = kind then Shorter (advance rest) ts else rest <:+ ts := by
  split
  · exact h.trans_suffix (advance_suffix rest)
  · exact h.1

theorem variableDeclaration_progress (fuel : Nat) {ts : List Token}
    (h : (current ts).kind ≠ .eof) :
    (variableDeclaration fuel ts).Meets (fun _ rest => Shorter rest ts)
      (fun _ rest => rest <:+ ts) (fuel < 16 * ts.length) := by
  have hadv := Shorter.advance h
  rw [meets_variableDeclaration]
  split
  · have hname := hadv.trans_suffix (advance_suffix (advance ts))
    dsimp only
    split
    · have hequals := hname.trans_suffix (advance_suffix (advance (advance ts)))
      refine ((exprProgress fuel).expr _).behind hequals ?_ (by omega)
      intro init rest hrest
      exact closing_progress .semi (hequals.trans hrest)
    · exact closing_progress .semi hname
  · exact hadv.1

theorem parameters_progress (fuel : Nat) (ts : List Token) :
    (parameters fuel ts).Meets (fun _ rest => Shorter rest ts) (fun _ rest => rest <:+ ts)
      (fuel < 16 * ts.length + 1) := by
  induction fuel generalizing ts with
  | zero =>
      rw [parameters, meets_exhausted]
      omega
  | succ fuel ih =>
      rw [meets_parameters]
      split
      · next hk =>
        have hadv : Shorter (advance ts) ts := Shorter.advance_of_kind hk (by decide)
        split
        · have hcomma := hadv.trans_suffix (advance_suffix (advance ts))
          refine (ih _).behind hcomma ?_ (by omega)
          intro others rest hrest
          exact hcomma.trans hrest
        · exact hadv
      · exact List.suffix_rfl

private theorem optionalParameters_progress (fuel : Nat) (ts : List Token) :
    ((if (current ts).kind = .rparen then pure [] else parameters fuel) ts).Meets
      (fun _ rest => rest <:+ ts) (fun _ rest => rest <:+ ts) (fuel < 16 * ts.length + 1) := by
  rw [Parser.meets_ite]
  split
  · exact List.suffix_rfl
  · exact (parameters_progress fuel ts).mono (fun _ _ h => h.1) (fun _ _ h => h) (fun h => h)

theorem functionHead_progress (fuel : Nat) {ts : List Token} (h : (current ts).kind ≠ .eof) :
    (functionHead fuel ts).Meets (fun _ rest => Shorter rest ts) (fun _ rest => rest <:+ ts)
      (fuel < 16 * ts.length) := by
  have hadv := Shorter.advance h
  have hname := hadv.trans_suffix (advance_suffix (advance ts))
  have hopening := hname.trans_suffix (advance_suffix (advance (advance ts)))
  rw [meets_functionHead]
  dsimp only
  split
  · split
    · refine (optionalParameters_progress fuel _).behind hopening ?_ (by omega)
      intro params rest hrest
      have hparams := hopening.trans_suffix hrest
      split
      · exact closing_progress .lbrace (hparams.trans_suffix (advance_suffix rest))
      · exact hparams.1
    · exact hname.1
  · exact hadv.1

theorem condition_progress (fuel : Nat) (opening : Expectation) {ts : List Token}
    (h : (current ts).kind ≠ .eof) :
    (condition fuel opening ts).Meets (fun _ rest => Shorter rest ts)
      (fun _ rest => rest <:+ ts) (fuel < 16 * ts.length) := by
  have hadv := Shorter.advance h
  rw [meets_condition]
  split
  · have hparen := hadv.trans_suffix (advance_suffix (advance ts))
    refine ((exprProgress fuel).expr _).behind hparen ?_ (by omega)
    intro cond rest hrest
    exact closing_progress .rparen (hparen.trans hrest)
  · exact hadv.1

theorem returnStatement_progress (fuel : Nat) {ts : List Token}
    (h : (current ts).kind ≠ .eof) :
    (returnStatement fuel ts).Meets (fun _ rest => Shorter rest ts)
      (fun _ rest => rest <:+ ts) (fuel < 16 * ts.length) := by
  have hadv := Shorter.advance h
  rw [meets_returnStatement]
  refine ((exprProgress fuel).expr _).behind hadv ?_ (by omega)
  intro value rest hrest
  exact closing_progress .semi (hadv.trans hrest)

theorem exprStatement_progress (fuel : Nat) (ts : List Token) :
    (exprStatement fuel ts).Meets (fun _ rest => Shorter rest ts) (fun _ rest => rest <:+ ts)
      (fuel < 16 * ts.length + 9) := by
  rw [meets_exprStatement]
  refine ((exprProgress fuel).expr ts).mono ?_ (fun _ _ h => h) (fun h => h)
  intro e rest hrest
  exact closing_progress .semi hrest

/-! ## Recovery -/

theorem skipAfter_suffix (previous : TokenKind) (ts : List Token) :
    skipAfter previous ts <:+ ts := by
  induction ts generalizing previous with
  | nil => exact List.suffix_rfl
  | cons t ts ih =>
      rw [skipAfter]
      split
      · exact List.suffix_rfl
      · exact (ih t.kind).trans (List.suffix_cons t ts)

theorem synchronize_suffix (ts : List Token) : synchronize ts <:+ ts := by
  cases ts with
  | nil => exact List.suffix_rfl
  | cons t ts =>
      rw [synchronize]
      split
      · exact List.suffix_rfl
      · exact (skipAfter_suffix t.kind ts).trans (List.suffix_cons t ts)

/-- Recovery passes over a token unless it is at the end. -/
theorem synchronize_shorter {ts : List Token} (h : (current ts).kind ≠ .eof) :
    Shorter (synchronize ts) ts := by
  cases ts with
  | nil => exact absurd rfl h
  | cons t ts =>
      have ht : t.kind ≠ .eof := h
      rw [synchronize, if_neg ht]
      exact ⟨(skipAfter_suffix t.kind ts).trans (List.suffix_cons t ts),
        Nat.lt_succ_of_le (skipAfter_suffix t.kind ts).length_le⟩

/-- Recovery from a failure inside a declaration leaves fewer tokens than the declaration
started with: either tokens had been consumed before the failure, or it was noticed at the
first token, which recovery passes over. -/
theorem synchronize_shorter_of_suffix {ts rest : List Token} (h : (current ts).kind ≠ .eof)
    (hrest : rest <:+ ts) : Shorter (synchronize rest) ts := by
  rcases Nat.lt_or_ge rest.length ts.length with hlt | hge
  · exact Shorter.trans_suffix ⟨hrest, hlt⟩ (synchronize_suffix rest)
  · rw [hrest.eq_of_length_le hge]
    exact synchronize_shorter h

/-! ## Statements -/

/-- **Progress of the parsers of statements** at a budget. A declaration never fails; it moves
on unless it is at the end. -/
structure StmtProgress (fuel : Nat) : Prop where
  declaration (ts : List Token) : Meets (declaration fuel ts)
    (fun _ rest _ => rest <:+ ts ∧ ((current ts).kind ≠ .eof → Shorter rest ts))
    (fun _ _ _ => False) (fuel < 16 * ts.length + 11)
  statement (ts : List Token) : Meets (statement fuel ts) (fun _ rest _ => Shorter rest ts)
    (fun _ rest _ => rest <:+ ts) (fuel < 16 * ts.length + 10)
  block (ts : List Token) : Meets (block fuel ts) (fun _ rest _ => Shorter rest ts)
    (fun _ rest _ => rest <:+ ts) (fuel < 16 * ts.length + 12)

private theorem declaration_progress {fuel : Nat} (ih : StmtProgress fuel) (ts : List Token) :
    Meets (declaration (fuel + 1) ts)
      (fun _ rest _ => rest <:+ ts ∧ ((current ts).kind ≠ .eof → Shorter rest ts))
      (fun _ _ _ => False) (fuel + 1 < 16 * ts.length + 11) := by
  have hok : ∀ rest, Shorter rest ts →
      rest <:+ ts ∧ ((current ts).kind ≠ .eof → Shorter rest ts) :=
    fun rest h => ⟨h.1, fun _ => h⟩
  have hfail : ∀ rest, rest <:+ ts →
      synchronize rest <:+ ts ∧ ((current ts).kind ≠ .eof → Shorter (synchronize rest) ts) :=
    fun rest h => ⟨(synchronize_suffix rest).trans h,
      fun hk => synchronize_shorter_of_suffix hk h⟩
  rw [meets_declaration]
  dsimp only
  split
  · next htype =>
    have hk : (current ts).kind ≠ .eof := by
      intro hk
      rw [hk] at htype
      exact absurd htype (by decide)
    exact (variableDeclaration_progress fuel hk).mono (fun _ rest => hok rest)
      (fun _ rest => hfail rest) (fun h => by omega)
  · split
    · next hk =>
      refine (functionHead_progress fuel (hk ▸ (by decide))).mono ?_ (fun _ rest => hfail rest)
        (fun h => by omega)
      intro head rest hrest
      refine (ih.block rest).mono ?_ ?_ ?_
      · intro body rest' _ hrest'
        exact hok rest' (hrest.trans hrest')
      · intro e rest' _ hrest'
        exact hfail rest' (hrest.trans_suffix hrest').1
      · intro hout
        have := hrest.2
        omega
    · exact (ih.statement ts).mono (fun _ rest _ => hok rest) (fun _ rest _ => hfail rest)
        (fun h => by omega)

private theorem statement_progress {fuel : Nat} (ih : StmtProgress fuel) (ts : List Token) :
    Meets (statement (fuel + 1) ts) (fun _ rest _ => Shorter rest ts)
      (fun _ rest _ => rest <:+ ts) (fuel + 1 < 16 * ts.length + 10) := by
  rw [meets_statement]
  split
  · next hk =>
    exact (returnStatement_progress fuel (hk ▸ (by decide))).mono (fun _ _ h => h)
      (fun _ _ h => h) (fun h => by omega)
  · next hk =>
    have hadv : Shorter (advance ts) ts := Shorter.advance_of_kind hk (by decide)
    refine (ih.block (advance ts)).behind hadv ?_ (by omega)
    intro body rest _ hrest
    exact hadv.trans hrest
  · next hk =>
    refine (condition_progress fuel _ (hk ▸ (by decide))).mono ?_ (fun _ _ h => h)
      (fun h => by omega)
    intro head rest hrest
    refine (ih.statement rest).behind hrest ?_ (by omega)
    intro yes rest' _ hrest'
    have hyes := hrest.trans hrest'
    split
    · have helse := hyes.trans_suffix (advance_suffix rest')
      refine (ih.statement (advance rest')).behind helse ?_ (by omega)
      intro no rest'' _ hrest''
      exact helse.trans hrest''
    · exact hyes
  · next hk =>
    refine (condition_progress fuel _ (hk ▸ (by decide))).mono ?_ (fun _ _ h => h)
      (fun h => by omega)
    intro head rest hrest
    refine (ih.statement rest).behind hrest ?_ (by omega)
    intro body rest' _ hrest'
    exact hrest.trans hrest'
  · exact (exprStatement_progress fuel ts).mono (fun _ _ h => h) (fun _ _ h => h)
      (fun h => by omega)

private theorem block_progress {fuel : Nat} (ih : StmtProgress fuel) (ts : List Token) :
    Meets (block (fuel + 1) ts) (fun _ rest _ => Shorter rest ts)
      (fun _ rest _ => rest <:+ ts) (fuel + 1 < 16 * ts.length + 12) := by
  rw [meets_block]
  split
  · next hk => exact Shorter.advance_of_kind hk (by decide)
  · split
    · exact List.suffix_rfl
    · next hk =>
      refine (ih.declaration ts).mono ?_ (fun _ _ _ h => h.elim) (fun h => by omega)
      intro first rest _ hrest
      have hfirst := hrest.2 hk
      refine (ih.block rest).behind hfirst ?_ (by omega)
      intro others rest' _ hrest'
      exact hfirst.trans hrest'

/-- **Progress of the parsers of statements**, at every budget. -/
theorem stmtProgress (fuel : Nat) : StmtProgress fuel := by
  induction fuel with
  | zero =>
      constructor <;> intro ts
      · show 0 < 16 * ts.length + 11
        omega
      · show 0 < 16 * ts.length + 10
        omega
      · show 0 < 16 * ts.length + 12
        omega
  | succ fuel ih => exact ⟨declaration_progress ih, statement_progress ih, block_progress ih⟩

/-- **A program is read to its end.** Declarations are read up to an end token, and no budget
runs out that allows for the number of tokens. -/
theorem declarations_meets_end (fuel : Nat) (ts : List Token) :
    Meets (declarations fuel ts) (fun _ rest _ => rest <:+ ts ∧ (current rest).kind = .eof)
      (fun _ _ _ => False) (fuel < 16 * ts.length + 12) := by
  induction fuel generalizing ts with
  | zero =>
      show 0 < 16 * ts.length + 12
      omega
  | succ fuel ih =>
      rw [meets_declarations]
      split
      · next hk => exact ⟨List.suffix_rfl, hk⟩
      · next hk =>
        refine ((stmtProgress fuel).declaration ts).mono ?_ (fun _ _ _ h => h)
          (fun h => by omega)
        intro first rest _ hrest
        have hfirst := hrest.2 hk
        refine (ih rest).mono ?_ (fun _ _ _ h => h) ?_
        · intro others rest' _ hrest'
          exact ⟨hrest'.1.trans hfirst.1, hrest'.2⟩
        · intro hout
          have := hfirst.2
          omega

end Recovering

end Badger
