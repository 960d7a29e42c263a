import Badger.Proofs.Grammar.Basic
import Badger.Proofs.Parsing.Progress

/-!
# Soundness of parsing

What the parsers read is derived by the grammar. For expressions this holds of every result;
for statements it holds of results on the way to which no error was recorded, and the tree is
the one in which every `else` belongs to the nearest conditional.

## Main definitions

* `Reads`: the tokens in front of what is left derive a phrase
* `ExprSound`, `StmtSound`: soundness of each parser at a budget

## Main statements

* `exprSound`, `stmtSound`: soundness at every budget
* `declarations_sound`: soundness of whole programs

## Design notes

What stands before `=` is read as an expression, and only afterwards found to be a name. The
two readings agree because the only derivation of a name is the name itself
(`Derives.eq_ident_of_operators`).
-/

namespace Badger.Grammar

open Badger.Parser

theorem levels_eq : levels = tiers.map Tier.kinds := rfl

/-! ## Expressions -/

/-- The tokens in front of `rest` derive a phrase. -/
def Reads (p : Phrase) (ts rest : List Token) : Prop :=
  ∃ read, ts = read ++ rest ∧ Derives p read

theorem spelled_of_append (us : List Token) {rest : List Token}
    (h : ∀ t ∈ us ++ rest, t.Spelled) :
    ∀ t ∈ rest, t.Spelled :=
  fun t ht => h t (List.mem_append_right us ht)

/-- **Soundness of the parsers of expressions** at a budget. -/
structure ExprSound (fuel : Nat) : Prop where
  expr {ts : List Token} (h : ∀ t ∈ ts, t.Spelled) : (expr fuel ts).Meets
    (fun e rest => Reads (.expression e) ts rest) (fun _ _ => True) True
  operators {levels : List Tier} (hl : levels <:+ tiers) {ts : List Token}
    (h : ∀ t ∈ ts, t.Spelled) : (operators fuel (levels.map Tier.kinds) ts).Meets
      (fun e rest => Reads (.operators levels e) ts rest) (fun _ _ => True) True
  operatorsAfter {tier : Tier} {tighter : List Tier} (hl : tier :: tighter <:+ tiers)
    (left : Expr) {ts : List Token} (h : ∀ t ∈ ts, t.Spelled) :
    (operatorsAfter fuel tier.kinds (tighter.map Tier.kinds) left ts).Meets
      (fun e rest => Reads (.operatorsAfter tier tighter left e) ts rest) (fun _ _ => True) True
  unary {ts : List Token} (h : ∀ t ∈ ts, t.Spelled) : (unary fuel ts).Meets
    (fun e rest => Reads (.unary e) ts rest) (fun _ _ => True) True
  calls (callee : Expr) {ts : List Token} (h : ∀ t ∈ ts, t.Spelled) :
    (calls fuel callee ts).Meets (fun e rest => Reads (.calls callee e) ts rest)
      (fun _ _ => True) True
  arguments {ts : List Token} (h : ∀ t ∈ ts, t.Spelled) : (arguments fuel ts).Meets
    (fun es rest => Reads (.expressions es) ts rest) (fun _ _ => True) True
  primary {ts : List Token} (h : ∀ t ∈ ts, t.Spelled) : (primary fuel ts).Meets
    (fun e rest => Reads (.primary e) ts rest) (fun _ _ => True) True

private theorem expr_sound {fuel : Nat} (ih : ExprSound fuel) {ts : List Token}
    (h : ∀ t ∈ ts, t.Spelled) : (expr (fuel + 1) ts).Meets
      (fun e rest => Reads (.expression e) ts rest) (fun _ _ => True) True := by
  rw [meets_expr, levels_eq]
  refine (ih.operators List.suffix_rfl h).mono ?_ (fun _ _ h => h) (fun h => h)
  rintro target rest ⟨read, rfl, htarget⟩
  split
  · next hk =>
    obtain ⟨equals, rest, rfl, hequals, hadv⟩ := exists_cons_of_kind hk (by decide)
    rw [hadv]
    have hspelled := spelled_of_append (read ++ [equals]) (by simpa using h)
    refine (ih.expr hspelled).mono ?_ (fun _ _ h => h) (fun h => h)
    rintro value rest ⟨more, rfl, hvalue⟩
    split
    · obtain ⟨t, rfl, ht, rfl, rfl⟩ := htarget.eq_ident_of_operators
      exact ⟨t :: equals :: more, rfl, .assign ht hequals hvalue⟩
    · trivial
  · exact ⟨read, rfl, .operators htarget⟩

private theorem operators_sound {fuel : Nat} (ih : ExprSound fuel) {levels : List Tier}
    (hl : levels <:+ tiers) {ts : List Token} (h : ∀ t ∈ ts, t.Spelled) :
    (operators (fuel + 1) (levels.map Tier.kinds) ts).Meets
      (fun e rest => Reads (.operators levels e) ts rest) (fun _ _ => True) True := by
  cases levels with
  | nil =>
      rw [List.map_nil, meets_operators_nil]
      refine (ih.unary h).mono ?_ (fun _ _ h => h) (fun h => h)
      rintro e rest ⟨read, rfl, he⟩
      exact ⟨read, rfl, .tightest he⟩
  | cons tier tighter =>
      rw [List.map_cons, meets_operators_cons]
      refine (ih.operators ((List.suffix_cons tier tighter).trans hl) h).mono ?_
        (fun _ _ h => h) (fun h => h)
      rintro left rest ⟨read, rfl, hleft⟩
      refine (ih.operatorsAfter hl left (spelled_of_append _ h)).mono ?_ (fun _ _ h => h)
        (fun h => h)
      rintro e rest ⟨more, rfl, hmore⟩
      exact ⟨read ++ more, by rw [List.append_assoc], .tier hleft hmore⟩

private theorem operatorsAfter_sound {fuel : Nat} (ih : ExprSound fuel) {tier : Tier}
    {tighter : List Tier} (hl : tier :: tighter <:+ tiers) (left : Expr) {ts : List Token}
    (h : ∀ t ∈ ts, t.Spelled) :
    (operatorsAfter (fuel + 1) tier.kinds (tighter.map Tier.kinds) left ts).Meets
      (fun e rest => Reads (.operatorsAfter tier tighter left e) ts rest) (fun _ _ => True)
      True := by
  rw [meets_operatorsAfter]
  split
  · next hk =>
    obtain ⟨o, ho⟩ := exists_mem_of_mem_kinds hk
    have htier : tier ∈ tiers := hl.subset List.mem_cons_self
    have hne : (current ts).kind ≠ .eof := by
      have hall : ∀ tier ∈ tiers, ∀ p ∈ tier, p.1 ≠ TokenKind.eof := by decide
      exact hall tier htier _ ho
    obtain ⟨op, us, rfl, -, hadv⟩ := exists_cons_of_kind rfl hne
    rw [hadv, current_cons, binaryOp_eq (h op List.mem_cons_self) htier ho]
    have hspelled := spelled_of_append [op] h
    refine (ih.operators ((List.suffix_cons tier tighter).trans hl) hspelled).mono ?_
      (fun _ _ h => h) (fun h => h)
    rintro right rest ⟨read, rfl, hright⟩
    refine (ih.operatorsAfter hl _ (spelled_of_append _ hspelled)).mono ?_ (fun _ _ h => h)
      (fun h => h)
    rintro e rest ⟨more, rfl, hmore⟩
    exact ⟨op :: read ++ more, by simp, .oneOperator ho hright hmore⟩
  · exact ⟨[], rfl, .noOperator⟩

private theorem unary_sound {fuel : Nat} (ih : ExprSound fuel) {ts : List Token}
    (h : ∀ t ∈ ts, t.Spelled) : (unary (fuel + 1) ts).Meets
      (fun e rest => Reads (.unary e) ts rest) (fun _ _ => True) True := by
  rw [meets_unary]
  split
  · next hk =>
    have hne : (current ts).kind ≠ .eof := by
      rcases hk with hk | hk <;> rw [hk] <;> decide
    obtain ⟨op, us, rfl, -, hadv⟩ := exists_cons_of_kind rfl hne
    rw [hadv, current_cons]
    refine (ih.unary (spelled_of_append [op] h)).mono ?_ (fun _ _ h => h) (fun h => h)
    rintro operand rest ⟨read, rfl, hoperand⟩
    obtain ⟨o, ho⟩ := exists_unaryOp hk
    rw [unaryOp_eq (h op List.mem_cons_self) ho]
    exact ⟨op :: read, rfl, .unaryOp ho hoperand⟩
  · refine (ih.primary h).mono ?_ (fun _ _ h => h) (fun h => h)
    rintro callee rest ⟨read, rfl, hcallee⟩
    refine (ih.calls callee (spelled_of_append _ h)).mono ?_ (fun _ _ h => h) (fun h => h)
    rintro e rest ⟨more, rfl, hcalls⟩
    exact ⟨read ++ more, by rw [List.append_assoc], .unaryCall (.call hcallee hcalls)⟩

private theorem optionalArguments_sound {fuel : Nat} (ih : ExprSound fuel) {ts : List Token}
    (h : ∀ t ∈ ts, t.Spelled) :
    ((if (current ts).kind = .rparen then pure [] else arguments fuel) ts).Meets
      (fun es rest => Reads (.arguments es) ts rest) (fun _ _ => True) True := by
  rw [meets_ite]
  split
  · exact ⟨[], rfl, .noArguments⟩
  · refine (ih.arguments h).mono ?_ (fun _ _ h => h) (fun h => h)
    rintro es rest ⟨read, rfl, hes⟩
    exact ⟨read, rfl, .someArguments hes⟩

private theorem calls_sound {fuel : Nat} (ih : ExprSound fuel) (callee : Expr)
    {ts : List Token} (h : ∀ t ∈ ts, t.Spelled) : (calls (fuel + 1) callee ts).Meets
      (fun e rest => Reads (.calls callee e) ts rest) (fun _ _ => True) True := by
  rw [meets_calls]
  split
  · next hk =>
    obtain ⟨opening, us, rfl, ho, hadv⟩ := exists_cons_of_kind hk (by decide)
    rw [hadv, current_cons]
    have hspelled := spelled_of_append [opening] h
    refine (optionalArguments_sound ih hspelled).mono ?_ (fun _ _ h => h) (fun h => h)
    rintro args rest ⟨read, rfl, hargs⟩
    split
    · next hk =>
      obtain ⟨closing, rest, rfl, hc, hadv⟩ := exists_cons_of_kind hk (by decide)
      rw [hadv]
      have hrest := spelled_of_append (read ++ [closing]) (by simpa using hspelled)
      refine (ih.calls _ hrest).mono ?_ (fun _ _ h => h) (fun h => h)
      rintro e rest ⟨more, rfl, hmore⟩
      exact ⟨opening :: read ++ closing :: more, by simp, .oneCall ho hargs hc hmore⟩
    · trivial
  · exact ⟨[], rfl, .noCall⟩

private theorem arguments_sound {fuel : Nat} (ih : ExprSound fuel) {ts : List Token}
    (h : ∀ t ∈ ts, t.Spelled) : (arguments (fuel + 1) ts).Meets
      (fun es rest => Reads (.expressions es) ts rest) (fun _ _ => True) True := by
  rw [meets_arguments]
  refine (ih.expr h).mono ?_ (fun _ _ h => h) (fun h => h)
  rintro first rest ⟨read, rfl, hfirst⟩
  split
  · next hk =>
    obtain ⟨comma, rest, rfl, hcomma, hadv⟩ := exists_cons_of_kind hk (by decide)
    rw [hadv]
    have hspelled := spelled_of_append (read ++ [comma]) (by simpa using h)
    refine (ih.arguments hspelled).mono ?_ (fun _ _ h => h) (fun h => h)
    rintro others rest ⟨more, rfl, hothers⟩
    exact ⟨read ++ comma :: more, by simp, .nextExpression hfirst hcomma hothers⟩
  · exact ⟨read, rfl, .lastExpression hfirst⟩

private theorem primary_sound {fuel : Nat} (ih : ExprSound fuel) {ts : List Token}
    (h : ∀ t ∈ ts, t.Spelled) : (primary (fuel + 1) ts).Meets
      (fun e rest => Reads (.primary e) ts rest) (fun _ _ => True) True := by
  have hleaf : ∀ {kind : TokenKind} (e : Token → Expr), (current ts).kind = kind →
      kind ≠ .eof → (∀ t : Token, t.kind = kind → Derives (.primary (e t)) [t]) →
      Reads (.primary (e (current ts))) ts (advance ts) := by
    intro kind e hk hne hderives
    obtain ⟨t, us, rfl, ht, hadv⟩ := exists_cons_of_kind hk hne
    rw [hadv]
    exact ⟨[t], rfl, hderives t ht⟩
  rw [meets_primary]
  split
  · next hk => exact hleaf (fun t => .bool t.offset false) hk (by decide) fun t => .falseWord
  · next hk => exact hleaf (fun t => .bool t.offset true) hk (by decide) fun t => .trueWord
  · next hk => exact hleaf (fun t => .num t.offset t.number) hk (by decide) fun t => .number
  · next hk => exact hleaf (fun t => .str t.offset t.lexeme) hk (by decide) fun t => .string
  · next hk => exact hleaf (fun t => .ident t.offset t.lexeme) hk (by decide) fun t => .ident
  · next hk =>
    obtain ⟨t, us, rfl, ht, hadv⟩ := exists_cons_of_kind hk (by decide)
    rw [hadv, current_cons]
    split
    · next hname =>
      obtain ⟨name, us, rfl, hname, hadv⟩ := exists_cons_of_kind hname (by decide)
      rw [hadv]
      exact ⟨[t, name], rfl, .symbol ht hname⟩
    · trivial
  · next hk =>
    obtain ⟨opening, us, rfl, ho, hadv⟩ := exists_cons_of_kind hk (by decide)
    rw [hadv, current_cons]
    refine (ih.expr (spelled_of_append [opening] h)).mono ?_ (fun _ _ h => h)
      (fun h => h)
    rintro inner rest ⟨read, rfl, hinner⟩
    split
    · next hk =>
      obtain ⟨closing, rest, rfl, hc, hadv⟩ := exists_cons_of_kind hk (by decide)
      rw [hadv]
      exact ⟨opening :: read ++ [closing], by simp, .group ho hinner hc⟩
    · trivial
  · trivial

/-- **Soundness of the parsers of expressions**, at every budget. -/
theorem exprSound (fuel : Nat) : ExprSound fuel := by
  induction fuel with
  | zero =>
      constructor <;> intros <;> simp only [expr, operators, operatorsAfter, unary, calls,
        arguments, primary, meets_exhausted]
  | succ fuel ih =>
      exact ⟨expr_sound ih, operators_sound ih, operatorsAfter_sound ih, unary_sound ih,
        calls_sound ih, arguments_sound ih, primary_sound ih⟩

/-! ## Parts of statements -/

open Recovering in
theorem variableDeclaration_sound (fuel : Nat) {ts : List Token}
    (h : ∀ t ∈ ts, t.Spelled) (hk : (current ts).kind.isType = true) :
    (variableDeclaration fuel ts).Meets
      (fun s rest => Reads (.declaration s) ts rest ∧ s.elseNearest = true) (fun _ _ => True)
      True := by
  have hne : (current ts).kind ≠ .eof := by
    intro heof
    rw [heof] at hk
    exact absurd hk (by decide)
  obtain ⟨word, us, rfl, -, hadv⟩ := exists_cons_of_kind rfl hne
  obtain ⟨type, zero, hword⟩ := exists_typeWord hk
  obtain ⟨htype, hzero⟩ := typeWord_eq (h word List.mem_cons_self) hword
  rw [meets_variableDeclaration, hadv, current_cons, htype]
  split
  · next hname =>
    obtain ⟨name, us, rfl, hname, hadv⟩ := exists_cons_of_kind hname (by decide)
    dsimp only
    rw [hadv, current_cons]
    split
    · next hequals =>
      obtain ⟨equals, us, rfl, hequals, hadv⟩ := exists_cons_of_kind hequals (by decide)
      rw [hadv]
      refine ((exprSound fuel).expr (spelled_of_append [word, name, equals] h)).mono ?_
        (fun _ _ h => h) (fun h => h)
      rintro init rest ⟨read, rfl, hinit⟩
      split
      · next hsemi =>
        obtain ⟨semi, rest, rfl, hsemi, hadv⟩ := exists_cons_of_kind hsemi (by decide)
        rw [hadv]
        exact ⟨⟨word :: name :: equals :: read ++ [semi], by simp,
          .declare hword hname hequals hinit hsemi⟩, rfl⟩
      · trivial
    · split
      · next hsemi =>
        obtain ⟨semi, rest, rfl, hsemi, hadv⟩ := exists_cons_of_kind hsemi (by decide)
        rw [hadv]
        rw [hzero]
        exact ⟨⟨[word, name, semi], rfl, .declareZero hword hname hsemi⟩, rfl⟩
      · trivial
  · trivial

open Recovering in
private theorem parameters_sound (fuel : Nat) (ts : List Token) :
    (parameters fuel ts).Meets (fun ns rest => Reads (.names ns) ts rest) (fun _ _ => True)
      True := by
  induction fuel generalizing ts with
  | zero =>
      rw [parameters, meets_exhausted]
      trivial
  | succ fuel ih =>
      rw [meets_parameters]
      split
      · next hk =>
        obtain ⟨n, us, rfl, hn, hadv⟩ := exists_cons_of_kind hk (by decide)
        rw [hadv, current_cons]
        split
        · next hk =>
          obtain ⟨comma, us, rfl, hcomma, hadv⟩ := exists_cons_of_kind hk (by decide)
          rw [hadv]
          refine (ih us).mono ?_ (fun _ _ h => h) (fun h => h)
          rintro others rest ⟨read, rfl, hothers⟩
          exact ⟨n :: comma :: read, rfl, .nextName hn hcomma hothers⟩
        · exact ⟨[n], rfl, .lastName hn⟩
      · trivial

open Recovering in
private theorem optionalParameters_sound (fuel : Nat) (ts : List Token) :
    ((if (current ts).kind = .rparen then pure [] else parameters fuel) ts).Meets
      (fun ns rest => Reads (.parameters ns) ts rest) (fun _ _ => True) True := by
  rw [Parser.meets_ite]
  split
  · exact ⟨[], rfl, .noParameters⟩
  · refine (parameters_sound fuel ts).mono ?_ (fun _ _ h => h) (fun h => h)
    rintro ns rest ⟨read, rfl, hns⟩
    exact ⟨read, rfl, .someParameters hns⟩

/-- What the head of a function declaration was read from, up to the opening brace. -/
def ReadsHead (ts : List Token) (head : Token × List Text) (rest : List Token) : Prop :=
  ∃ word opening read closing brace,
    ts = word :: head.1 :: opening :: read ++ closing :: brace :: rest ∧ word.kind = .fxn ∧
      head.1.kind = .ident ∧ opening.kind = .lparen ∧ Derives (.parameters head.2) read ∧
      closing.kind = .rparen ∧ brace.kind = .lbrace

open Recovering in
theorem functionHead_sound (fuel : Nat) {ts : List Token}
    (hk : (current ts).kind = .fxn) :
    (functionHead fuel ts).Meets (ReadsHead ts) (fun _ _ => True) True := by
  obtain ⟨word, us, rfl, hword, hadv⟩ := exists_cons_of_kind hk (by decide)
  rw [meets_functionHead]
  dsimp only
  rw [hadv]
  split
  · next hname =>
    obtain ⟨name, us, rfl, hname, hadv⟩ := exists_cons_of_kind hname (by decide)
    rw [hadv, current_cons]
    split
    · next ho =>
      obtain ⟨opening, us, rfl, ho, hadv⟩ := exists_cons_of_kind ho (by decide)
      rw [hadv]
      refine (optionalParameters_sound fuel us).mono ?_ (fun _ _ h => h) (fun h => h)
      rintro params rest ⟨read, rfl, hparams⟩
      split
      · next hc =>
        obtain ⟨closing, rest, rfl, hc, hadv⟩ := exists_cons_of_kind hc (by decide)
        rw [hadv]
        split
        · next hbrace =>
          obtain ⟨brace, rest, rfl, hbrace, hadv⟩ := exists_cons_of_kind hbrace (by decide)
          rw [hadv]
          exact ⟨word, opening, read, closing, brace, by simp, hword, hname, ho, hparams, hc,
            hbrace⟩
        · trivial
      · trivial
    · trivial
  · trivial

/-- What the keyword and the condition of a conditional or a loop were read from. -/
def ReadsCondition (kind : TokenKind) (ts : List Token) (head : Token × Expr)
    (rest : List Token) : Prop :=
  ∃ opening read closing, ts = head.1 :: opening :: read ++ closing :: rest ∧
    head.1.kind = kind ∧ opening.kind = .lparen ∧ Derives (.expression head.2) read ∧
    closing.kind = .rparen

open Recovering in
theorem condition_sound (fuel : Nat) (what : Expectation) {kind : TokenKind}
    {ts : List Token} (h : ∀ t ∈ ts, t.Spelled) (hk : (current ts).kind = kind)
    (hne : kind ≠ .eof) :
    (condition fuel what ts).Meets (ReadsCondition kind ts) (fun _ _ => True) True := by
  obtain ⟨word, us, rfl, hword, hadv⟩ := exists_cons_of_kind hk hne
  rw [meets_condition, hadv, current_cons]
  split
  · next ho =>
    obtain ⟨opening, us, rfl, ho, hadv⟩ := exists_cons_of_kind ho (by decide)
    rw [hadv]
    refine ((exprSound fuel).expr (spelled_of_append [word, opening] h)).mono ?_
      (fun _ _ h => h) (fun h => h)
    rintro cond rest ⟨read, rfl, hcond⟩
    split
    · next hc =>
      obtain ⟨closing, rest, rfl, hc, hadv⟩ := exists_cons_of_kind hc (by decide)
      rw [hadv]
      exact ⟨opening, read, closing, by simp, hword, ho, hcond, hc⟩
    · trivial
  · trivial

open Recovering in
theorem returnStatement_sound (fuel : Nat) {ts : List Token}
    (h : ∀ t ∈ ts, t.Spelled) (hk : (current ts).kind = .returnWord) :
    (returnStatement fuel ts).Meets (fun s rest => Reads (.statement s) ts rest ∧
      s.elseNearest = true ∧ s.endsOpen = false) (fun _ _ => True) True := by
  obtain ⟨word, us, rfl, hword, hadv⟩ := exists_cons_of_kind hk (by decide)
  rw [meets_returnStatement, hadv, current_cons]
  refine ((exprSound fuel).expr (spelled_of_append [word] h)).mono ?_ (fun _ _ h => h)
    (fun h => h)
  rintro value rest ⟨read, rfl, hvalue⟩
  split
  · next hsemi =>
    obtain ⟨semi, rest, rfl, hsemi, hadv⟩ := exists_cons_of_kind hsemi (by decide)
    rw [hadv]
    exact ⟨⟨word :: read ++ [semi], by simp, .ret hword hvalue hsemi⟩, rfl, rfl⟩
  · trivial

open Recovering in
theorem exprStatement_sound (fuel : Nat) {ts : List Token} (h : ∀ t ∈ ts, t.Spelled) :
    (exprStatement fuel ts).Meets (fun s rest => Reads (.statement s) ts rest ∧
      s.elseNearest = true ∧ s.endsOpen = false) (fun _ _ => True) True := by
  rw [meets_exprStatement]
  refine ((exprSound fuel).expr h).mono ?_ (fun _ _ h => h) (fun h => h)
  rintro e rest ⟨read, rfl, he⟩
  split
  · next hsemi =>
    obtain ⟨semi, rest, rfl, hsemi, hadv⟩ := exists_cons_of_kind hsemi (by decide)
    obtain ⟨first, read, rfl, -⟩ := he.startsWith rfl
    rw [hadv]
    exact ⟨⟨first :: read ++ [semi], by simp, .exprStatement he hsemi⟩, rfl, rfl⟩
  · trivial

/-! ## Statements -/

open Recovering

/-- **Soundness of the parsers of statements** at a budget, for results on the way to which
nothing was recorded. A statement that could still take an `else` is never left in front of
one. -/
structure StmtSound (fuel : Nat) : Prop where
  declaration {ts : List Token} (h : ∀ t ∈ ts, t.Spelled) : Recovering.Meets
    (declaration fuel ts)
    (fun s rest log => log = [] → Reads (.declaration s) ts rest ∧ s.elseNearest = true)
    (fun _ _ _ => True) True
  statement {ts : List Token} (h : ∀ t ∈ ts, t.Spelled) : Recovering.Meets (statement fuel ts)
    (fun s rest log => log = [] → Reads (.statement s) ts rest ∧ s.elseNearest = true ∧
      (s.endsOpen = true → (current rest).kind ≠ .elseWord))
    (fun _ _ _ => True) True
  block {ts : List Token} (h : ∀ t ∈ ts, t.Spelled) : Recovering.Meets (block fuel ts)
    (fun body rest log => log = [] → ∃ read closing, ts = read ++ closing :: rest ∧
      closing.kind = .rbrace ∧ Derives (.declarations body) read ∧
      Stmt.elsesNearest body = true)
    (fun _ _ _ => True) True

private theorem declaration_sound {fuel : Nat} (ih : StmtSound fuel) {ts : List Token}
    (h : ∀ t ∈ ts, t.Spelled) : Recovering.Meets (declaration (fuel + 1) ts)
      (fun s rest log => log = [] → Reads (.declaration s) ts rest ∧ s.elseNearest = true)
      (fun _ _ _ => True) True := by
  have hfail : ∀ (e : Finding) (rest : List Token) (log : List Finding), log ++ [e] = [] →
      Reads (.declaration .missing) ts (synchronize rest) ∧ Stmt.missing.elseNearest = true :=
    fun e rest log hlog => absurd hlog (by simp)
  rw [meets_declaration]
  dsimp only
  split
  · next hk =>
    exact (variableDeclaration_sound fuel h hk).mono (fun _ _ h _ => h)
      (fun e rest _ => hfail e rest []) (fun h => h)
  · split
    · next hk =>
      refine (functionHead_sound fuel hk).mono ?_ (fun e rest _ => hfail e rest [])
        (fun h => h)
      rintro ⟨name, params⟩ rest ⟨word, opening, read, closing, brace, rfl, hword, hname, ho,
        hparams, hc, hbrace⟩
      have hspelled := spelled_of_append (word :: name :: opening :: read ++ [closing, brace])
        (by simpa using h)
      refine (ih.block hspelled).mono ?_ (fun e rest log _ => hfail e rest log) (fun h => h)
      intro body rest' log hbody hlog
      obtain ⟨more, ending, rfl, hending, hmore, hnearest⟩ := hbody hlog
      exact ⟨⟨word :: name :: opening :: read ++ closing :: brace :: more ++ [ending], by simp,
        .function hword hname ho hparams hc hbrace hmore hending⟩, hnearest⟩
    · refine (ih.statement h).mono ?_ (fun e rest log _ => hfail e rest log) (fun h => h)
      intro s rest log hs hlog
      obtain ⟨⟨read, rfl, hread⟩, hnearest, -⟩ := hs hlog
      exact ⟨⟨read, rfl, .statement hread⟩, hnearest⟩

private theorem statement_sound {fuel : Nat} (ih : StmtSound fuel) {ts : List Token}
    (h : ∀ t ∈ ts, t.Spelled) : Recovering.Meets (statement (fuel + 1) ts)
      (fun s rest log => log = [] → Reads (.statement s) ts rest ∧ s.elseNearest = true ∧
        (s.endsOpen = true → (current rest).kind ≠ .elseWord))
      (fun _ _ _ => True) True := by
  have hclosed : ∀ {s : Stmt} {rest : List Token}, s.endsOpen = false → s.endsOpen = true →
      (current rest).kind ≠ .elseWord :=
    fun hfalse htrue => absurd htrue (by simp [hfalse])
  rw [meets_statement]
  split
  · next hk =>
    refine (returnStatement_sound fuel h hk).mono ?_ (fun _ _ _ => trivial) (fun h => h)
    rintro s rest ⟨hs, hnearest, hopen⟩ -
    exact ⟨hs, hnearest, hclosed hopen⟩
  · next hk =>
    obtain ⟨opening, us, rfl, ho, hadv⟩ := exists_cons_of_kind hk (by decide)
    rw [hadv, current_cons]
    refine (ih.block (spelled_of_append [opening] h)).mono ?_ (fun _ _ _ _ => trivial)
      (fun h => h)
    intro body rest log hbody hlog
    obtain ⟨read, closing, rfl, hc, hread, hnearest⟩ := hbody hlog
    exact ⟨⟨opening :: read ++ [closing], by simp, .block ho hread hc⟩, hnearest, hclosed rfl⟩
  · next hk =>
    refine (condition_sound fuel _ h hk (by decide)).mono ?_ (fun _ _ _ => trivial)
      (fun h => h)
    rintro ⟨word, cond⟩ rest ⟨opening, read, closing, rfl, hword, ho, hcond, hc⟩
    have hspelled := spelled_of_append (word :: opening :: read ++ [closing])
      (by simpa using h)
    refine (ih.statement hspelled).mono ?_ (fun _ _ _ _ => trivial) (fun h => h)
    intro yes rest' log hyes
    split
    · next helse =>
      by_cases hlog : log = []
      · obtain ⟨⟨more, rfl, hmore⟩, hnearest, hopen⟩ := hyes hlog
        obtain ⟨other, rest', rfl, hother, hadv⟩ := exists_cons_of_kind helse (by decide)
        have hyesClosed : yes.endsOpen = false := Bool.eq_false_iff.mpr fun ho => hopen ho hother
        rw [hadv]
        refine (ih.statement (spelled_of_append (more ++ [other]) (by simpa using hspelled))).mono
          ?_ (fun _ _ _ _ => trivial) (fun h => h)
        intro no rest'' log' hno hlog'
        obtain ⟨⟨last, rfl, hlast⟩, hnoNearest, hnoOpen⟩ := hno (List.append_eq_nil_iff.mp hlog').2
        refine ⟨⟨word :: opening :: read ++ closing :: more ++ other :: last, by simp,
          .ifElse hword ho hcond hc hmore hother hlast⟩, ?_, hnoOpen⟩
        simp only [Stmt.elseNearest, hyesClosed, hnearest, hnoNearest, Bool.not_false,
          Bool.and_self]
      · exact .of_forall (fun _ _ _ h => absurd (List.append_eq_nil_iff.mp h).1 hlog)
          (fun _ _ _ => trivial) trivial
    · next helse =>
      intro hlog
      obtain ⟨⟨more, rfl, hmore⟩, hnearest, -⟩ := hyes hlog
      exact ⟨⟨word :: opening :: read ++ closing :: more, by simp,
        .ifThen hword ho hcond hc hmore⟩, hnearest, fun _ => helse⟩
  · next hk =>
    refine (condition_sound fuel _ h hk (by decide)).mono ?_ (fun _ _ _ => trivial)
      (fun h => h)
    rintro ⟨word, cond⟩ rest ⟨opening, read, closing, rfl, hword, ho, hcond, hc⟩
    have hspelled := spelled_of_append (word :: opening :: read ++ [closing])
      (by simpa using h)
    refine (ih.statement hspelled).mono ?_ (fun _ _ _ _ => trivial) (fun h => h)
    intro body rest' log hbody hlog
    obtain ⟨⟨more, rfl, hmore⟩, hnearest, hopen⟩ := hbody hlog
    exact ⟨⟨word :: opening :: read ++ closing :: more, by simp,
      .loop hword ho hcond hc hmore⟩, hnearest, hopen⟩
  · refine (exprStatement_sound fuel h).mono ?_ (fun _ _ _ => trivial) (fun h => h)
    rintro s rest ⟨hs, hnearest, hopen⟩ -
    exact ⟨hs, hnearest, hclosed hopen⟩

private theorem block_sound {fuel : Nat} (ih : StmtSound fuel) {ts : List Token}
    (h : ∀ t ∈ ts, t.Spelled) : Recovering.Meets (block (fuel + 1) ts)
      (fun body rest log => log = [] → ∃ read closing, ts = read ++ closing :: rest ∧
        closing.kind = .rbrace ∧ Derives (.declarations body) read ∧
        Stmt.elsesNearest body = true)
      (fun _ _ _ => True) True := by
  rw [meets_block]
  split
  · next hk =>
    obtain ⟨closing, us, rfl, hc, hadv⟩ := exists_cons_of_kind hk (by decide)
    intro _
    exact ⟨[], closing, by rw [hadv]; rfl, hc, .noDeclaration, rfl⟩
  · split
    · trivial
    · refine (ih.declaration h).mono ?_ (fun _ _ _ h => h) (fun h => h)
      intro first rest log hfirst
      by_cases hlog : log = []
      · obtain ⟨⟨read, rfl, hread⟩, hnearest⟩ := hfirst hlog
        refine (ih.block (spelled_of_append read h)).mono ?_ (fun _ _ _ _ => trivial)
          (fun h => h)
        intro others rest' log' hothers hlog'
        obtain ⟨more, closing, rfl, hc, hmore, hmoreNearest⟩ :=
          hothers (List.append_eq_nil_iff.mp hlog').2
        rw [hread.not_isMissing, if_neg Bool.false_ne_true]
        refine ⟨read ++ more, closing, by simp, hc, .nextDeclaration hread hmore, ?_⟩
        simp only [Stmt.elsesNearest, hnearest, hmoreNearest, Bool.and_self]
      · exact .of_forall (fun _ _ _ h => absurd (List.append_eq_nil_iff.mp h).1 hlog)
          (fun _ _ _ => trivial) trivial

/-- **Soundness of the parsers of statements**, at every budget. -/
theorem stmtSound (fuel : Nat) : StmtSound fuel := by
  induction fuel with
  | zero => exact ⟨fun _ => trivial, fun _ => trivial, fun _ => trivial⟩
  | succ fuel ih => exact ⟨declaration_sound ih, statement_sound ih, block_sound ih⟩

/-- **Soundness of programs.** Declarations on the way to which nothing was recorded are
derived from the tokens up to the end token. -/
theorem declarations_sound (fuel : Nat) {ts : List Token} (h : ∀ t ∈ ts, t.Spelled) :
    Recovering.Meets (declarations fuel ts)
      (fun ss rest log => log = [] → (current rest).kind = .eof ∧
        Reads (.declarations ss) ts rest ∧ Stmt.elsesNearest ss = true)
      (fun _ _ _ => True) True := by
  induction fuel generalizing ts with
  | zero => trivial
  | succ fuel ih =>
      rw [meets_declarations]
      split
      · next hk =>
        intro _
        exact ⟨hk, ⟨[], rfl, .noDeclaration⟩, rfl⟩
      · refine ((stmtSound fuel).declaration h).mono ?_ (fun _ _ _ h => h) (fun h => h)
        intro first rest log hfirst
        by_cases hlog : log = []
        · obtain ⟨⟨read, rfl, hread⟩, hnearest⟩ := hfirst hlog
          refine (ih (spelled_of_append read h)).mono ?_ (fun _ _ _ _ => trivial) (fun h => h)
          intro others rest' log' hothers hlog'
          obtain ⟨hend, ⟨more, rfl, hmore⟩, hmoreNearest⟩ :=
            hothers (List.append_eq_nil_iff.mp hlog').2
          refine ⟨hend, ⟨read ++ more, by simp, .nextDeclaration hread hmore⟩, ?_⟩
          simp only [Stmt.elsesNearest, hnearest, hmoreNearest, Bool.and_self]
        · exact .of_forall (fun _ _ _ h => absurd (List.append_eq_nil_iff.mp h).1 hlog)
            (fun _ _ _ => trivial) trivial

end Badger.Grammar
