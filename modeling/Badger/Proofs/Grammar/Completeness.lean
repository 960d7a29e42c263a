import Badger.Proofs.Grammar.Basic
import Badger.Proofs.Parsing.Contract

/-!
# Completeness of parsing

What the grammar derives, the parsers read: from the tokens of a derivation, followed by
tokens that cannot be read into the phrase, each parser makes the tree of the derivation and
leaves what follows. For statements the tree must be the one in which every `else` belongs to
the nearest conditional, since that is the only one the parsers make.

## Main definitions

* `Phrase.more`: the kinds of tokens that could be read into a phrase that ends before them
* `Phrase.Parses`, `Follows`: what the parser of a phrase does on the tokens of a derivation

## Main statements

* `Derives.follows`: every derivation is followed by the parsers, one case for each alternative
  of the grammar
* `Derives.declarations_yields`: whole programs

## Design notes

The budget is left open: within any budget the result is the tree of the derivation, or the
budget runs out. That it does not run out is a matter of `Badger.Proofs.Parsing.Progress`.
-/

namespace Badger.Grammar

open Badger.Parser

/-! ## What follows a phrase -/

/-- The kinds of the operators of some tiers. -/
def operatorKinds (levels : List Tier) : List TokenKind := (levels.map Tier.kinds).flatten

/-- **What could be read into a phrase** by its parser if it followed the phrase. -/
def Phrase.more : Phrase → List TokenKind
  | .primary _ => []
  | .calls _ _ | .call _ | .unary _ => [.lparen]
  | .operators levels _ => .lparen :: operatorKinds levels
  | .operatorsAfter tier tighter _ _ => .lparen :: operatorKinds (tier :: tighter)
  | .expression _ => .assign :: .lparen :: operatorKinds tiers
  | .expressions _ => .comma :: .assign :: .lparen :: operatorKinds tiers
  | .names _ => [.comma]
  | .statement s | .declaration s => if s.endsOpen then [.elseWord] else []
  | .arguments _ | .parameters _ | .declarations _ => []

theorem current_append_mem {kinds : List TokenKind} {ts : List Token}
    (h : StartsWith kinds ts) (rest : List Token) : (current (ts ++ rest)).kind ∈ kinds := by
  obtain ⟨t, us, rfl, ht⟩ := h
  exact ht

/-- The token after a repetition is the one that follows it, or one that continues it. -/
theorem Derives.current_append {p : Phrase} {ts : List Token} (h : Derives p ts)
    (rest : List Token) :
    (ts = [] ∧ current (ts ++ rest) = current rest) ∨ (current (ts ++ rest)).kind ∈ p.first := by
  rcases h.empty_or_startsWith with ⟨rfl, -⟩ | hstarts
  · exact .inl ⟨rfl, rfl⟩
  · exact .inr (current_append_mem hstarts rest)

/-- No operator belongs to two tiers, and none opens an argument list. -/
theorem tier_disjoint {tier : Tier} {tighter : List Tier} (h : tier :: tighter <:+ tiers)
    {kind : TokenKind} (hk : kind ∈ tier.kinds) : kind ∉ .lparen :: operatorKinds tighter := by
  have hall : ∀ levels ∈ [tiers, tiers.drop 1, tiers.drop 2, tiers.drop 3, tiers.drop 4],
      ∀ kind ∈ (levels.headD []).kinds,
        kind ∉ TokenKind.lparen :: operatorKinds (levels.drop 1) := by decide
  have hmem : tier :: tighter ∈
      [tiers, tiers.drop 1, tiers.drop 2, tiers.drop 3, tiers.drop 4] := by
    simpa [tiers, List.suffix_cons_iff] using h
  exact hall _ hmem kind hk

/-- What follows an operand cannot be read into it: it is an operator of the tier around the
operand, or what follows the whole. -/
theorem Derives.current_notMem {tier : Tier} {tighter : List Tier} {left e : Expr}
    {us rest : List Token} (h : Derives (.operatorsAfter tier tighter left e) us)
    (hl : tier :: tighter <:+ tiers)
    (hrest : (current rest).kind ∉ .lparen :: operatorKinds (tier :: tighter)) :
    (current (us ++ rest)).kind ∉ .lparen :: operatorKinds tighter := by
  rcases h.current_append rest with ⟨-, hcurrent⟩ | hcurrent
  · rw [hcurrent]
    simp only [operatorKinds, List.map_cons, List.flatten_cons, List.mem_cons, List.mem_append,
      not_or] at hrest ⊢
    exact ⟨hrest.1, hrest.2.2⟩
  · exact tier_disjoint hl hcurrent

/-! ## What parsers make of derivations -/

/-- **What the parser of a phrase does** on the tokens of a derivation and `rest` after them:
within any budget it makes the tree of the phrase and leaves `rest`. -/
def Phrase.Parses (p : Phrase) (ts rest : List Token) (fuel : Nat) : Prop :=
  match p with
  | .primary e => (Parser.primary fuel (ts ++ rest)).Yields e rest
  | .calls callee e => (Parser.calls fuel callee (ts ++ rest)).Yields e rest
  | .call e => (Parser.primary fuel (ts ++ rest)).Meets
      (fun callee us => (Parser.calls fuel callee us).Yields e rest) (fun _ _ => False) True
  | .unary e => (Parser.unary fuel (ts ++ rest)).Yields e rest
  | .operators levels e => levels <:+ tiers →
      (Parser.operators fuel (levels.map Tier.kinds) (ts ++ rest)).Yields e rest
  | .operatorsAfter tier tighter left e => tier :: tighter <:+ tiers →
      (Parser.operatorsAfter fuel tier.kinds (tighter.map Tier.kinds) left
        (ts ++ rest)).Yields e rest
  | .expression e => (Parser.expr fuel (ts ++ rest)).Yields e rest
  | .expressions es => (Parser.arguments fuel (ts ++ rest)).Yields es rest
  | .arguments es => (current rest).kind = .rparen →
      ((if (current (ts ++ rest)).kind = .rparen then pure [] else Parser.arguments fuel)
        (ts ++ rest)).Yields es rest
  | .names ns => (Recovering.parameters fuel (ts ++ rest)).Yields ns rest
  | .parameters ns => (current rest).kind = .rparen →
      ((if (current (ts ++ rest)).kind = .rparen then pure [] else Recovering.parameters fuel)
        (ts ++ rest)).Yields ns rest
  | .statement s => s.elseNearest = true →
      Recovering.Yields (Recovering.statement fuel (ts ++ rest)) s rest
  | .declaration s => s.elseNearest = true →
      Recovering.Yields (Recovering.declaration fuel (ts ++ rest)) s rest
  | .declarations ss => Stmt.elsesNearest ss = true →
      ((current rest).kind = .rbrace →
        Recovering.Yields (Recovering.block fuel (ts ++ rest)) ss (advance rest)) ∧
      ((current rest).kind = .eof →
        Recovering.Yields (Recovering.declarations fuel (ts ++ rest)) ss rest)

/-- What the parser of a phrase does on the tokens of a derivation, whatever follows that
could not be read into the phrase. -/
def Follows (p : Phrase) (ts : List Token) : Prop :=
  ∀ (fuel : Nat) (rest : List Token), (current rest).kind ∉ p.more → p.Parses ts rest fuel

/-! ## Expressions -/

private theorem follows_leaf {t : Token} {e : Expr} (h : ∀ fuel rest,
    (Parser.primary (fuel + 1) (t :: rest)).Yields e rest) : Follows (.primary e) [t] := by
  rintro (_ | fuel) rest -
  · trivial
  · exact h fuel rest

private theorem follows_symbol {t name : Token} (ht : t.kind = .at)
    (hname : name.kind = .ident) :
    Follows (.primary (.symbol t.offset name.lexeme)) [t, name] := by
  rintro (_ | fuel) rest -
  · trivial
  · show (Parser.primary (fuel + 1) (t :: name :: rest)).Yields _ rest
    rw [Parsed.Yields, meets_primary, current_cons, ht, advance_cons (by simp [ht]),
      current_cons, advance_cons (by simp [hname])]
    exact (if_pos hname).mpr ⟨rfl, rfl⟩

private theorem follows_group {opening closing : Token} {e : Expr} {ts : List Token}
    (ho : opening.kind = .lparen) (hc : closing.kind = .rparen)
    (ih : Follows (.expression e) ts) :
    Follows (.primary (.group opening.offset e)) (opening :: ts ++ [closing]) := by
  rintro (_ | fuel) rest -
  · trivial
  · show (Parser.primary (fuel + 1) (opening :: ts ++ [closing] ++ rest)).Yields _ rest
    have hts : opening :: ts ++ [closing] ++ rest = opening :: (ts ++ closing :: rest) := by simp
    have hmore : closing.kind ∉ (Phrase.expression e).more := by
      rw [hc]
      exact (by decide : TokenKind.rparen ∉ .assign :: .lparen :: operatorKinds tiers)
    rw [hts, Parsed.Yields, meets_primary, current_cons, ho, advance_cons (by simp [ho])]
    refine Parsed.Yields.meets (ih fuel (closing :: rest) hmore) ?_
    rw [current_cons, if_pos hc, advance_cons (by simp [hc])]
    exact ⟨rfl, rfl⟩

private theorem follows_noCall {callee : Expr} : Follows (.calls callee callee) [] := by
  rintro (_ | fuel) rest hrest
  · trivial
  · show (Parser.calls (fuel + 1) callee rest).Yields callee rest
    rw [Parsed.Yields, meets_calls, if_neg (by simpa [Phrase.more] using hrest)]
    exact ⟨rfl, rfl⟩

private theorem follows_oneCall {opening closing : Token} {callee e : Expr}
    {args : List Expr} {ts us : List Token} (ho : opening.kind = .lparen)
    (hc : closing.kind = .rparen) (ihargs : Follows (.arguments args) ts)
    (ihmore : Follows (.calls (.call opening.offset callee args) e) us) :
    Follows (.calls callee e) (opening :: ts ++ closing :: us) := by
  rintro (_ | fuel) rest hrest
  · trivial
  · show (Parser.calls (fuel + 1) callee (opening :: ts ++ closing :: us ++ rest)).Yields e rest
    have hts : opening :: ts ++ closing :: us ++ rest
        = opening :: (ts ++ closing :: (us ++ rest)) := by simp
    rw [hts, Parsed.Yields, meets_calls, current_cons, if_pos ho, advance_cons (by simp [ho])]
    refine Parsed.Yields.meets (ihargs fuel (closing :: (us ++ rest)) (by simp [Phrase.more]) hc)
      ?_
    rw [current_cons, if_pos hc, advance_cons (by simp [hc])]
    exact ihmore fuel rest hrest

private theorem follows_call {callee e : Expr} {ts us : List Token}
    (ihcallee : Follows (.primary callee) ts) (ihcalls : Follows (.calls callee e) us) :
    Follows (.call e) (ts ++ us) := by
  intro fuel rest hrest
  show (Parser.primary fuel (ts ++ us ++ rest)).Meets
    (fun callee us => (Parser.calls fuel callee us).Yields e rest) (fun _ _ => False) True
  rw [List.append_assoc]
  exact Parsed.Yields.meets (ihcallee fuel (us ++ rest) (by simp [Phrase.more]))
    (ihcalls fuel rest hrest)

private theorem follows_unaryOp {op : Token} {o : UnaryOp} {e : Expr} {ts : List Token}
    (hspelled : op.Spelled) (hop : (op.kind, o) ∈ unaryOps) (ih : Follows (.unary e) ts) :
    Follows (.unary (.unary op.offset o e)) (op :: ts) := by
  rintro (_ | fuel) rest hrest
  · trivial
  · show (Parser.unary (fuel + 1) (op :: (ts ++ rest))).Yields _ rest
    have hkind : op.kind = .bang ∨ op.kind = .minus := by
      have hall : ∀ p ∈ unaryOps, p.1 = .bang ∨ p.1 = .minus := by decide
      exact hall _ hop
    have hne : op.kind ≠ .eof := by rcases hkind with h | h <;> simp [h]
    rw [Parsed.Yields, meets_unary, current_cons, if_pos hkind, advance_cons hne,
      unaryOp_eq hspelled hop]
    exact Parsed.Yields.meets (ih fuel rest hrest) ⟨rfl, rfl⟩

private theorem follows_unaryCall {e : Expr} {ts : List Token} (h : Derives (.call e) ts)
    (ih : Follows (.call e) ts) : Follows (.unary e) ts := by
  rintro (_ | fuel) rest hrest
  · trivial
  · show (Parser.unary (fuel + 1) (ts ++ rest)).Yields e rest
    have hfirst := current_append_mem (h.startsWith rfl) rest
    have hkind : ¬((current (ts ++ rest)).kind = .bang ∨ (current (ts ++ rest)).kind = .minus) := by
      have hall : ∀ kind ∈ primaryFirst, ¬(kind = .bang ∨ kind = .minus) := by decide
      exact hall _ hfirst
    rw [Parsed.Yields, meets_unary, if_neg hkind]
    exact ih fuel rest hrest

private theorem follows_tightest {e : Expr} {ts : List Token} (ih : Follows (.unary e) ts) :
    Follows (.operators [] e) ts := by
  rintro (_ | fuel) rest hrest -
  · trivial
  · show (Parser.operators (fuel + 1) [] (ts ++ rest)).Yields e rest
    rw [Parsed.Yields, meets_operators_nil]
    exact ih fuel rest hrest

private theorem follows_tier {tier : Tier} {tighter : List Tier} {left e : Expr}
    {ts us : List Token} (hmore : Derives (.operatorsAfter tier tighter left e) us)
    (ihleft : Follows (.operators tighter left) ts)
    (ihmore : Follows (.operatorsAfter tier tighter left e) us) :
    Follows (.operators (tier :: tighter) e) (ts ++ us) := by
  rintro (_ | fuel) rest hrest hl
  · trivial
  · show (Parser.operators (fuel + 1) (tier.kinds :: tighter.map Tier.kinds)
      (ts ++ us ++ rest)).Yields e rest
    rw [Parsed.Yields, meets_operators_cons, List.append_assoc]
    exact Parsed.Yields.meets
      (ihleft fuel (us ++ rest) (hmore.current_notMem hl hrest)
        ((List.suffix_cons tier tighter).trans hl))
      (ihmore fuel rest hrest hl)

private theorem follows_noOperator {tier : Tier} {tighter : List Tier} {left : Expr} :
    Follows (.operatorsAfter tier tighter left left) [] := by
  rintro (_ | fuel) rest hrest -
  · trivial
  · show (Parser.operatorsAfter (fuel + 1) tier.kinds (tighter.map Tier.kinds) left
      rest).Yields left rest
    have hnot : (current rest).kind ∉ tier.kinds := by
      simp only [Phrase.more, operatorKinds, List.map_cons, List.flatten_cons, List.mem_cons,
        List.mem_append, not_or] at hrest
      exact hrest.2.1
    rw [Parsed.Yields, meets_operatorsAfter, if_neg hnot]
    exact ⟨rfl, rfl⟩

private theorem follows_oneOperator {tier : Tier} {tighter : List Tier} {op : Token}
    {o : BinaryOp} {left right e : Expr} {ts us : List Token} (hspelled : op.Spelled)
    (hop : (op.kind, o) ∈ tier)
    (hmore : Derives (.operatorsAfter tier tighter (.binary op.offset o left right) e) us)
    (ihright : Follows (.operators tighter right) ts)
    (ihmore : Follows (.operatorsAfter tier tighter (.binary op.offset o left right) e) us) :
    Follows (.operatorsAfter tier tighter left e) (op :: ts ++ us) := by
  rintro (_ | fuel) rest hrest hl
  · trivial
  · show (Parser.operatorsAfter (fuel + 1) tier.kinds (tighter.map Tier.kinds) left
      (op :: ts ++ us ++ rest)).Yields e rest
    have hts : op :: ts ++ us ++ rest = op :: (ts ++ (us ++ rest)) := by simp
    have htier : tier ∈ tiers := hl.subset List.mem_cons_self
    have hkind : op.kind ∈ tier.kinds := List.mem_map.mpr ⟨_, hop, rfl⟩
    have hne : op.kind ≠ .eof := by
      have hall : ∀ tier ∈ tiers, ∀ p ∈ tier, p.1 ≠ TokenKind.eof := by decide
      exact hall tier htier _ hop
    rw [hts, Parsed.Yields, meets_operatorsAfter, current_cons, if_pos hkind, advance_cons hne,
      binaryOp_eq hspelled htier hop]
    exact Parsed.Yields.meets
      (ihright fuel (us ++ rest) (hmore.current_notMem hl hrest)
        ((List.suffix_cons tier tighter).trans hl))
      (ihmore fuel rest hrest hl)

private theorem follows_ident {name : Token} (hname : name.kind = .ident) :
    Follows (.primary (.ident name.offset name.lexeme)) [name] := by
  refine follows_leaf fun fuel rest => ?_
  rw [Parsed.Yields, meets_primary, current_cons, hname, advance_cons (by simp [hname])]
  exact ⟨rfl, rfl⟩

/-- A name in front of `=` is read as operators that consist of the name alone. -/
private theorem follows_target {name : Token} (hname : name.kind = .ident)
    (levels : List Tier) :
    Follows (.operators levels (.ident name.offset name.lexeme)) [name] := by
  induction levels with
  | nil =>
      exact follows_tightest (follows_unaryCall (.call (.ident hname) .noCall)
        (follows_call (follows_ident hname) follows_noCall))
  | cons tier tighter ih => exact follows_tier .noOperator ih follows_noOperator

private theorem follows_assign {name equals : Token} {value : Expr} {ts : List Token}
    (hname : name.kind = .ident) (heq : equals.kind = .assign)
    (ihvalue : Follows (.expression value) ts) :
    Follows (.expression (.assign name.offset name.lexeme value)) (name :: equals :: ts) := by
  rintro (_ | fuel) rest hrest
  · trivial
  · show (Parser.expr (fuel + 1) (name :: equals :: ts ++ rest)).Yields _ rest
    have hnext : equals.kind ∉ (Phrase.operators tiers (.ident name.offset name.lexeme)).more := by
      rw [heq]
      exact (by decide : TokenKind.assign ∉ .lparen :: operatorKinds tiers)
    rw [Parsed.Yields, meets_expr]
    refine Parsed.Yields.meets
      (follows_target hname tiers fuel (equals :: (ts ++ rest)) hnext List.suffix_rfl) ?_
    rw [current_cons, if_pos heq, advance_cons (by simp [heq])]
    exact Parsed.Yields.meets (ihvalue fuel rest hrest) ⟨rfl, rfl⟩

private theorem follows_operators {e : Expr} {ts : List Token}
    (ih : Follows (.operators tiers e) ts) : Follows (.expression e) ts := by
  rintro (_ | fuel) rest hrest
  · trivial
  · show (Parser.expr (fuel + 1) (ts ++ rest)).Yields e rest
    obtain ⟨hassign, hops⟩ := not_or.mp (mt List.mem_cons.mpr hrest)
    rw [Parsed.Yields, meets_expr]
    refine Parsed.Yields.meets (ih fuel rest hops List.suffix_rfl) ?_
    rw [if_neg hassign]
    exact ⟨rfl, rfl⟩

private theorem follows_lastExpression {e : Expr} {ts : List Token}
    (ih : Follows (.expression e) ts) : Follows (.expressions [e]) ts := by
  rintro (_ | fuel) rest hrest
  · trivial
  · show (Parser.arguments (fuel + 1) (ts ++ rest)).Yields [e] rest
    obtain ⟨hcomma, hexpr⟩ := not_or.mp (mt List.mem_cons.mpr hrest)
    rw [Parsed.Yields, meets_arguments]
    refine Parsed.Yields.meets (ih fuel rest hexpr) ?_
    rw [if_neg hcomma]
    exact ⟨rfl, rfl⟩

private theorem follows_nextExpression {e : Expr} {es : List Expr} {comma : Token}
    {ts us : List Token} (hcomma : comma.kind = .comma) (ihe : Follows (.expression e) ts)
    (ihes : Follows (.expressions es) us) :
    Follows (.expressions (e :: es)) (ts ++ comma :: us) := by
  rintro (_ | fuel) rest hrest
  · trivial
  · show (Parser.arguments (fuel + 1) (ts ++ comma :: us ++ rest)).Yields (e :: es) rest
    have hts : ts ++ comma :: us ++ rest = ts ++ comma :: (us ++ rest) := by simp
    have hnext : comma.kind ∉ (Phrase.expression e).more := by
      rw [hcomma]
      exact (by decide : TokenKind.comma ∉ .assign :: .lparen :: operatorKinds tiers)
    rw [hts, Parsed.Yields, meets_arguments]
    refine Parsed.Yields.meets (ihe fuel (comma :: (us ++ rest)) hnext) ?_
    rw [current_cons, if_pos hcomma, advance_cons (by simp [hcomma])]
    exact Parsed.Yields.meets (ihes fuel rest hrest) ⟨rfl, rfl⟩

private theorem follows_noArguments : Follows (.arguments []) [] := by
  intro fuel rest _ hk
  show ((if (current rest).kind = .rparen then pure [] else Parser.arguments fuel) rest).Yields
    [] rest
  rw [if_pos hk]
  exact ⟨rfl, rfl⟩

private theorem follows_someArguments {es : List Expr} {ts : List Token}
    (h : Derives (.expressions es) ts) (ih : Follows (.expressions es) ts) :
    Follows (.arguments es) ts := by
  intro fuel rest _ hk
  show ((if (current (ts ++ rest)).kind = .rparen then pure [] else Parser.arguments fuel)
    (ts ++ rest)).Yields es rest
  have hfirst : (current (ts ++ rest)).kind ≠ .rparen := by
    have hall : ∀ kind ∈ expressionFirst, kind ≠ .rparen := by decide
    exact hall _ (current_append_mem (h.startsWith rfl) rest)
  have hnext : (current rest).kind ∉ (Phrase.expressions es).more := by
    rw [hk]
    exact (by decide : TokenKind.rparen ∉ .comma :: .assign :: .lparen :: operatorKinds tiers)
  rw [if_neg hfirst]
  exact ih fuel rest hnext

/-! ## Parameters -/

private theorem follows_lastName {n : Token} (hn : n.kind = .ident) :
    Follows (.names [n.lexeme]) [n] := by
  rintro (_ | fuel) rest hrest
  · trivial
  · show (Recovering.parameters (fuel + 1) (n :: rest)).Yields [n.lexeme] rest
    rw [Parsed.Yields, Recovering.meets_parameters, current_cons, if_pos hn,
      advance_cons (by simp [hn]), if_neg (by simpa [Phrase.more] using hrest)]
    exact ⟨rfl, rfl⟩

private theorem follows_nextName {n comma : Token} {ns : List Text} {ts : List Token}
    (hn : n.kind = .ident) (hcomma : comma.kind = .comma) (ih : Follows (.names ns) ts) :
    Follows (.names (n.lexeme :: ns)) (n :: comma :: ts) := by
  rintro (_ | fuel) rest hrest
  · trivial
  · show (Recovering.parameters (fuel + 1) (n :: comma :: (ts ++ rest))).Yields _ rest
    rw [Parsed.Yields, Recovering.meets_parameters, current_cons, if_pos hn,
      advance_cons (by simp [hn]), current_cons, if_pos hcomma, advance_cons (by simp [hcomma])]
    exact Parsed.Yields.meets (ih fuel rest hrest) ⟨rfl, rfl⟩

private theorem follows_noParameters : Follows (.parameters []) [] := by
  intro fuel rest _ hk
  show ((if (current rest).kind = .rparen then pure [] else Recovering.parameters fuel)
    rest).Yields [] rest
  rw [if_pos hk]
  exact ⟨rfl, rfl⟩

private theorem follows_someParameters {ns : List Text} {ts : List Token}
    (h : Derives (.names ns) ts) (ih : Follows (.names ns) ts) : Follows (.parameters ns) ts := by
  intro fuel rest _ hk
  show ((if (current (ts ++ rest)).kind = .rparen then pure [] else Recovering.parameters fuel)
    (ts ++ rest)).Yields ns rest
  have hfirst : (current (ts ++ rest)).kind = .ident :=
    List.mem_singleton.mp (current_append_mem (h.startsWith rfl) rest)
  rw [if_neg (by simp [hfirst])]
  exact ih fuel rest (by simp [Phrase.more, hk])

/-! ## Statements -/

open Recovering

/-- The keyword and the condition of a conditional or a loop. -/
private theorem condition_yields {word opening closing : Token} {cond : Expr}
    {ts rest : List Token} (what : Expectation) (fuel : Nat) (hword : word.kind ≠ .eof)
    (ho : opening.kind = .lparen) (hc : closing.kind = .rparen)
    (ih : Follows (.expression cond) ts) :
    (condition fuel what (word :: opening :: (ts ++ closing :: rest))).Yields (word, cond)
      rest := by
  have hnext : closing.kind ∉ (Phrase.expression cond).more := by
    rw [hc]
    exact (by decide : TokenKind.rparen ∉ .assign :: .lparen :: operatorKinds tiers)
  rw [Parsed.Yields, meets_condition, advance_cons hword, current_cons, if_pos ho,
    advance_cons (by simp [ho]), current_cons]
  refine Parsed.Yields.meets (ih fuel (closing :: rest) hnext) ?_
  rw [current_cons, if_pos hc, advance_cons (by simp [hc])]
  exact ⟨rfl, rfl⟩

/-- A semicolon ends every expression. -/
private theorem semi_notMem {semi : Token} {e : Expr} (hsemi : semi.kind = .semi) :
    semi.kind ∉ (Phrase.expression e).more := by
  rw [hsemi]
  exact (by decide : TokenKind.semi ∉ .assign :: .lparen :: operatorKinds tiers)

private theorem follows_ret {word semi : Token} {value : Expr} {ts : List Token}
    (hword : word.kind = .returnWord) (hsemi : semi.kind = .semi)
    (ih : Follows (.expression value) ts) :
    Follows (.statement (.ret word.offset value)) (word :: ts ++ [semi]) := by
  rintro (_ | fuel) rest - -
  · trivial
  · show Recovering.Yields (statement (fuel + 1) (word :: ts ++ [semi] ++ rest)) _ rest
    have hts : word :: ts ++ [semi] ++ rest = word :: (ts ++ semi :: rest) := by simp
    rw [hts, Recovering.Yields, meets_statement, current_cons, hword]
    show (returnStatement fuel (word :: (ts ++ semi :: rest))).Meets _ _ True
    rw [meets_returnStatement, advance_cons (by simp [hword]), current_cons]
    refine Parsed.Yields.meets (ih fuel (semi :: rest) (semi_notMem hsemi)) ?_
    rw [current_cons, if_pos hsemi, advance_cons (by simp [hsemi])]
    exact ⟨rfl, rfl, rfl⟩

private theorem follows_block {opening closing : Token} {body : List Stmt} {ts : List Token}
    (ho : opening.kind = .lbrace) (hc : closing.kind = .rbrace)
    (ih : Follows (.declarations body) ts) :
    Follows (.statement (.block opening.offset body)) (opening :: ts ++ [closing]) := by
  rintro (_ | fuel) rest - hnearest
  · trivial
  · show Recovering.Yields (statement (fuel + 1) (opening :: ts ++ [closing] ++ rest)) _ rest
    have hts : opening :: ts ++ [closing] ++ rest = opening :: (ts ++ closing :: rest) := by simp
    rw [hts, Recovering.Yields, meets_statement, current_cons, ho, advance_cons (by simp [ho])]
    refine Recovering.Yields.meets
      ((ih fuel (closing :: rest) (by simp [Phrase.more]) hnearest).1 hc) ?_
    exact ⟨rfl, advance_cons (by simp [hc]) rest, rfl⟩

private theorem follows_ifThen {word opening closing : Token} {cond : Expr} {yes : Stmt}
    {ts us : List Token} (hword : word.kind = .ifWord) (ho : opening.kind = .lparen)
    (hc : closing.kind = .rparen) (ihcond : Follows (.expression cond) ts)
    (ihyes : Follows (.statement yes) us) :
    Follows (.statement (.ifThen word.offset cond yes))
      (word :: opening :: ts ++ closing :: us) := by
  rintro (_ | fuel) rest hrest hnearest
  · trivial
  · show Recovering.Yields
      (statement (fuel + 1) (word :: opening :: ts ++ closing :: us ++ rest)) _ rest
    have hts : word :: opening :: ts ++ closing :: us ++ rest
        = word :: opening :: (ts ++ closing :: (us ++ rest)) := by simp
    have helse : (current rest).kind ≠ .elseWord := by
      simpa [Phrase.more, Stmt.endsOpen] using hrest
    have hnext : (current rest).kind ∉ (Phrase.statement yes).more := by
      simp only [Phrase.more]
      split <;> simp [helse]
    rw [hts, Recovering.Yields, meets_statement, current_cons, hword]
    refine (condition_yields _ fuel (by simp [hword]) ho hc ihcond).meets ?_
    refine Recovering.Yields.meets (ihyes fuel rest hnext hnearest) ?_
    rw [if_neg helse]
    exact ⟨rfl, rfl, rfl⟩

private theorem follows_ifElse {word opening closing other : Token} {cond : Expr}
    {yes no : Stmt} {ts us vs : List Token} (hword : word.kind = .ifWord)
    (ho : opening.kind = .lparen) (hc : closing.kind = .rparen) (hother : other.kind = .elseWord)
    (ihcond : Follows (.expression cond) ts) (ihyes : Follows (.statement yes) us)
    (ihno : Follows (.statement no) vs) :
    Follows (.statement (.ifElse word.offset cond yes no))
      (word :: opening :: ts ++ closing :: us ++ other :: vs) := by
  rintro (_ | fuel) rest hrest hnearest
  · trivial
  · show Recovering.Yields
      (statement (fuel + 1) (word :: opening :: ts ++ closing :: us ++ other :: vs ++ rest)) _ rest
    have hts : word :: opening :: ts ++ closing :: us ++ other :: vs ++ rest
        = word :: opening :: (ts ++ closing :: (us ++ other :: (vs ++ rest))) := by simp
    simp only [Stmt.elseNearest, Bool.and_eq_true, Bool.not_eq_true'] at hnearest
    obtain ⟨⟨hclosed, hyes⟩, hno⟩ := hnearest
    have hnext : other.kind ∉ (Phrase.statement yes).more := by simp [Phrase.more, hclosed]
    rw [hts, Recovering.Yields, meets_statement, current_cons, hword]
    refine (condition_yields _ fuel (by simp [hword]) ho hc ihcond).meets ?_
    refine Recovering.Yields.meets (ihyes fuel (other :: (vs ++ rest)) hnext hyes) ?_
    rw [current_cons, if_pos hother, advance_cons (by simp [hother])]
    exact Recovering.Yields.meets (ihno fuel rest hrest hno) ⟨rfl, rfl, rfl⟩

private theorem follows_loop {word opening closing : Token} {cond : Expr} {body : Stmt}
    {ts us : List Token} (hword : word.kind = .whileWord) (ho : opening.kind = .lparen)
    (hc : closing.kind = .rparen) (ihcond : Follows (.expression cond) ts)
    (ihbody : Follows (.statement body) us) :
    Follows (.statement (.loop word.offset cond body))
      (word :: opening :: ts ++ closing :: us) := by
  rintro (_ | fuel) rest hrest hnearest
  · trivial
  · show Recovering.Yields
      (statement (fuel + 1) (word :: opening :: ts ++ closing :: us ++ rest)) _ rest
    have hts : word :: opening :: ts ++ closing :: us ++ rest
        = word :: opening :: (ts ++ closing :: (us ++ rest)) := by simp
    rw [hts, Recovering.Yields, meets_statement, current_cons, hword]
    refine (condition_yields _ fuel (by simp [hword]) ho hc ihcond).meets ?_
    exact Recovering.Yields.meets (ihbody fuel rest hrest hnearest) ⟨rfl, rfl, rfl⟩

private theorem follows_exprStatement {first semi : Token} {e : Expr} {ts : List Token}
    (h : Derives (.expression e) (first :: ts)) (hsemi : semi.kind = .semi)
    (ih : Follows (.expression e) (first :: ts)) :
    Follows (.statement (.expr first.offset e)) (first :: ts ++ [semi]) := by
  rintro (_ | fuel) rest - -
  · trivial
  · show Recovering.Yields (statement (fuel + 1) (first :: ts ++ [semi] ++ rest)) _ rest
    have hts : first :: ts ++ [semi] ++ rest = first :: (ts ++ semi :: rest) := by simp
    have hfirst : first.kind ∈ expressionFirst :=
      current_append_mem (h.startsWith rfl) rest
    have hexpr : (exprStatement fuel (first :: (ts ++ semi :: rest))).Yields
        (.expr first.offset e) rest := by
      rw [Parsed.Yields, meets_exprStatement, current_cons]
      refine Parsed.Yields.meets (ih fuel (semi :: rest) (semi_notMem hsemi)) ?_
      rw [current_cons, if_pos hsemi, advance_cons (by simp [hsemi])]
      exact ⟨rfl, rfl⟩
    rw [hts, Recovering.Yields, meets_statement, current_cons]
    -- none of the keywords of statements starts an expression
    split
    iterate 4
      · next hk => exact absurd (hk ▸ hfirst) (by decide)
    · exact hexpr.meets ⟨rfl, rfl, rfl⟩

/-! ## Declarations -/

private theorem follows_declare {word name equals semi : Token} {type : DeclaredType}
    {zero : Int → Expr} {init : Expr} {ts : List Token} (hspelled : word.Spelled)
    (hword : (word.kind, type, zero) ∈ typeWords) (hname : name.kind = .ident)
    (heq : equals.kind = .assign) (hsemi : semi.kind = .semi)
    (ih : Follows (.expression init) ts) :
    Follows (.declaration (.declare name.offset type name.lexeme init))
      (word :: name :: equals :: ts ++ [semi]) := by
  rintro (_ | fuel) rest - -
  · trivial
  · show Recovering.Yields
      (declaration (fuel + 1) (word :: name :: equals :: ts ++ [semi] ++ rest)) _ rest
    have hts : word :: name :: equals :: ts ++ [semi] ++ rest
        = word :: name :: equals :: (ts ++ semi :: rest) := by simp
    have htype := isType_of_typeWord hword
    have hne : word.kind ≠ .eof := fun h => absurd (h ▸ htype) (by decide)
    rw [hts, Recovering.Yields, meets_declaration, current_cons]
    dsimp only
    rw [if_pos htype, meets_variableDeclaration, advance_cons hne, current_cons, if_pos hname]
    dsimp only
    rw [advance_cons (by simp [hname]), current_cons, if_pos heq, advance_cons (by simp [heq]),
      current_cons, (typeWord_eq hspelled hword).1]
    refine Parsed.Yields.meets (ih fuel (semi :: rest) (semi_notMem hsemi)) ?_
    rw [current_cons, if_pos hsemi, advance_cons (by simp [hsemi])]
    exact ⟨rfl, rfl, rfl⟩

private theorem follows_declareZero {word name semi : Token} {type : DeclaredType}
    {zero : Int → Expr} (hspelled : word.Spelled) (hword : (word.kind, type, zero) ∈ typeWords)
    (hname : name.kind = .ident) (hsemi : semi.kind = .semi) :
    Follows (.declaration (.declare name.offset type name.lexeme (zero name.offset)))
      [word, name, semi] := by
  rintro (_ | fuel) rest - -
  · trivial
  · show Recovering.Yields (declaration (fuel + 1) (word :: name :: semi :: rest)) _ rest
    have htype := isType_of_typeWord hword
    have hne : word.kind ≠ .eof := fun h => absurd (h ▸ htype) (by decide)
    obtain ⟨hdeclared, hzero⟩ := typeWord_eq hspelled hword
    rw [Recovering.Yields, meets_declaration, current_cons]
    dsimp only
    rw [if_pos htype, meets_variableDeclaration, advance_cons hne, current_cons, if_pos hname]
    dsimp only
    rw [advance_cons (by simp [hname]), current_cons, if_neg (by simp [hsemi]), if_pos hsemi,
      advance_cons (by simp [hsemi]), current_cons, hdeclared, hzero]
    exact ⟨rfl, rfl, rfl⟩

private theorem follows_function {word name opening closing brace ending : Token}
    {params : List Text} {body : List Stmt} {ts us : List Token} (hword : word.kind = .fxn)
    (hname : name.kind = .ident) (ho : opening.kind = .lparen) (hc : closing.kind = .rparen)
    (hbrace : brace.kind = .lbrace) (hending : ending.kind = .rbrace)
    (ihparams : Follows (.parameters params) ts) (ihbody : Follows (.declarations body) us) :
    Follows (.declaration (.fxn name.offset name.lexeme params body))
      (word :: name :: opening :: ts ++ closing :: brace :: us ++ [ending]) := by
  rintro (_ | fuel) rest - hnearest
  · trivial
  · show Recovering.Yields (declaration (fuel + 1)
      (word :: name :: opening :: ts ++ closing :: brace :: us ++ [ending] ++ rest)) _ rest
    have hts : word :: name :: opening :: ts ++ closing :: brace :: us ++ [ending] ++ rest
        = word :: name :: opening :: (ts ++ closing :: brace :: (us ++ ending :: rest)) := by simp
    have hhead : (functionHead fuel
        (word :: name :: opening :: (ts ++ closing :: brace :: (us ++ ending :: rest)))).Yields
        (name, params) (us ++ ending :: rest) := by
      rw [Parsed.Yields, meets_functionHead, advance_cons (by simp [hword])]
      dsimp only
      rw [current_cons, if_pos hname, advance_cons (by simp [hname]), current_cons, if_pos ho,
        advance_cons (by simp [ho])]
      refine Parsed.Yields.meets (ihparams fuel (closing :: brace :: (us ++ ending :: rest))
        (by simp [Phrase.more]) hc) ?_
      rw [current_cons, if_pos hc, advance_cons (by simp [hc]), current_cons, if_pos hbrace,
        advance_cons (by simp [hbrace])]
      exact ⟨rfl, rfl⟩
    rw [hts, Recovering.Yields, meets_declaration, current_cons]
    dsimp only
    rw [if_neg (by simp [hword, TokenKind.isType]), if_pos hword]
    refine hhead.meets ?_
    refine Recovering.Yields.meets
      ((ihbody fuel (ending :: rest) (by simp [Phrase.more]) hnearest).1 hending) ?_
    exact ⟨rfl, advance_cons (by simp [hending]) rest, rfl⟩

private theorem follows_statement {s : Stmt} {ts : List Token} (h : Derives (.statement s) ts)
    (ih : Follows (.statement s) ts) : Follows (.declaration s) ts := by
  rintro (_ | fuel) rest hrest hnearest
  · trivial
  · show Recovering.Yields (declaration (fuel + 1) (ts ++ rest)) s rest
    have hfirst := current_append_mem (h.startsWith rfl) rest
    have hall : ∀ kind ∈ statementFirst, ¬kind.isType = true ∧ kind ≠ .fxn := by decide
    obtain ⟨htype, hfxn⟩ := hall _ hfirst
    rw [Recovering.Yields, meets_declaration]
    dsimp only
    rw [if_neg htype, if_neg hfxn]
    exact Recovering.Yields.meets (ih fuel rest hrest hnearest) ⟨rfl, rfl, rfl⟩

private theorem follows_noDeclaration : Follows (.declarations []) [] := by
  rintro (_ | fuel) rest - -
  · exact ⟨fun _ => trivial, fun _ => trivial⟩
  · refine ⟨fun hk => ?_, fun hk => ?_⟩
    · show Recovering.Yields (Recovering.block (fuel + 1) rest) [] (advance rest)
      rw [Recovering.Yields, meets_block, if_pos hk]
      exact ⟨rfl, rfl, rfl⟩
    · show Recovering.Yields (declarations (fuel + 1) rest) [] rest
      rw [Recovering.Yields, meets_declarations, if_pos hk]
      exact ⟨rfl, rfl, rfl⟩

private theorem follows_nextDeclaration {s : Stmt} {ss : List Stmt} {ts us : List Token}
    (hs : Derives (.declaration s) ts) (hss : Derives (.declarations ss) us)
    (ihs : Follows (.declaration s) ts) (ihss : Follows (.declarations ss) us) :
    Follows (.declarations (s :: ss)) (ts ++ us) := by
  rintro (_ | fuel) rest - hnearest
  · exact ⟨fun _ => trivial, fun _ => trivial⟩
  · simp only [Stmt.elsesNearest, Bool.and_eq_true] at hnearest
    obtain ⟨hnearest, hrestNearest⟩ := hnearest
    have hfirst := current_append_mem (hs.startsWith rfl) (us ++ rest)
    have hall : ∀ kind ∈ declarationFirst,
        kind ≠ .rbrace ∧ kind ≠ .eof ∧ kind ≠ .elseWord := by decide
    -- an `else` neither starts a declaration nor ends a list of them
    have hnext : ∀ kind, (current rest).kind = kind → kind ≠ .elseWord →
        (current (us ++ rest)).kind ∉ (Phrase.declaration s).more := by
      intro kind hk hkind
      have helse : (current (us ++ rest)).kind ≠ .elseWord := by
        rcases hss.current_append rest with ⟨-, h⟩ | h
        · rw [h, hk]
          exact hkind
        · exact (hall _ h).2.2
      simp only [Phrase.more]
      split <;> simp [helse]
    have hmore : (current rest).kind ∉ (Phrase.declarations ss).more := by simp [Phrase.more]
    refine ⟨fun hk => ?_, fun hk => ?_⟩
    · show Recovering.Yields (Recovering.block (fuel + 1) (ts ++ us ++ rest)) _ (advance rest)
      rw [List.append_assoc, Recovering.Yields, meets_block, if_neg (hall _ hfirst).1,
        if_neg (hall _ hfirst).2.1]
      refine Recovering.Yields.meets
        (ihs fuel (us ++ rest) (hnext _ hk (by decide)) hnearest) ?_
      refine Recovering.Yields.meets ((ihss fuel rest hmore hrestNearest).1 hk) ?_
      rw [hs.not_isMissing]
      exact ⟨rfl, rfl, rfl⟩
    · show Recovering.Yields (declarations (fuel + 1) (ts ++ us ++ rest)) _ rest
      rw [List.append_assoc, Recovering.Yields, meets_declarations, if_neg (hall _ hfirst).2.1]
      refine Recovering.Yields.meets
        (ihs fuel (us ++ rest) (hnext _ hk (by decide)) hnearest) ?_
      exact Recovering.Yields.meets ((ihss fuel rest hmore hrestNearest).2 hk) ⟨rfl, rfl, rfl⟩

/-! ## Derivations -/

/-- **Completeness.** The parsers follow every derivation whose tokens are spelled as their
kinds ask for. -/
theorem Derives.follows {p : Phrase} {ts : List Token} (h : Derives p ts)
    (hspelled : ∀ t ∈ ts, t.Spelled) : Follows p ts := by
  induction h with
  | falseWord ht | trueWord ht | number ht | string ht =>
      refine follows_leaf fun fuel rest => ?_
      rw [Parsed.Yields, meets_primary, current_cons, ht, advance_cons (by simp [ht])]
      exact ⟨rfl, rfl⟩
  | ident ht => exact follows_ident ht
  | symbol ht hname => exact follows_symbol ht hname
  | group ho _ hc ih => exact follows_group ho hc (ih fun t ht => hspelled t (by simp [ht]))
  | noCall => exact follows_noCall
  | oneCall ho _ hc _ ihargs ihmore =>
      exact follows_oneCall ho hc (ihargs fun t ht => hspelled t (by simp [ht]))
        (ihmore fun t ht => hspelled t (by simp [ht]))
  | call _ _ ihcallee ihcalls =>
      exact follows_call (ihcallee fun t ht => hspelled t (by simp [ht]))
        (ihcalls fun t ht => hspelled t (by simp [ht]))
  | unaryOp hop _ ih =>
      exact follows_unaryOp (hspelled _ List.mem_cons_self) hop
        (ih fun t ht => hspelled t (by simp [ht]))
  | unaryCall he ih => exact follows_unaryCall he (ih hspelled)
  | tightest _ ih => exact follows_tightest (ih hspelled)
  | tier _ hmore ihleft ihmore =>
      exact follows_tier hmore (ihleft fun t ht => hspelled t (by simp [ht]))
        (ihmore fun t ht => hspelled t (by simp [ht]))
  | noOperator => exact follows_noOperator
  | oneOperator hop _ hmore ihright ihmore =>
      exact follows_oneOperator (hspelled _ (by simp)) hop hmore
        (ihright fun t ht => hspelled t (by simp [ht]))
        (ihmore fun t ht => hspelled t (by simp [ht]))
  | assign hname heq _ ih =>
      exact follows_assign hname heq (ih fun t ht => hspelled t (by simp [ht]))
  | operators _ ih => exact follows_operators (ih hspelled)
  | lastExpression _ ih => exact follows_lastExpression (ih hspelled)
  | nextExpression _ hcomma _ ihe ihes =>
      exact follows_nextExpression hcomma (ihe fun t ht => hspelled t (by simp [ht]))
        (ihes fun t ht => hspelled t (by simp [ht]))
  | noArguments => exact follows_noArguments
  | someArguments hes ih => exact follows_someArguments hes (ih hspelled)
  | lastName hn => exact follows_lastName hn
  | nextName hn hcomma _ ih =>
      exact follows_nextName hn hcomma (ih fun t ht => hspelled t (by simp [ht]))
  | noParameters => exact follows_noParameters
  | someParameters hns ih => exact follows_someParameters hns (ih hspelled)
  | ret hword _ hsemi ih =>
      exact follows_ret hword hsemi (ih fun t ht => hspelled t (by simp [ht]))
  | block ho _ hc ih => exact follows_block ho hc (ih fun t ht => hspelled t (by simp [ht]))
  | ifThen hword ho _ hc _ ihcond ihyes =>
      exact follows_ifThen hword ho hc (ihcond fun t ht => hspelled t (by simp [ht]))
        (ihyes fun t ht => hspelled t (by simp [ht]))
  | ifElse hword ho _ hc _ hother _ ihcond ihyes ihno =>
      exact follows_ifElse hword ho hc hother (ihcond fun t ht => hspelled t (by simp [ht]))
        (ihyes fun t ht => hspelled t (by simp [ht]))
        (ihno fun t ht => hspelled t (by simp [ht]))
  | loop hword ho _ hc _ ihcond ihbody =>
      exact follows_loop hword ho hc (ihcond fun t ht => hspelled t (by simp [ht]))
        (ihbody fun t ht => hspelled t (by simp [ht]))
  | exprStatement he hsemi ih =>
      exact follows_exprStatement he hsemi
        (ih fun t ht => hspelled t (List.mem_append_left _ ht))
  | declare hword hname heq _ hsemi ih =>
      exact follows_declare (hspelled _ (by simp)) hword hname heq hsemi
        (ih fun t ht => hspelled t (by simp [ht]))
  | declareZero hword hname hsemi =>
      exact follows_declareZero (hspelled _ (by simp)) hword hname hsemi
  | function hword hname ho _ hc hbrace _ hending ihparams ihbody =>
      exact follows_function hword hname ho hc hbrace hending
        (ihparams fun t ht => hspelled t (by simp [ht]))
        (ihbody fun t ht => hspelled t (by simp [ht]))
  | statement hs ih => exact follows_statement hs (ih hspelled)
  | noDeclaration => exact follows_noDeclaration
  | nextDeclaration hs hss ihs ihss =>
      exact follows_nextDeclaration hs hss (ihs fun t ht => hspelled t (by simp [ht]))
        (ihss fun t ht => hspelled t (by simp [ht]))

/-- **Completeness of programs.** From the tokens of a derivation in which every `else` belongs
to the nearest conditional, and an end token, the program of the derivation is read. -/
theorem Derives.declarations_yields {ss : List Stmt} {ts rest : List Token}
    (h : Derives (.declarations ss) ts) (hspelled : ∀ t ∈ ts, t.Spelled)
    (hnearest : Stmt.elsesNearest ss = true) (hrest : (current rest).kind = .eof) (fuel : Nat) :
    Recovering.Yields (declarations fuel (ts ++ rest)) ss rest :=
  (h.follows hspelled fuel rest (by simp [Phrase.more]) hnearest).2 hrest

end Badger.Grammar
