import Badger.Tree.Parser

/-!
# The grammar

The grammar of the language as a relation between token lists and trees, written without
reference to any parser. It is as ambiguous as the grammar on paper: after nested
conditionals an `else` may be read with either of them. A predicate on trees picks the
reading in which every `else` belongs to the nearest conditional that can take it.

## Main definitions

* `Phrase`: a nonterminal together with the tree read for it
* `Derives`: which token lists a phrase derives, one constructor for each alternative
* `Stmt.endsOpen`, `Stmt.elseNearest`: where an `else` can be taken, and that it is taken
  by the nearest conditional
* `Expr.isWhole`, `Stmt.isWhole`: that no node of a tree is missing
* `Token.Spelled`: that a keyword or operator is written as one

## Design notes

Repetition on one level of operators, and repetition of argument lists after a callee, carry
the tree read so far, so that a derivation of `a - b - c` has one tree and it leans to the
left. Trees come with the offsets of the tokens they are read from; two derivations of one
token list that agree on every `else` therefore agree on the whole tree.
-/

namespace Badger

/-! ## Spellings -/

/-- The texts in which a keyword, an operator or a piece of punctuation can be written;
none for the kinds that have no fixed text. -/
def TokenKind.spellings (kind : TokenKind) : List Text :=
  (keywords.filter (·.2 = kind)).map Prod.fst ++
    (singles.filter (·.2 = kind)).map (fun s => [Text.byte s.1]) ++
    (doubles.filter (·.2 = kind)).map (fun d => [Text.byte d.1.1, Text.byte d.1.2])

theorem mem_of_lookup {α β : Type} [BEq α] [LawfulBEq α] {table : List (α × β)} {a : α} {b : β}
    (h : table.lookup a = some b) : (a, b) ∈ table := by
  obtain ⟨before, after, htable, -⟩ := List.lookup_eq_some_iff.mp h
  rw [htable]
  exact List.mem_append_right before List.mem_cons_self

/-- **A word is a keyword, or it is a name.** -/
theorem TokenKind.mem_keywords_or (word : Text) :
    (word, ofWord word) ∈ keywords ∨ ofWord word = .ident ∧ word ∉ keywords.map Prod.fst := by
  unfold ofWord
  cases hlookup : keywords.lookup word with
  | none =>
      refine .inr ⟨rfl, fun hmem => ?_⟩
      obtain ⟨w, hw, rfl⟩ := List.mem_map.mp hmem
      have hne := List.lookup_eq_none_iff.mp hlookup w hw
      simp at hne
  | some kind => exact .inl (mem_of_lookup hlookup)

/-- A token of a kind with fixed texts is written as one of them. -/
def Token.Spelled (t : Token) : Prop :=
  t.kind.spellings = [] ∨ t.lexeme ∈ t.kind.spellings

instance (t : Token) : Decidable t.Spelled :=
  inferInstanceAs (Decidable (_ ∨ _))

theorem Token.spelled_of_eof {t : Token} (h : t.kind = .eof) : t.Spelled :=
  .inl (by rw [h]; decide)

theorem Token.forall_spelled_append {body : List Token} {ending : Token}
    (hending : ending.kind = .eof) (hspelled : ∀ t ∈ body, t.Spelled) :
    ∀ t ∈ body ++ [ending], t.Spelled :=
  List.forall_mem_append.mpr ⟨hspelled, List.forall_mem_singleton.mpr (spelled_of_eof hending)⟩

/-! ## Shapes of trees -/

mutual

/-- Whether no node of an expression is missing. -/
def Expr.isWhole : Expr → Bool
  | .missing => false
  | .num _ _ | .str _ _ | .bool _ _ | .ident _ _ | .symbol _ _ => true
  | .unary _ _ operand => operand.isWhole
  | .binary _ _ left right => left.isWhole && right.isWhole
  | .group _ inner => inner.isWhole
  | .assign _ _ value => value.isWhole
  | .call _ callee args => callee.isWhole && Expr.areWhole args

/-- Whether no node of a list of expressions is missing. -/
def Expr.areWhole : List Expr → Bool
  | [] => true
  | e :: es => e.isWhole && Expr.areWhole es

end

mutual

/-- Whether no node of a statement is missing. -/
def Stmt.isWhole : Stmt → Bool
  | .missing => false
  | .expr _ e => e.isWhole
  | .ret _ value => value.isWhole
  | .block _ body => Stmt.areWhole body
  | .declare _ _ _ init => init.isWhole
  | .ifThen _ cond yes => cond.isWhole && yes.isWhole
  | .ifElse _ cond yes no => cond.isWhole && yes.isWhole && no.isWhole
  | .loop _ cond body => cond.isWhole && body.isWhole
  | .fxn _ _ _ body => Stmt.areWhole body

/-- Whether no node of a list of statements is missing. -/
def Stmt.areWhole : List Stmt → Bool
  | [] => true
  | s :: ss => s.isWhole && Stmt.areWhole ss

end

/-- Whether the text of a statement ends in a conditional that could still take an `else`. -/
def Stmt.endsOpen : Stmt → Bool
  | .ifThen _ _ _ => true
  | .ifElse _ _ _ no => no.endsOpen
  | .loop _ _ body => body.endsOpen
  | _ => false

mutual

/-- **Nearest `else`.** Whether every `else` of a statement belongs to the nearest conditional
that can take it: what stands before an `else` never ends in a conditional still open. -/
def Stmt.elseNearest : Stmt → Bool
  | .missing | .expr _ _ | .ret _ _ | .declare _ _ _ _ => true
  | .block _ body => Stmt.elsesNearest body
  | .ifThen _ _ yes => yes.elseNearest
  | .ifElse _ _ yes no => !yes.endsOpen && yes.elseNearest && no.elseNearest
  | .loop _ _ body => body.elseNearest
  | .fxn _ _ _ body => Stmt.elsesNearest body

/-- Whether every `else` of a list of statements belongs to the nearest conditional. -/
def Stmt.elsesNearest : List Stmt → Bool
  | [] => true
  | s :: ss => s.elseNearest && Stmt.elsesNearest ss

end

theorem Stmt.areWhole_iff (ss : List Stmt) :
    Stmt.areWhole ss = true ↔ ∀ s ∈ ss, s.isWhole = true := by
  induction ss with
  | nil => simp [Stmt.areWhole]
  | cons s ss ih => simp [Stmt.areWhole, ih]

theorem Stmt.elsesNearest_iff (ss : List Stmt) :
    Stmt.elsesNearest ss = true ↔ ∀ s ∈ ss, s.elseNearest = true := by
  induction ss with
  | nil => simp [Stmt.elsesNearest]
  | cons s ss ih => simp [Stmt.elsesNearest, ih]

namespace Grammar

/-! ## Tables -/

/-- The operators of one level, with what they denote. -/
abbrev Tier := List (TokenKind × BinaryOp)

/-- The kinds of tokens that are operators of a tier. -/
def Tier.kinds (tier : Tier) : List TokenKind := tier.map Prod.fst

/-- The levels of binary operators, from the loosest to the tightest: logic, equality,
comparison, term and factor. -/
def tiers : List Tier :=
  [[(.and, .and), (.or, .or)],
    [(.eq, .eq), (.neq, .ne)],
    [(.gt, .gt), (.gte, .ge), (.lt, .lt), (.lte, .le)],
    [(.plus, .add), (.minus, .sub)],
    [(.star, .mul), (.slash, .div), (.percent, .rem)]]

/-- The unary operators. -/
def unaryOps : List (TokenKind × UnaryOp) := [(.bang, .not), (.minus, .negate)]

/-- The words that open a variable declaration, each with the type it asks for and the value
at an offset of a variable that is declared without one. -/
def typeWords : List (TokenKind × DeclaredType × (Int → Expr)) :=
  [(.num, .num, fun pos => .num pos 0), (.str, .str, fun pos => .str pos []),
    (.bool, .bool, fun pos => .bool pos false), (.var, .any, fun pos => .num pos 0)]

/-! ## Spellings and what they denote -/

/-- The operator of a tier that a token denotes. -/
theorem binaryOp_eq {t : Token} {tier : Tier} {o : BinaryOp} (ht : t.Spelled)
    (htier : tier ∈ tiers) (ho : (t.kind, o) ∈ tier) : Parser.binaryOp t = o := by
  have hall : ∀ tier ∈ tiers, ∀ p ∈ tier, p.1.spellings ≠ [] ∧ ∀ lexeme ∈ p.1.spellings,
      Parser.binaryOp ⟨p.1, lexeme, 0, 0⟩ = p.2 := by decide
  obtain ⟨hne, hop⟩ := hall tier htier _ ho
  have hlexeme := ht.resolve_left hne
  have heq : Parser.binaryOp t = Parser.binaryOp ⟨t.kind, t.lexeme, 0, 0⟩ := rfl
  rw [heq]
  exact hop t.lexeme hlexeme

theorem exists_mem_of_mem_kinds {tier : Tier} {kind : TokenKind} (h : kind ∈ tier.kinds) :
    ∃ o, (kind, o) ∈ tier := by
  obtain ⟨⟨k, o⟩, hmem, rfl⟩ := List.mem_map.mp h
  exact ⟨o, hmem⟩

/-- The unary operator that a token denotes. -/
theorem unaryOp_eq {t : Token} {o : UnaryOp} (ht : t.Spelled) (ho : (t.kind, o) ∈ unaryOps) :
    UnaryOp.ofLexeme t.lexeme = o := by
  have hall : ∀ p ∈ unaryOps, p.1.spellings ≠ [] ∧ ∀ lexeme ∈ p.1.spellings,
      UnaryOp.ofLexeme lexeme = p.2 := by decide
  obtain ⟨hne, hop⟩ := hall _ ho
  exact hop t.lexeme (ht.resolve_left hne)

theorem exists_unaryOp {kind : TokenKind} (h : kind = .bang ∨ kind = .minus) :
    ∃ o, (kind, o) ∈ unaryOps := by
  rcases h with rfl | rfl
  · exact ⟨.not, by decide⟩
  · exact ⟨.negate, by decide⟩

/-- The type that a token asks for, and the value of a variable declared without one. -/
theorem typeWord_eq {t : Token} {type : DeclaredType} {zero : Int → Expr} (ht : t.Spelled)
    (h : (t.kind, type, zero) ∈ typeWords) :
    DeclaredType.ofName t.lexeme = type ∧ ∀ pos, Recovering.zeroValue type pos = zero pos := by
  have hname : ∀ {kind : TokenKind} {name : Text}, t.kind = kind → kind.spellings = [name] →
      t.lexeme = name := by
    intro kind name hkind hspelling
    have hlexeme := ht.resolve_left (by rw [hkind, hspelling]; simp)
    rw [hkind, hspelling] at hlexeme
    exact List.mem_singleton.mp hlexeme
  simp only [typeWords, List.mem_cons, Prod.mk.injEq, List.not_mem_nil, or_false] at h
  rcases h with ⟨hk, rfl, rfl⟩ | ⟨hk, rfl, rfl⟩ | ⟨hk, rfl, rfl⟩ | ⟨hk, rfl, rfl⟩
  · rw [hname hk (by decide : _ = [utf8 "num"])]
    exact ⟨by decide, fun _ => rfl⟩
  · rw [hname hk (by decide : _ = [utf8 "str"])]
    exact ⟨by decide, fun _ => rfl⟩
  · rw [hname hk (by decide : _ = [utf8 "bool"])]
    exact ⟨by decide, fun _ => rfl⟩
  · rw [hname hk (by decide : _ = [utf8 "var"])]
    exact ⟨by decide, fun _ => rfl⟩

theorem exists_typeWord {kind : TokenKind} (h : kind.isType = true) :
    ∃ type zero, (kind, type, zero) ∈ typeWords := by
  cases kind <;> first | exact absurd h (by decide) | simp [typeWords]

theorem isType_of_typeWord {kind : TokenKind} {type : DeclaredType} {zero : Int → Expr}
    (h : (kind, type, zero) ∈ typeWords) : kind.isType = true := by
  simp only [typeWords, List.mem_cons, Prod.mk.injEq, List.not_mem_nil, or_false] at h
  rcases h with ⟨rfl, -⟩ | ⟨rfl, -⟩ | ⟨rfl, -⟩ | ⟨rfl, -⟩ <;> rfl

/-! ## Phrases and their derivations -/

/-- **A phrase.** A nonterminal of the grammar together with the tree that is read for it.
`calls` and `operatorsAfter` are the repetitions after a first callee and a first operand,
which is their first tree; `program = declaration*` is `declarations`. -/
inductive Phrase where
  | primary (e : Expr)
  | calls (callee e : Expr)
  | call (e : Expr)
  | unary (e : Expr)
  | operators (tiers : List Tier) (e : Expr)
  | operatorsAfter (tier : Tier) (tighter : List Tier) (left e : Expr)
  | expression (e : Expr)
  | expressions (es : List Expr)
  | arguments (es : List Expr)
  | names (ns : List Text)
  | parameters (ns : List Text)
  | statement (s : Stmt)
  | declaration (s : Stmt)
  | declarations (ss : List Stmt)

/-- **Derivations.** `Derives p ts` says that the tokens `ts` can be read as the phrase `p`. -/
inductive Derives : Phrase → List Token → Prop where
  -- primary = "true" | "false" | NUMBER | STRING | IDENT | "@" IDENT | "(" expression ")"
  | falseWord {t} (ht : t.kind = .falseWord) : Derives (.primary (.bool t.offset false)) [t]
  | trueWord {t} (ht : t.kind = .trueWord) : Derives (.primary (.bool t.offset true)) [t]
  | number {t} (ht : t.kind = .number) : Derives (.primary (.num t.offset t.number)) [t]
  | string {t} (ht : t.kind = .string) : Derives (.primary (.str t.offset t.lexeme)) [t]
  | ident {t} (ht : t.kind = .ident) : Derives (.primary (.ident t.offset t.lexeme)) [t]
  | symbol {t name} (ht : t.kind = .at) (hname : name.kind = .ident) :
      Derives (.primary (.symbol t.offset name.lexeme)) [t, name]
  | group {opening closing e ts} (ho : opening.kind = .lparen)
      (he : Derives (.expression e) ts) (hc : closing.kind = .rparen) :
      Derives (.primary (.group opening.offset e)) (opening :: ts ++ [closing])
  -- call = primary ("(" arguments ")")*
  | noCall {callee} : Derives (.calls callee callee) []
  | oneCall {opening closing callee args e ts us} (ho : opening.kind = .lparen)
      (hargs : Derives (.arguments args) ts) (hc : closing.kind = .rparen)
      (hmore : Derives (.calls (.call opening.offset callee args) e) us) :
      Derives (.calls callee e) (opening :: ts ++ closing :: us)
  | call {callee e ts us} (hcallee : Derives (.primary callee) ts)
      (hcalls : Derives (.calls callee e) us) : Derives (.call e) (ts ++ us)
  -- unary = ("!" | "-") unary | call
  | unaryOp {op o e ts} (hop : (op.kind, o) ∈ unaryOps) (he : Derives (.unary e) ts) :
      Derives (.unary (.unary op.offset o e)) (op :: ts)
  | unaryCall {e ts} (he : Derives (.call e) ts) : Derives (.unary e) ts
  -- operators of a tier = operators of the next (OPERATOR operators of the next)*
  | tightest {e ts} (he : Derives (.unary e) ts) : Derives (.operators [] e) ts
  | tier {tier tighter left e ts us} (hleft : Derives (.operators tighter left) ts)
      (hmore : Derives (.operatorsAfter tier tighter left e) us) :
      Derives (.operators (tier :: tighter) e) (ts ++ us)
  | noOperator {tier tighter left} : Derives (.operatorsAfter tier tighter left left) []
  | oneOperator {tier : Tier} {tighter op o left right e ts us} (hop : (op.kind, o) ∈ tier)
      (hright : Derives (.operators tighter right) ts)
      (hmore : Derives (.operatorsAfter tier tighter (.binary op.offset o left right) e) us) :
      Derives (.operatorsAfter tier tighter left e) (op :: ts ++ us)
  -- expression = IDENT "=" expression | operators
  | assign {name equals value ts} (hname : name.kind = .ident) (heq : equals.kind = .assign)
      (hvalue : Derives (.expression value) ts) :
      Derives (.expression (.assign name.offset name.lexeme value)) (name :: equals :: ts)
  | operators {e ts} (he : Derives (.operators tiers e) ts) : Derives (.expression e) ts
  -- arguments = (expression ("," expression)*)?
  | lastExpression {e ts} (he : Derives (.expression e) ts) : Derives (.expressions [e]) ts
  | nextExpression {e es comma ts us} (he : Derives (.expression e) ts)
      (hcomma : comma.kind = .comma) (hes : Derives (.expressions es) us) :
      Derives (.expressions (e :: es)) (ts ++ comma :: us)
  | noArguments : Derives (.arguments []) []
  | someArguments {es ts} (hes : Derives (.expressions es) ts) : Derives (.arguments es) ts
  -- parameters = (IDENT ("," IDENT)*)?
  | lastName {n} (hn : n.kind = .ident) : Derives (.names [n.lexeme]) [n]
  | nextName {n ns comma ts} (hn : n.kind = .ident) (hcomma : comma.kind = .comma)
      (hns : Derives (.names ns) ts) : Derives (.names (n.lexeme :: ns)) (n :: comma :: ts)
  | noParameters : Derives (.parameters []) []
  | someParameters {ns ts} (hns : Derives (.names ns) ts) : Derives (.parameters ns) ts
  -- statement = "return" expression ";" | block | conditional | loop | expression ";"
  | ret {word semi value ts} (hword : word.kind = .returnWord)
      (hvalue : Derives (.expression value) ts) (hsemi : semi.kind = .semi) :
      Derives (.statement (.ret word.offset value)) (word :: ts ++ [semi])
  | block {opening closing body ts} (ho : opening.kind = .lbrace)
      (hbody : Derives (.declarations body) ts) (hc : closing.kind = .rbrace) :
      Derives (.statement (.block opening.offset body)) (opening :: ts ++ [closing])
  | ifThen {word opening closing cond yes ts us} (hword : word.kind = .ifWord)
      (ho : opening.kind = .lparen) (hcond : Derives (.expression cond) ts)
      (hc : closing.kind = .rparen) (hyes : Derives (.statement yes) us) :
      Derives (.statement (.ifThen word.offset cond yes))
        (word :: opening :: ts ++ closing :: us)
  | ifElse {word opening closing other cond yes no ts us vs} (hword : word.kind = .ifWord)
      (ho : opening.kind = .lparen) (hcond : Derives (.expression cond) ts)
      (hc : closing.kind = .rparen) (hyes : Derives (.statement yes) us)
      (hother : other.kind = .elseWord) (hno : Derives (.statement no) vs) :
      Derives (.statement (.ifElse word.offset cond yes no))
        (word :: opening :: ts ++ closing :: us ++ other :: vs)
  | loop {word opening closing cond body ts us} (hword : word.kind = .whileWord)
      (ho : opening.kind = .lparen) (hcond : Derives (.expression cond) ts)
      (hc : closing.kind = .rparen) (hbody : Derives (.statement body) us) :
      Derives (.statement (.loop word.offset cond body)) (word :: opening :: ts ++ closing :: us)
  | exprStatement {first semi e ts} (he : Derives (.expression e) (first :: ts))
      (hsemi : semi.kind = .semi) :
      Derives (.statement (.expr first.offset e)) (first :: ts ++ [semi])
  -- declaration = variable | function | statement
  | declare {word name equals semi type zero init ts}
      (hword : (word.kind, type, zero) ∈ typeWords) (hname : name.kind = .ident)
      (heq : equals.kind = .assign) (hinit : Derives (.expression init) ts)
      (hsemi : semi.kind = .semi) :
      Derives (.declaration (.declare name.offset type name.lexeme init))
        (word :: name :: equals :: ts ++ [semi])
  | declareZero {word name semi type zero} (hword : (word.kind, type, zero) ∈ typeWords)
      (hname : name.kind = .ident) (hsemi : semi.kind = .semi) :
      Derives (.declaration (.declare name.offset type name.lexeme (zero name.offset)))
        [word, name, semi]
  | function {word name opening closing brace ending params body ts us}
      (hword : word.kind = .fxn) (hname : name.kind = .ident) (ho : opening.kind = .lparen)
      (hparams : Derives (.parameters params) ts) (hc : closing.kind = .rparen)
      (hbrace : brace.kind = .lbrace) (hbody : Derives (.declarations body) us)
      (hending : ending.kind = .rbrace) :
      Derives (.declaration (.fxn name.offset name.lexeme params body))
        (word :: name :: opening :: ts ++ closing :: brace :: us ++ [ending])
  | statement {s ts} (hs : Derives (.statement s) ts) : Derives (.declaration s) ts
  -- program = declaration*
  | noDeclaration : Derives (.declarations []) []
  | nextDeclaration {s ss ts us} (hs : Derives (.declaration s) ts)
      (hss : Derives (.declarations ss) us) : Derives (.declarations (s :: ss)) (ts ++ us)

/-! ## First tokens -/

/-- The kinds of tokens with which a primary expression starts. -/
def primaryFirst : List TokenKind :=
  [.falseWord, .trueWord, .number, .string, .ident, .at, .lparen]

/-- The kinds of tokens with which an expression starts. -/
def expressionFirst : List TokenKind := [.bang, .minus] ++ primaryFirst

/-- The kinds of tokens with which a statement starts. -/
def statementFirst : List TokenKind :=
  [.returnWord, .lbrace, .ifWord, .whileWord] ++ expressionFirst

/-- The kinds of tokens with which a declaration starts. -/
def declarationFirst : List TokenKind := [.num, .str, .bool, .var, .fxn] ++ statementFirst

/-- The kinds of tokens with which a phrase starts if it is not empty. -/
def Phrase.first : Phrase → List TokenKind
  | .primary _ | .call _ => primaryFirst
  | .calls _ _ => [.lparen]
  | .unary _ | .operators _ _ | .expression _ | .expressions _ | .arguments _ => expressionFirst
  | .operatorsAfter tier _ _ _ => tier.kinds
  | .names _ | .parameters _ => [.ident]
  | .statement _ => statementFirst
  | .declaration _ | .declarations _ => declarationFirst

/-- Whether a phrase may be empty. -/
def Phrase.mayBeEmpty : Phrase → Bool
  | .calls _ _ | .operatorsAfter _ _ _ _ | .arguments _ | .parameters _ | .declarations _ => true
  | _ => false

/-- A list of tokens that starts with a token of one of the given kinds. -/
def StartsWith (kinds : List TokenKind) (ts : List Token) : Prop :=
  ∃ t us, ts = t :: us ∧ t.kind ∈ kinds

namespace StartsWith

theorem cons {kinds : List TokenKind} {t : Token} (h : t.kind ∈ kinds) (ts : List Token) :
    StartsWith kinds (t :: ts) :=
  ⟨t, ts, rfl, h⟩

theorem append {kinds : List TokenKind} {ts : List Token} (h : StartsWith kinds ts)
    (us : List Token) : StartsWith kinds (ts ++ us) := by
  obtain ⟨t, ts, rfl, ht⟩ := h
  exact ⟨t, ts ++ us, rfl, ht⟩

theorem mono {kinds kinds' : List TokenKind} {ts : List Token} (h : StartsWith kinds ts)
    (hsub : kinds ⊆ kinds') : StartsWith kinds' ts := by
  obtain ⟨t, ts, rfl, ht⟩ := h
  exact ⟨t, ts, rfl, hsub ht⟩

end StartsWith

/-- **First tokens.** A phrase is empty, if it may be, or starts with one of its first
kinds. -/
theorem Derives.empty_or_startsWith {p : Phrase} {ts : List Token} (h : Derives p ts) :
    (ts = [] ∧ p.mayBeEmpty = true) ∨ StartsWith p.first ts := by
  have hfull : ∀ {p : Phrase} {ts : List Token},
      (ts = [] ∧ p.mayBeEmpty = true) ∨ StartsWith p.first ts → p.mayBeEmpty = false →
      StartsWith p.first ts := by
    rintro p ts (⟨-, hempty⟩ | hstarts) hp
    · exact absurd hempty (by simp [hp])
    · exact hstarts
  induction h with
  | noCall | noOperator | noArguments | noParameters | noDeclaration =>
      exact .inl ⟨rfl, rfl⟩
  | falseWord ht | trueWord ht | number ht | string ht | ident ht =>
      exact .inr (.cons (by rw [ht]; simp [Phrase.first, primaryFirst]) _)
  | symbol ht _ | group ht _ _ | oneCall ht _ _ _ =>
      exact .inr (.cons (by rw [ht]; simp [Phrase.first, primaryFirst]) _)
  | call _ _ ih _ => exact .inr ((hfull ih rfl).append _)
  | unaryOp hop _ =>
      have hall : ∀ op ∈ unaryOps, op.1 ∈ expressionFirst := by decide
      exact .inr (.cons (hall _ hop) _)
  | unaryCall _ ih => exact .inr ((hfull ih rfl).mono (List.subset_append_right _ _))
  | tightest _ ih | operators _ ih | lastExpression _ ih => exact .inr (hfull ih rfl)
  | someArguments _ ih | someParameters _ ih => exact .inr ((hfull ih rfl).mono fun _ h => h)
  | tier _ _ ih _ | nextExpression _ _ _ ih _ => exact .inr ((hfull ih rfl).append _)
  | oneOperator hop _ _ => exact .inr (.cons (List.mem_map.mpr ⟨_, hop, rfl⟩) _)
  | assign hname | lastName hname | nextName hname =>
      exact .inr (.cons (by rw [hname]; simp [Phrase.first, expressionFirst, primaryFirst]) _)
  | ret hword | block hword | ifThen hword | ifElse hword | loop hword =>
      exact .inr (.cons (by rw [hword]; simp [Phrase.first, statementFirst]) _)
  | exprStatement _ _ ih =>
      exact .inr (((hfull ih rfl).mono (List.subset_append_right _ _)).append _)
  | declare hword | declareZero hword =>
      have hall : ∀ word ∈ typeWords, word.1 ∈ declarationFirst := by
        simp [typeWords, declarationFirst]
      exact .inr (.cons (hall _ hword) _)
  | function hword =>
      exact .inr (.cons (by rw [hword]; simp [Phrase.first, declarationFirst]) _)
  | statement _ ih => exact .inr ((hfull ih rfl).mono (List.subset_append_right _ _))
  | nextDeclaration _ _ ih _ => exact .inr ((hfull ih rfl).append _)

/-- A phrase that may not be empty starts with one of its first kinds. -/
theorem Derives.startsWith {p : Phrase} {ts : List Token} (h : Derives p ts)
    (hp : p.mayBeEmpty = false) : StartsWith p.first ts := by
  rcases h.empty_or_startsWith with ⟨-, hempty⟩ | hstarts
  · exact absurd hempty (by simp [hp])
  · exact hstarts

/-! ## Derivations of a name -/

/-- A repetition after a first tree is empty, or its tree is no longer a leaf. -/
theorem Derives.repetition {p : Phrase} {ts : List Token} (h : Derives p ts) :
    match p with
    | .calls callee e => (ts = [] ∧ e = callee) ∨ ∃ pos f args, e = .call pos f args
    | .operatorsAfter _ _ left e => (ts = [] ∧ e = left) ∨ ∃ pos o l r, e = .binary pos o l r
    | _ => True := by
  induction h with
  | noCall => exact .inl ⟨rfl, rfl⟩
  | noOperator => exact .inl ⟨rfl, rfl⟩
  | oneCall ho hargs hc hmore _ ih =>
      rcases ih with ⟨-, rfl⟩ | ih
      · exact .inr ⟨_, _, _, rfl⟩
      · exact .inr ih
  | oneOperator hop hright hmore _ ih =>
      rcases ih with ⟨-, rfl⟩ | ih
      · exact .inr ⟨_, _, _, _, rfl⟩
      · exact .inr ih
  | _ => trivial

theorem Derives.eq_ident_of_unary {ts : List Token} {pos : Int} {name : Text}
    (h : Derives (.unary (.ident pos name)) ts) :
    ∃ t, ts = [t] ∧ t.kind = .ident ∧ t.offset = pos ∧ t.lexeme = name := by
  cases h with
  | unaryCall h =>
      cases h with
      | call hcallee hcalls =>
          rcases hcalls.repetition with ⟨rfl, rfl⟩ | ⟨_, _, _, h⟩
          · cases hcallee with
            | ident ht => exact ⟨_, rfl, ht, rfl, rfl⟩
          · exact absurd h (by simp)

/-- **The only derivation of a name is the name itself.** -/
theorem Derives.eq_ident_of_operators {levels : List Tier} {ts : List Token} {pos : Int}
    {name : Text} (h : Derives (.operators levels (.ident pos name)) ts) :
    ∃ t, ts = [t] ∧ t.kind = .ident ∧ t.offset = pos ∧ t.lexeme = name := by
  induction levels generalizing ts with
  | nil =>
      cases h with
      | tightest h => exact h.eq_ident_of_unary
  | cons tier tighter ih =>
      cases h with
      | tier hleft hmore =>
          rcases hmore.repetition with ⟨rfl, rfl⟩ | ⟨_, _, _, _, h⟩
          · rw [List.append_nil]
            exact ih hleft
          · exact absurd h (by simp)

/-! ## Whole trees -/

/-- What it means for a phrase that no node of its tree is missing. A repetition adds nothing
missing to the tree that it starts with. -/
def Phrase.IsWhole : Phrase → Prop
  | .primary e | .call e | .unary e | .operators _ e | .expression e => e.isWhole = true
  | .calls callee e => callee.isWhole = true → e.isWhole = true
  | .operatorsAfter _ _ left e => left.isWhole = true → e.isWhole = true
  | .expressions es | .arguments es => Expr.areWhole es = true
  | .names _ | .parameters _ => True
  | .statement s | .declaration s => s.isWhole = true
  | .declarations ss => Stmt.areWhole ss = true

/-- **The grammar derives whole trees only.** -/
theorem Derives.isWhole {p : Phrase} {ts : List Token} (h : Derives p ts) : p.IsWhole := by
  induction h with
  | call _ _ ihcallee ihcalls => exact ihcalls ihcallee
  | tier _ _ ihleft ihmore => exact ihmore ihleft
  | oneCall _ _ _ _ ihargs ihmore =>
      intro hcallee
      exact ihmore (by simp only [Expr.isWhole, hcallee, Bool.true_and]; exact ihargs)
  | oneOperator _ _ _ ihright ihmore =>
      intro hleft
      exact ihmore (by simp only [Expr.isWhole, hleft, Bool.true_and]; exact ihright)
  | declareZero hword =>
      have hall : ∀ w ∈ typeWords, ∀ pos, (w.2.2 pos).isWhole = true := by
        simp [typeWords, Expr.isWhole]
      exact hall _ hword _
  | _ => simp_all [Phrase.IsWhole, Expr.isWhole, Expr.areWhole, Stmt.isWhole, Stmt.areWhole]

theorem Derives.not_isMissing {s : Stmt} {ts : List Token} (h : Derives (.declaration s) ts) :
    s.isMissing = false := by
  have hwhole : s.isWhole = true := h.isWhole
  cases s with
  | missing => exact absurd hwhole (by simp [Stmt.isWhole])
  | _ => rfl

end Grammar

end Badger
