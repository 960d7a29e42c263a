import Badger.Proofs.Grammar.Recovery
import Badger.Proofs.Grammar.Subtree

/-!
# Every node points at its own token

A node of a tree remembers an offset. It is that of the token that makes the node what it is: its
name, its literal, its operator, its keyword or its opening bracket. That holds of whatever is read,
next to errors as well.

## Main definitions

* `Marked`: a token at an offset
* `Expr.Anchored`, `Stmt.Anchored`: that every node of a tree points at its own token
* `Grammar.StmtAnchored`: what the parsers of statements read is anchored

## Main statements

* `Derives.anchored`: what the grammar derives from tokens in a row is anchored
* `stmtAnchored`: what the parsers of statements read is anchored, at every budget
* `Program.anchored_ofText`: **every node that is read from a text points at its own token**

## Design notes

Where recovery takes place the tokens of a block are no longer derived in a row, and the sign in
front of a name must be followed by the name with nothing between them. So statements are
taken as the parsers read them, and derivations are used below that, where nothing is passed over.
-/

namespace Badger

open Badger.Grammar

/-! ## Anchors -/

/-- **A token at an offset.** A keyword, an operator or a bracket is written as one. -/
def Marked (tokens : List Token) (pos : Int) (is : Token → Prop) : Prop :=
  ∃ t ∈ tokens, t.offset = pos ∧ t.Spelled ∧ is t

mutual

/-- **Every node of an expression points at its own token**, and a node with parts lies where its
token stands among theirs. -/
def Expr.Anchored (tokens : List Token) : Expr → Prop
  | .missing => False
  | .num pos value => Marked tokens pos fun t => t.kind = .number ∧ t.number = value
  | .str pos value => Marked tokens pos fun t => t.kind = .string ∧ t.lexeme = value
  | .bool pos value => Marked tokens pos fun t => t.kind = if value then .trueWord else .falseWord
  | .ident pos name => Marked tokens pos fun t => t.kind = .ident ∧ t.lexeme = name
  | .symbol pos name =>
      ∃ sign word, [sign, word] <:+: tokens ∧ sign.kind = .at ∧ sign.Spelled ∧ sign.offset = pos ∧
        word.kind = .ident ∧ word.lexeme = name
  | .unary pos op operand =>
      (Marked tokens pos fun t => (t.kind, op) ∈ unaryOps) ∧ operand.Anchored tokens ∧
        ∀ u ∈ operand.subtrees, pos < u.offset
  | .binary pos op left right =>
      (Marked tokens pos fun t => ∃ tier ∈ tiers, (t.kind, op) ∈ tier) ∧ left.Anchored tokens ∧
        right.Anchored tokens ∧ (∀ u ∈ left.subtrees, u.offset < pos) ∧
        ∀ u ∈ right.subtrees, pos < u.offset
  | .group pos inner =>
      (Marked tokens pos fun t => t.kind = .lparen) ∧ inner.Anchored tokens ∧
        ∀ u ∈ inner.subtrees, pos < u.offset
  | .assign pos name value =>
      (Marked tokens pos fun t => t.kind = .ident ∧ t.lexeme = name) ∧ value.Anchored tokens ∧
        ∀ u ∈ value.subtrees, pos < u.offset
  | .call pos callee args =>
      (Marked tokens pos fun t => t.kind = .lparen) ∧ callee.Anchored tokens ∧
        Expr.AreAnchored tokens args ∧ (∀ u ∈ callee.subtrees, u.offset < pos) ∧
        ∀ u ∈ Expr.listSubtrees args, pos < u.offset

/-- Every node of some expressions points at its own token. -/
def Expr.AreAnchored (tokens : List Token) : List Expr → Prop
  | [] => True
  | e :: es => e.Anchored tokens ∧ Expr.AreAnchored tokens es

end

mutual

/-- **Every node of a statement points at its own token.** An expression statement points at the
first token that its expression is derived from. A variable that is declared without a value gets
one that points at its name. -/
def Stmt.Anchored (tokens : List Token) : Stmt → Prop
  | .missing => False
  | .expr pos e =>
      (∃ first ts, first :: ts <:+: tokens ∧ first.offset = pos ∧
        Derives (.expression e) (first :: ts)) ∧ e.Anchored tokens
  | .ret pos value =>
      (Marked tokens pos fun t => t.kind = .returnWord) ∧ value.Anchored tokens
  | .block pos body => (Marked tokens pos fun t => t.kind = .lbrace) ∧ Stmt.AreAnchored tokens body
  | .declare pos type name init =>
      ∃ word zero mark next, [word, mark, next] <:+: tokens ∧ (word.kind, type, zero) ∈ typeWords ∧
        mark.kind = .ident ∧ mark.lexeme = name ∧ mark.offset = pos ∧
        (next.kind = .assign ∧ init.Anchored tokens ∨ next.kind = .semi ∧ init = zero pos)
  | .ifThen pos cond yes =>
      (Marked tokens pos fun t => t.kind = .ifWord) ∧ cond.Anchored tokens ∧ yes.Anchored tokens
  | .ifElse pos cond yes no =>
      (Marked tokens pos fun t => t.kind = .ifWord) ∧ cond.Anchored tokens ∧ yes.Anchored tokens ∧
        no.Anchored tokens
  | .loop pos cond body =>
      (Marked tokens pos fun t => t.kind = .whileWord) ∧ cond.Anchored tokens ∧
        body.Anchored tokens
  | .fxn pos name _ body =>
      (Marked tokens pos fun t => t.kind = .ident ∧ t.lexeme = name) ∧
        Stmt.AreAnchored tokens body

/-- Every node of some statements points at its own token. -/
def Stmt.AreAnchored (tokens : List Token) : List Stmt → Prop
  | [] => True
  | s :: ss => s.Anchored tokens ∧ Stmt.AreAnchored tokens ss

end

namespace Grammar

/-! ## Tokens in a row -/

section

variable {tokens xs ys : List Token} {t : Token}

theorem infix_left (h : xs ++ ys <:+: tokens) : xs <:+: tokens :=
  (List.prefix_append xs ys).isInfix.trans h

theorem infix_right (h : xs ++ ys <:+: tokens) : ys <:+: tokens :=
  (List.suffix_append xs ys).isInfix.trans h

theorem infix_tail (h : t :: xs <:+: tokens) : xs <:+: tokens :=
  (List.suffix_cons t xs).isInfix.trans h

end

variable {tokens : List Token} (hspelled : ∀ t ∈ tokens, t.Spelled)
  (hordered : tokens.Pairwise fun t u => t.offset < u.offset)

include hspelled in
theorem marked_head {t : Token} {ts : List Token} {is : Token → Prop} (hts : t :: ts <:+: tokens)
    (h : is t) : Marked tokens t.offset is :=
  have ht := hts.subset List.mem_cons_self
  ⟨t, ht, rfl, hspelled t ht, h⟩

include hordered in
theorem offset_head_lt {t : Token} {ts : List Token} (hts : t :: ts <:+: tokens) :
    ∀ u ∈ ts, t.offset < u.offset :=
  (List.pairwise_cons.mp (hordered.sublist hts.sublist)).1

include hordered in
/-- What is derived from the tokens behind a token has greater offsets. -/
theorem Derives.offsets_behind {p : Phrase} {t : Token} {ts us : List Token}
    (h : Derives p ts) (hts : t :: (ts ++ us) <:+: tokens) : p.OffsetsIn (t.offset < ·) :=
  h.offsets fun u hu => offset_head_lt hordered hts u (List.mem_append_left us hu)

include hordered in
/-- What is derived from the tokens in front of others has smaller offsets. -/
theorem Derives.offsets_before {p : Phrase} {ts us : List Token} (h : Derives p ts)
    (hts : ts ++ us <:+: tokens) : p.OffsetsIn fun offset => ∀ u ∈ us, offset < u.offset :=
  h.offsets fun t ht u hu =>
    (List.pairwise_append.mp (hordered.sublist hts.sublist)).2.2 t ht u hu

/-! ## Derivations -/

/-- What it means for a phrase that all nodes of its tree point at their tokens. A repetition
follows what it starts with. -/
def Phrase.Anchored (tokens ts : List Token) : Phrase → Prop
  | .primary e | .call e | .unary e | .operators _ e | .expression e => e.Anchored tokens
  | .calls callee e =>
      callee.Anchored tokens → (∀ u ∈ callee.subtrees, ∀ t ∈ ts, u.offset < t.offset) →
        e.Anchored tokens
  | .operatorsAfter _ _ left e =>
      left.Anchored tokens → (∀ u ∈ left.subtrees, ∀ t ∈ ts, u.offset < t.offset) →
        e.Anchored tokens
  | .expressions es | .arguments es => Expr.AreAnchored tokens es
  | .names _ | .parameters _ => True
  | .statement s | .declaration s => s.Anchored tokens
  | .declarations ss => Stmt.AreAnchored tokens ss

include hspelled hordered in
/-- **What the grammar derives from tokens in a row is anchored.** -/
theorem Derives.anchored {p : Phrase} {ts : List Token} (h : Derives p ts)
    (hts : ts <:+: tokens) (hp : p.IsTiered) : p.Anchored tokens ts := by
  induction h with
  | falseWord ht | trueWord ht => exact marked_head hspelled hts ht
  | number ht | string ht | ident ht => exact marked_head hspelled hts ⟨ht, rfl⟩
  | symbol ht hname =>
      exact ⟨_, _, hts, ht, hspelled _ (hts.subset List.mem_cons_self), rfl, hname, rfl⟩
  | group ho he _ ih =>
      exact ⟨marked_head hspelled hts ho, ih (infix_left (infix_tail hts)) trivial,
        he.offsets_behind hordered hts⟩
  | noCall | noOperator => exact fun h _ => h
  | @oneCall opening closing callee args e ts us ho hargs _ hmore ihargs ihmore =>
      intro hcallee hbefore
      have hafter : Expr.Anchored tokens (.call opening.offset callee args) :=
        ⟨marked_head hspelled hts ho, hcallee, ihargs (infix_left (infix_tail hts)) trivial,
          fun u hu => hbefore u hu opening List.mem_cons_self, hargs.offsets_behind hordered hts⟩
      have hrest : ∀ t ∈ us, t ∈ ts ++ closing :: us := fun t ht => by simp [ht]
      refine ihmore (infix_tail (infix_right (infix_tail hts))) trivial hafter ?_
      simp only [Expr.subtrees, List.forall_mem_cons, List.forall_mem_append]
      exact ⟨fun t ht => offset_head_lt hordered hts t (hrest t ht),
        fun u hu t ht => hbefore u hu t (List.mem_cons_of_mem _ (hrest t ht)),
        fun u hu t ht => hargs.offsets_before hordered (infix_tail hts) u hu t
          (List.mem_cons_of_mem _ ht)⟩
  | call hcallee _ ihcallee ihcalls =>
      exact ihcalls (infix_right hts) trivial (ihcallee (infix_left hts) trivial)
        (hcallee.offsets_before hordered hts)
  | unaryOp hop he ih =>
      refine ⟨marked_head hspelled hts hop, ih (infix_tail hts) trivial, ?_⟩
      exact he.offsets fun u hu => offset_head_lt hordered hts u hu
  | unaryCall _ ih | someArguments _ ih | statement _ ih => exact ih hts trivial
  | tightest _ ih => exact ih hts trivial
  | operators _ ih => exact ih hts List.suffix_rfl
  | tier hleft _ ihleft ihmore =>
      exact ihmore (infix_right hts) hp (ihleft (infix_left hts) ((List.suffix_cons _ _).trans hp))
        (hleft.offsets_before hordered hts)
  | @oneOperator tier tighter op o left right e ts us hop hright _ ihright ihmore =>
      intro hleft hbefore
      have hafter : Expr.Anchored tokens (.binary op.offset o left right) :=
        ⟨marked_head hspelled hts ⟨tier, hp.subset List.mem_cons_self, hop⟩, hleft,
          ihright (infix_left (infix_tail hts)) ((List.suffix_cons _ _).trans hp),
          fun u hu => hbefore u hu op List.mem_cons_self, hright.offsets_behind hordered hts⟩
      refine ihmore (infix_right (infix_tail hts)) hp hafter ?_
      simp only [Expr.subtrees, List.forall_mem_cons, List.forall_mem_append]
      exact ⟨fun t ht => offset_head_lt hordered hts t (List.mem_append_right ts ht),
        fun u hu t ht => hbefore u hu t (List.mem_append_right (op :: ts) ht),
        hright.offsets_before hordered (infix_tail hts)⟩
  | assign hname _ hvalue ih =>
      refine ⟨marked_head hspelled hts ⟨hname, rfl⟩, ih (infix_tail (infix_tail hts)) trivial, ?_⟩
      exact hvalue.offsets fun u hu => offset_head_lt hordered hts u (List.mem_cons_of_mem _ hu)
  | lastExpression _ ih => exact ⟨ih hts trivial, trivial⟩
  | nextExpression _ _ _ ihfirst ihothers =>
      exact ⟨ihfirst (infix_left hts) trivial, ihothers (infix_tail (infix_right hts)) trivial⟩
  | noArguments | noParameters | noDeclaration | lastName | nextName | someParameters => trivial
  | ret hword _ _ ih =>
      exact ⟨marked_head hspelled hts hword, ih (infix_left (infix_tail hts)) trivial⟩
  | block ho _ _ ih =>
      exact ⟨marked_head hspelled hts ho, ih (infix_left (infix_tail hts)) trivial⟩
  | ifThen hword _ _ _ _ ihcond ihyes | loop hword _ _ _ _ ihcond ihyes =>
      exact ⟨marked_head hspelled hts hword,
        ihcond (infix_left (infix_tail (infix_tail hts))) trivial,
        ihyes (infix_tail (infix_right hts)) trivial⟩
  | ifElse hword _ _ _ _ _ _ ihcond ihyes ihno =>
      have hyes := infix_left hts
      exact ⟨marked_head hspelled hts hword,
        ihcond (infix_left (infix_tail (infix_tail hyes))) trivial,
        ihyes (infix_tail (infix_right hyes)) trivial, ihno (infix_tail (infix_right hts)) trivial⟩
  | exprStatement he _ ih =>
      exact ⟨⟨_, _, infix_left hts, rfl, he⟩, ih (infix_left hts) trivial⟩
  | @declare word name equals semi type zero init ts hword hname heq _ _ ih =>
      have hfront : [word, name, equals] ++ (ts ++ [semi]) <:+: tokens := hts
      exact ⟨word, zero, name, equals, infix_left hfront, hword, hname, rfl, rfl,
        .inl ⟨heq, ih (infix_left (infix_right hfront)) trivial⟩⟩
  | declareZero hword hname hsemi =>
      exact ⟨_, _, _, _, hts, hword, hname, rfl, rfl, .inr ⟨hsemi, rfl⟩⟩
  | function _ hname _ _ _ _ _ _ _ ihbody =>
      exact ⟨marked_head hspelled (infix_tail hts) ⟨hname, rfl⟩,
        ihbody (infix_tail (infix_tail (infix_right (infix_left hts)))) trivial⟩
  | nextDeclaration _ _ ihfirst ihothers =>
      exact ⟨ihfirst (infix_left hts) trivial, ihothers (infix_right hts) trivial⟩

/-! ## Statements as they are read -/

open Badger.Parser Recovering

include hspelled hordered in
/-- What is read from tokens in a row is anchored. -/
theorem Reads.anchored {p : Phrase} {ts rest : List Token} (h : Reads p ts rest)
    (hts : ts <:+ tokens) (hp : p.IsTiered) : ∃ read, p.Anchored tokens read := by
  obtain ⟨read, rfl, hread⟩ := h
  exact ⟨read, hread.anchored hspelled hordered (infix_left hts.isInfix) hp⟩

include hspelled hordered in
/-- The keyword and the condition of a conditional or a loop. -/
theorem ReadsCondition.anchored {kind : TokenKind} {ts rest : List Token} {head : Token × Expr}
    (h : ReadsCondition kind ts head rest) (hts : ts <:+ tokens) :
    (Marked tokens head.1.offset fun t => t.kind = kind) ∧ head.2.Anchored tokens ∧
      rest <:+ tokens := by
  obtain ⟨opening, read, closing, rfl, hword, -, hcond, -⟩ := h
  refine ⟨marked_head hspelled hts.isInfix hword, ?_, ?_⟩
  · exact hcond.anchored hspelled hordered
      (infix_left (infix_tail (infix_tail hts.isInfix))) trivial
  · exact (List.suffix_append (head.1 :: opening :: read ++ [closing]) rest).trans
      (by simpa using hts)

/-- **What the parsers of statements read is anchored**, at a budget. -/
structure StmtAnchored (tokens : List Token) (fuel : Nat) : Prop where
  declaration {ts : List Token} (hts : ts <:+ tokens) : Recovering.Meets (declaration fuel ts)
    (fun s _ _ => s.isMissing = false → s.Anchored tokens) (fun _ _ _ => True) True
  statement {ts : List Token} (hts : ts <:+ tokens) : Recovering.Meets (statement fuel ts)
    (fun s _ _ => s.Anchored tokens) (fun _ _ _ => True) True
  block {ts : List Token} (hts : ts <:+ tokens) : Recovering.Meets (block fuel ts)
    (fun body _ _ => Stmt.AreAnchored tokens body) (fun _ _ _ => True) True

section

variable {fuel : Nat} (ih : StmtAnchored tokens fuel) {ts : List Token} (hts : ts <:+ tokens)

include ih hts

include hspelled hordered in
private theorem declaration_anchored : Recovering.Meets (declaration (fuel + 1) ts)
    (fun s _ _ => s.isMissing = false → s.Anchored tokens) (fun _ _ _ => True) True := by
  have hspelled' : ∀ t ∈ ts, t.Spelled := fun t ht => hspelled t (hts.subset ht)
  -- after a failure the statement is missing
  have hfail : Stmt.missing.isMissing = false → Stmt.missing.Anchored tokens := nofun
  rw [meets_declaration]
  dsimp only
  split
  · next hk =>
    refine (variableDeclaration_sound fuel hspelled' hk).mono ?_ (fun _ _ _ => hfail) id
    rintro s rest ⟨hread, -⟩ -
    obtain ⟨_, hs⟩ := hread.anchored hspelled hordered hts trivial
    exact hs
  · split
    · next hk =>
      refine (functionHead_sound fuel hk).mono ?_ (fun _ _ _ => hfail) id
      rintro ⟨name, params⟩ rest ⟨word, opening, read, closing, brace, rfl, -, hname, -⟩
      have hmark : Marked tokens name.offset fun t => t.kind = .ident ∧ t.lexeme = name.lexeme :=
        marked_head hspelled (infix_tail hts.isInfix) ⟨hname, rfl⟩
      have hrest : rest <:+ tokens :=
        (List.suffix_append (word :: name :: opening :: read ++ [closing, brace]) rest).trans
          (by simpa using hts)
      exact (ih.block hrest).mono (fun body _ _ hbody _ => ⟨hmark, hbody⟩)
        (fun _ _ _ _ => hfail) id
    · exact (ih.statement hts).mono (fun s _ _ hs _ => hs) (fun _ _ _ _ => hfail) id

include hspelled hordered in
private theorem statement_anchored : Recovering.Meets (statement (fuel + 1) ts)
    (fun s _ _ => s.Anchored tokens) (fun _ _ _ => True) True := by
  have hspelled' : ∀ t ∈ ts, t.Spelled := fun t ht => hspelled t (hts.subset ht)
  rw [meets_statement]
  split
  · next hk =>
    refine (returnStatement_sound fuel hspelled' hk).mono ?_ (fun _ _ _ => trivial) id
    rintro s rest ⟨hread, -⟩
    obtain ⟨_, hs⟩ := hread.anchored hspelled hordered hts trivial
    exact hs
  · next hk =>
    obtain ⟨opening, us, rfl, ho, hadv⟩ := exists_cons_of_kind hk (by decide)
    rw [hadv, current_cons]
    exact (ih.block ((List.suffix_cons opening us).trans hts)).mono
      (fun body _ _ hbody => ⟨marked_head hspelled hts.isInfix ho, hbody⟩)
      (fun _ _ _ _ => trivial) id
  · next hk =>
    refine (condition_sound fuel _ hspelled' hk (by decide)).mono ?_ (fun _ _ _ => trivial) id
    rintro ⟨word, cond⟩ rest hread
    obtain ⟨hword, hcond, hrest⟩ := hread.anchored hspelled hordered hts
    refine ((ih.statement hrest).and ((stmtProgress fuel).statement rest)).mono ?_
      (fun _ _ _ _ => trivial) (fun _ => trivial)
    rintro yes rest' _ ⟨hyes, hshort, -⟩
    split
    · have hno := (advance_suffix rest').trans (hshort.trans hrest)
      exact (ih.statement hno).mono (fun no _ _ hno => ⟨hword, hcond, hyes, hno⟩)
        (fun _ _ _ _ => trivial) id
    · exact ⟨hword, hcond, hyes⟩
  · next hk =>
    refine (condition_sound fuel _ hspelled' hk (by decide)).mono ?_ (fun _ _ _ => trivial) id
    rintro ⟨word, cond⟩ rest hread
    obtain ⟨hword, hcond, hrest⟩ := hread.anchored hspelled hordered hts
    exact (ih.statement hrest).mono (fun body _ _ hbody => ⟨hword, hcond, hbody⟩)
      (fun _ _ _ _ => trivial) id
  · refine (exprStatement_sound fuel hspelled').mono ?_ (fun _ _ _ => trivial) id
    rintro s rest ⟨hread, -⟩
    obtain ⟨_, hs⟩ := hread.anchored hspelled hordered hts trivial
    exact hs

omit hspelled hordered in
private theorem block_anchored : Recovering.Meets (block (fuel + 1) ts)
    (fun body _ _ => Stmt.AreAnchored tokens body) (fun _ _ _ => True) True := by
  rw [meets_block]
  split
  · trivial
  · split
    · trivial
    · refine ((ih.declaration hts).and ((stmtProgress fuel).declaration ts)).mono ?_
        (fun _ _ _ _ => trivial) (fun _ => trivial)
      rintro first rest _ ⟨hfirst, hrest, -⟩
      refine (ih.block (hrest.trans hts)).mono ?_ (fun _ _ _ _ => trivial) id
      intro others _ _ hothers
      cases hmissing : first.isMissing with
      | true => exact hothers
      | false => exact ⟨hfirst hmissing, hothers⟩

end

include hspelled hordered in
/-- **What the parsers of statements read is anchored**, at every budget. -/
theorem stmtAnchored (fuel : Nat) : StmtAnchored tokens fuel := by
  induction fuel with
  | zero => exact ⟨fun _ => trivial, fun _ => trivial, fun _ => trivial⟩
  | succ fuel ih =>
      exact ⟨declaration_anchored hspelled hordered ih, statement_anchored hspelled hordered ih,
        block_anchored ih⟩

include hspelled hordered in
/-- The statements of a program are anchored, unless they are missing. -/
theorem declarations_anchored (fuel : Nat) {ts : List Token} (hts : ts <:+ tokens) :
    Recovering.Meets (declarations fuel ts)
      (fun ss _ _ => ∀ s ∈ ss, s.isMissing = false → s.Anchored tokens) (fun _ _ _ => True)
      True := by
  induction fuel generalizing ts with
  | zero => trivial
  | succ fuel ih =>
      rw [meets_declarations]
      split
      · exact nofun
      · refine (((stmtAnchored hspelled hordered fuel).declaration hts).and
          ((stmtProgress fuel).declaration ts)).mono ?_ (fun _ _ _ _ => trivial)
          (fun _ => trivial)
        rintro first rest _ ⟨hfirst, hrest, -⟩
        refine (ih (hrest.trans hts)).mono ?_ (fun _ _ _ _ => trivial) id
        intro others _ _ hothers
        exact List.forall_mem_cons.mpr ⟨hfirst, hothers⟩

end Grammar

/-! ## Whole programs -/

/-- **Every node that is read from a text points at its own token**, in every statement that is not
missing, whether or not others are. -/
theorem Program.anchored_ofText (text : Text) :
    let tokens := (TokenStream.ofText text).tokens
    ∀ s ∈ (Program.ofTokens tokens 0).stmts, s.isMissing = false → s.Anchored tokens := by
  intro tokens
  obtain ⟨body, ending, htokens, hending, hbody⟩ := TokenStream.ofText_tokens text
  have hspelled : ∀ t ∈ tokens, t.Spelled := by
    rw [show tokens = body ++ [ending] from htokens]
    exact Token.forall_spelled_append hending fun t ht => (hbody t ht).2.1
  have hread := declarations_anchored hspelled (TokenStream.pairwise_ofText text)
    (Parser.budget tokens) List.suffix_rfl
  obtain ⟨-, hanchored, -⟩ := ofTokens_meets htokens hending hread
  exact hanchored

/-- The statement behind one that cannot be read. -/
theorem Program.anchored_ofText_recovered :
    (Stmt.expr 5 (.binary 7 .add (.ident 5 (utf8 "c")) (.symbol 9 (utf8 "d")))).Anchored
      (TokenStream.ofText (utf8 "a b; c + @d;")).tokens := by
  have hread : (Program.ofTokens (TokenStream.ofText (utf8 "a b; c + @d;")).tokens 0).stmts =
      [.missing, .expr 5 (.binary 7 .add (.ident 5 (utf8 "c")) (.symbol 9 (utf8 "d")))] := by
    rfl
  exact Program.anchored_ofText (utf8 "a b; c + @d;") _ (hread ▸ by simp) rfl

end Badger
