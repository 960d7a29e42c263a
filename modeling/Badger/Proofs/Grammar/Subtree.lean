import Badger.Proofs.Grammar.Acceptance
import Badger.Proofs.Token.Stream

/-!
# The parts of a program and where they stand

Every statement and expression that the grammar derives is made of tokens in a few ways. So every
statement and expression of a program that is read without errors stands inside the text.

## Main definitions

* `Subtree`: a statement or an expression with all that is below it
* `Expr.subtrees`, `Stmt.subtrees`: everything that a tree is made of, itself included
* `Grammar.MadeOf`: the nodes that the grammar makes of tokens

## Main statements

* `Derives.forall_subtrees`: a property of the nodes made of tokens is one of all that is derived
* `Derives.offsets`: what the grammar derives has offsets of its tokens only
* `Program.offset_inside`: the parts of a program that is read without errors have offsets inside
  the text
-/

namespace Badger

/-! ## Parts of trees -/

/-- A statement or an expression with all that is below it. -/
inductive Subtree where
  | expr (e : Expr)
  | stmt (s : Stmt)

/-- The offset of the root. -/
def Subtree.offset : Subtree → Int
  | .expr e => e.offset
  | .stmt s => s.offset

mutual

/-- **The parts of an expression**, itself first. -/
def Expr.subtrees (e : Expr) : List Subtree :=
  .expr e ::
    match e with
    | .missing | .num _ _ | .str _ _ | .bool _ _ | .ident _ _ | .symbol _ _ => []
    | .unary _ _ operand => operand.subtrees
    | .binary _ _ left right => left.subtrees ++ right.subtrees
    | .group _ inner => inner.subtrees
    | .assign _ _ value => value.subtrees
    | .call _ callee args => callee.subtrees ++ Expr.listSubtrees args

/-- The parts of some expressions. -/
def Expr.listSubtrees : List Expr → List Subtree
  | [] => []
  | e :: es => e.subtrees ++ Expr.listSubtrees es

end

mutual

/-- **The parts of a statement**, itself first. -/
def Stmt.subtrees (s : Stmt) : List Subtree :=
  .stmt s ::
    match s with
    | .missing => []
    | .expr _ e => e.subtrees
    | .ret _ value => value.subtrees
    | .block _ body => Stmt.listSubtrees body
    | .declare _ _ _ init => init.subtrees
    | .ifThen _ cond yes => cond.subtrees ++ yes.subtrees
    | .ifElse _ cond yes no => cond.subtrees ++ (yes.subtrees ++ no.subtrees)
    | .loop _ cond body => cond.subtrees ++ body.subtrees
    | .fxn _ _ _ body => Stmt.listSubtrees body

/-- The parts of some statements. -/
def Stmt.listSubtrees : List Stmt → List Subtree
  | [] => []
  | s :: ss => s.subtrees ++ Stmt.listSubtrees ss

end

theorem Expr.mem_subtrees (e : Expr) : .expr e ∈ e.subtrees := by
  cases e <;> exact List.mem_cons_self

theorem Stmt.mem_subtrees (s : Stmt) : .stmt s ∈ s.subtrees := by
  cases s <;> exact List.mem_cons_self

/-! ## Nodes -/

namespace Grammar

/-- A name that is written by one of some tokens. -/
def WrittenBy (tokens : Token → Prop) (name : Text) : Prop :=
  ∃ t, tokens t ∧ t.kind = .ident ∧ t.lexeme = name

/-- **The nodes that the grammar makes of tokens**, told by their roots. Offsets, names and numbers
are those of tokens, operators are those of known tiers, and types those of the words for them. -/
inductive MadeOf (known : Tier → Prop) (tokens : Token → Prop) : Subtree → Prop
  | bool {t value} (ht : tokens t) : MadeOf known tokens (.expr (.bool t.offset value))
  | num {t} (ht : tokens t) (hk : t.kind = .number) :
      MadeOf known tokens (.expr (.num t.offset t.number))
  | zero {t} (ht : tokens t) : MadeOf known tokens (.expr (.num t.offset 0))
  | str {t value} (ht : tokens t) : MadeOf known tokens (.expr (.str t.offset value))
  | ident {t} (ht : tokens t) (hk : t.kind = .ident) :
      MadeOf known tokens (.expr (.ident t.offset t.lexeme))
  | symbol {t name} (ht : tokens t) (hname : WrittenBy tokens name) :
      MadeOf known tokens (.expr (.symbol t.offset name))
  | unary {t o e} (ht : tokens t) (ho : (t.kind, o) ∈ unaryOps) :
      MadeOf known tokens (.expr (.unary t.offset o e))
  | binary {t o left right} {tier : Tier} (ht : tokens t) (htier : known tier)
      (ho : (t.kind, o) ∈ tier) : MadeOf known tokens (.expr (.binary t.offset o left right))
  | group {t e} (ht : tokens t) : MadeOf known tokens (.expr (.group t.offset e))
  | assign {t value} (ht : tokens t) (hk : t.kind = .ident) :
      MadeOf known tokens (.expr (.assign t.offset t.lexeme value))
  | call {t callee args} (ht : tokens t) : MadeOf known tokens (.expr (.call t.offset callee args))
  | exprStatement {t e} (ht : tokens t) : MadeOf known tokens (.stmt (.expr t.offset e))
  | ret {t value} (ht : tokens t) : MadeOf known tokens (.stmt (.ret t.offset value))
  | block {t body} (ht : tokens t) : MadeOf known tokens (.stmt (.block t.offset body))
  | declare {t kind type zero init} (ht : tokens t) (hk : t.kind = .ident)
      (hword : (kind, type, zero) ∈ typeWords) :
      MadeOf known tokens (.stmt (.declare t.offset type t.lexeme init))
  | ifThen {t cond yes} (ht : tokens t) : MadeOf known tokens (.stmt (.ifThen t.offset cond yes))
  | ifElse {t cond yes no} (ht : tokens t) :
      MadeOf known tokens (.stmt (.ifElse t.offset cond yes no))
  | loop {t cond body} (ht : tokens t) : MadeOf known tokens (.stmt (.loop t.offset cond body))
  | fxn {t params body} (ht : tokens t) (hk : t.kind = .ident)
      (hparams : ∀ n ∈ params, WrittenBy tokens n) :
      MadeOf known tokens (.stmt (.fxn t.offset t.lexeme params body))

/-- What it means for a phrase with operators of known tiers that all names and nodes of its tree
have a property. A repetition adds only such nodes to the tree that it starts with. -/
def Phrase.Forall (known : Tier → Prop) (Q : Text → Prop) (P : Subtree → Prop) : Phrase → Prop
  | .primary e | .call e | .unary e | .expression e => ∀ t ∈ e.subtrees, P t
  | .operators levels e => (∀ tier ∈ levels, known tier) → ∀ t ∈ e.subtrees, P t
  | .calls callee e => (∀ t ∈ callee.subtrees, P t) → ∀ t ∈ e.subtrees, P t
  | .operatorsAfter tier tighter left e =>
      (∀ level ∈ tier :: tighter, known level) → (∀ t ∈ left.subtrees, P t) →
        ∀ t ∈ e.subtrees, P t
  | .expressions es | .arguments es => ∀ t ∈ Expr.listSubtrees es, P t
  | .names ns | .parameters ns => ∀ n ∈ ns, Q n
  | .statement s | .declaration s => ∀ t ∈ s.subtrees, P t
  | .declarations ss => ∀ t ∈ Stmt.listSubtrees ss, P t

/-- The value of a variable that is declared without one is a leaf made of its name. -/
theorem madeOf_zero {known : Tier → Prop} {tokens : Token → Prop} {kind : TokenKind}
    {type : DeclaredType} {zero : Int → Expr} (h : (kind, type, zero) ∈ typeWords) {t : Token}
    (ht : tokens t) : ∀ u ∈ (zero t.offset).subtrees, MadeOf known tokens u := by
  simp only [typeWords, List.mem_cons, Prod.mk.injEq, List.not_mem_nil, or_false] at h
  rcases h with ⟨-, -, rfl⟩ | ⟨-, -, rfl⟩ | ⟨-, -, rfl⟩ | ⟨-, -, rfl⟩
  all_goals simp only [Expr.subtrees, List.forall_mem_singleton]
  · exact .zero ht
  · exact .str ht
  · exact .bool ht
  · exact .zero ht

/-- **All nodes that the grammar derives are made of the tokens.** A property of the nodes made of
tokens of known tiers is one of everything that is derived from such tokens. -/
theorem Derives.forall_subtrees {known : Tier → Prop} (hknown : ∀ tier ∈ tiers, known tier)
    {tokens : Token → Prop} {P : Subtree → Prop} (hP : ∀ t, MadeOf known tokens t → P t)
    {p : Phrase} {ts : List Token} (h : Derives p ts) (hts : ∀ t ∈ ts, tokens t) :
    p.Forall known (WrittenBy tokens) P := by
  induction h with
  | falseWord _ | trueWord _ =>
      rw [List.forall_mem_singleton] at hts
      simpa only [Phrase.Forall, Expr.subtrees, List.forall_mem_singleton] using hP _ (.bool hts)
  | number hk =>
      rw [List.forall_mem_singleton] at hts
      simpa only [Phrase.Forall, Expr.subtrees, List.forall_mem_singleton] using hP _ (.num hts hk)
  | string _ =>
      rw [List.forall_mem_singleton] at hts
      simpa only [Phrase.Forall, Expr.subtrees, List.forall_mem_singleton] using hP _ (.str hts)
  | ident hk =>
      rw [List.forall_mem_singleton] at hts
      simpa only [Phrase.Forall, Expr.subtrees, List.forall_mem_singleton] using
        hP _ (.ident hts hk)
  | symbol _ hname =>
      simp only [List.forall_mem_cons] at hts
      simpa only [Phrase.Forall, Expr.subtrees, List.forall_mem_singleton] using
        hP _ (.symbol hts.1 ⟨_, hts.2.1, hname, rfl⟩)
  | group _ _ _ ih =>
      simp only [List.cons_append, List.forall_mem_cons, List.forall_mem_append] at hts
      simp only [Phrase.Forall, Expr.subtrees, List.forall_mem_cons]
      exact ⟨hP _ (.group hts.1), ih hts.2.1⟩
  | noCall => exact id
  | noOperator => exact fun _ => id
  | oneCall _ _ _ _ ihargs ihmore =>
      simp only [List.cons_append, List.forall_mem_cons, List.forall_mem_append] at hts
      obtain ⟨hopening, hargs, -, hmore⟩ := hts
      intro hcallee
      refine ihmore hmore ?_
      simp only [Expr.subtrees, List.forall_mem_cons, List.forall_mem_append]
      exact ⟨hP _ (.call hopening), hcallee, ihargs hargs⟩
  | call _ _ ihcallee ihcalls =>
      rw [List.forall_mem_append] at hts
      exact ihcalls hts.2 (ihcallee hts.1)
  | unaryOp hop _ ih =>
      rw [List.forall_mem_cons] at hts
      simp only [Phrase.Forall, Expr.subtrees, List.forall_mem_cons]
      exact ⟨hP _ (.unary hts.1 hop), ih hts.2⟩
  | unaryCall _ ih | someArguments _ ih | someParameters _ ih | statement _ ih => exact ih hts
  | tightest _ ih => exact fun _ => ih hts
  | operators _ ih => exact ih hts hknown
  | tier _ _ ihleft ihmore =>
      rw [List.forall_mem_append] at hts
      intro hlevels
      rw [List.forall_mem_cons] at hlevels
      exact ihmore hts.2 (List.forall_mem_cons.mpr hlevels) (ihleft hts.1 hlevels.2)
  | oneOperator hop _ _ ihright ihmore =>
      simp only [List.cons_append, List.forall_mem_cons, List.forall_mem_append] at hts
      obtain ⟨hoperator, hright, hmore⟩ := hts
      intro hlevels hleft
      refine ihmore hmore hlevels ?_
      rw [List.forall_mem_cons] at hlevels
      simp only [Expr.subtrees, List.forall_mem_cons, List.forall_mem_append]
      exact ⟨hP _ (.binary hoperator hlevels.1 hop), hleft, ihright hright hlevels.2⟩
  | assign hname _ _ ih =>
      simp only [List.forall_mem_cons] at hts
      simp only [Phrase.Forall, Expr.subtrees, List.forall_mem_cons]
      exact ⟨hP _ (.assign hts.1 hname), ih hts.2.2⟩
  | lastExpression _ ih =>
      simp only [Phrase.Forall, Expr.listSubtrees, List.append_nil]
      exact ih hts
  | nextExpression _ _ _ ihfirst ihothers =>
      simp only [List.forall_mem_cons, List.forall_mem_append] at hts
      simp only [Phrase.Forall, Expr.listSubtrees, List.forall_mem_append]
      exact ⟨ihfirst hts.1, ihothers hts.2.2⟩
  | noArguments | noParameters | noDeclaration => exact List.forall_mem_nil _
  | lastName hn =>
      rw [List.forall_mem_singleton] at hts
      exact List.forall_mem_singleton.mpr ⟨_, hts, hn, rfl⟩
  | nextName hn _ _ ih =>
      simp only [List.forall_mem_cons] at hts
      exact List.forall_mem_cons.mpr ⟨⟨_, hts.1, hn, rfl⟩, ih hts.2.2⟩
  | ret _ _ _ ih =>
      simp only [List.cons_append, List.forall_mem_cons, List.forall_mem_append] at hts
      simp only [Phrase.Forall, Stmt.subtrees, List.forall_mem_cons]
      exact ⟨hP _ (.ret hts.1), ih hts.2.1⟩
  | block _ _ _ ih =>
      simp only [List.cons_append, List.forall_mem_cons, List.forall_mem_append] at hts
      simp only [Phrase.Forall, Stmt.subtrees, List.forall_mem_cons]
      exact ⟨hP _ (.block hts.1), ih hts.2.1⟩
  | ifThen _ _ _ _ _ ihcond ihyes =>
      simp only [List.cons_append, List.forall_mem_cons, List.forall_mem_append] at hts
      obtain ⟨hword, -, hcond, -, hyes⟩ := hts
      simp only [Phrase.Forall, Stmt.subtrees, List.forall_mem_cons, List.forall_mem_append]
      exact ⟨hP _ (.ifThen hword), ihcond hcond, ihyes hyes⟩
  | loop _ _ _ _ _ ihcond ihbody =>
      simp only [List.cons_append, List.forall_mem_cons, List.forall_mem_append] at hts
      obtain ⟨hword, -, hcond, -, hbody⟩ := hts
      simp only [Phrase.Forall, Stmt.subtrees, List.forall_mem_cons, List.forall_mem_append]
      exact ⟨hP _ (.loop hword), ihcond hcond, ihbody hbody⟩
  | ifElse _ _ _ _ _ _ _ ihcond ihyes ihno =>
      simp only [List.cons_append, List.forall_mem_cons, List.forall_mem_append] at hts
      obtain ⟨hword, -, ⟨hcond, -, hyes⟩, -, hno⟩ := hts
      simp only [Phrase.Forall, Stmt.subtrees, List.forall_mem_cons, List.forall_mem_append]
      exact ⟨hP _ (.ifElse hword), ihcond hcond, ihyes hyes, ihno hno⟩
  | exprStatement _ _ ih =>
      rw [List.forall_mem_append] at hts
      simp only [Phrase.Forall, Stmt.subtrees, List.forall_mem_cons]
      exact ⟨hP _ (.exprStatement (List.forall_mem_cons.mp hts.1).1), ih hts.1⟩
  | declare hword hk _ _ _ ih =>
      simp only [List.cons_append, List.forall_mem_cons, List.forall_mem_append] at hts
      obtain ⟨-, hname, -, hinit, -⟩ := hts
      simp only [Phrase.Forall, Stmt.subtrees, List.forall_mem_cons]
      exact ⟨hP _ (.declare hname hk hword), ih hinit⟩
  | declareZero hword hk _ =>
      simp only [List.forall_mem_cons] at hts
      simp only [Phrase.Forall, Stmt.subtrees, List.forall_mem_cons]
      exact ⟨hP _ (.declare hts.2.1 hk hword), fun t ht => hP t (madeOf_zero hword hts.2.1 t ht)⟩
  | function _ hk _ _ _ _ _ _ ihparams ihbody =>
      simp only [List.cons_append, List.forall_mem_cons, List.forall_mem_append] at hts
      obtain ⟨-, hname, -, ⟨hparams, -, -, hbody⟩, -⟩ := hts
      simp only [Phrase.Forall, Stmt.subtrees, List.forall_mem_cons]
      exact ⟨hP _ (.fxn hname hk (ihparams hparams)), ihbody hbody⟩
  | nextDeclaration _ _ ihfirst ihothers =>
      rw [List.forall_mem_append] at hts
      simp only [Phrase.Forall, Stmt.listSubtrees, List.forall_mem_append]
      exact ⟨ihfirst hts.1, ihothers hts.2⟩

/-! ## Offsets -/

/-- What it means for a phrase that its tree has offsets in a set only. A repetition adds only
such offsets to the tree that it starts with. -/
def Phrase.OffsetsIn (inside : Int → Prop) : Phrase → Prop
  | .primary e | .call e | .unary e | .operators _ e | .expression e =>
      ∀ t ∈ e.subtrees, inside t.offset
  | .calls callee e =>
      (∀ t ∈ callee.subtrees, inside t.offset) → ∀ t ∈ e.subtrees, inside t.offset
  | .operatorsAfter _ _ left e =>
      (∀ t ∈ left.subtrees, inside t.offset) → ∀ t ∈ e.subtrees, inside t.offset
  | .expressions es | .arguments es => ∀ t ∈ Expr.listSubtrees es, inside t.offset
  | .names _ | .parameters _ => True
  | .statement s | .declaration s => ∀ t ∈ s.subtrees, inside t.offset
  | .declarations ss => ∀ t ∈ Stmt.listSubtrees ss, inside t.offset

/-- **What the grammar derives has offsets of its tokens only.** -/
theorem Derives.offsets {inside : Int → Prop} {p : Phrase} {ts : List Token} (h : Derives p ts)
    (hts : ∀ t ∈ ts, inside t.offset) : p.OffsetsIn inside := by
  have hall := h.forall_subtrees (fun _ _ => trivial)
    (P := fun t => inside t.offset) (fun t ht => by cases ht <;> assumption) hts
  cases p with
  | operators levels e => exact hall fun _ _ => trivial
  | operatorsAfter tier tighter left e => exact hall fun _ _ => trivial
  | names ns | parameters ns => trivial
  | _ => exact hall

end Grammar

/-- **The parts of a program stand inside its text**, if it is read without errors. -/
theorem Program.offset_inside {text : Text}
    (h : (Program.ofTokens (TokenStream.ofText text).tokens 0).errors = []) :
    ∀ t ∈ Stmt.listSubtrees (Program.ofTokens (TokenStream.ofText text).tokens 0).stmts,
      0 ≤ t.offset ∧ t.offset < (text.length : Int) := by
  obtain ⟨body, ending, htokens, hending, hbody⟩ := TokenStream.ofText_tokens text
  rw [htokens] at h ⊢
  have hderives := (Grammar.derives_of_errors_eq_nil (fun t ht => (hbody t ht).1) hending
    (fun t ht => (hbody t ht).2.1) h).1
  exact @Grammar.Derives.offsets (fun offset => 0 ≤ offset ∧ offset < (text.length : Int)) _ _
    hderives fun t ht => (hbody t ht).2.2

end Badger
