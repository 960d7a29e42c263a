import Badger.Proofs.Listing.Behaviour
import Badger.Proofs.Listing.Layout

/-!
# Names and temporaries in listings

A listing speaks of the variables and functions of the program by their names, and of temporaries
by names that are made up: `t0`, `t1` and so on. Nothing keeps a program from having such names
itself. Then two things are written alike, and a line that sets a temporary sets the variable.

## Main definitions

* `TokenStream.names`: the names that occur in a text
* `Expr.names`, `Stmt.names`: the names in a tree, in the order of the text
* `Expr.temporaries`, `Stmt.temporaries`: how many temporaries a tree takes
* `Entity`: what lines speak of, and `Entity.text`, how it is written
* `Listing.TellsApart`: lines that tell apart what they speak of

## Main statements

* `Grammar.Derives.names`: a tree has the names of its tokens
* `Lower.stmt_speaks`: the instructions for a tree have its names, and take its temporaries
* `Listing.tellsApart_ofText_iff`: **a listing tells apart what it speaks of** if and only if no
  name that occurs in the text is that of one of its temporaries

## Design notes

The names of a tree are in the order of the text, and those of a listing are not: an assignment
comes behind its value, and a declaration names its variable twice. So the names of a listing are
compared as a set.
-/

namespace Badger

/-! ## Names of texts and trees -/

/-- The name that a token is. -/
def Token.name? (t : Token) : Option Text := if t.kind = .ident then some t.lexeme else none

/-- **The names that occur in a text**: of variables, parameters and functions. -/
def TokenStream.names (s : TokenStream) : List Text := s.tokens.filterMap Token.name?

/-- Whether an expression is a name and nothing else. -/
def Expr.isName : Expr → Bool
  | .ident _ _ => true
  | _ => false

mutual

/-- The names in an expression. -/
def Expr.names : Expr → List Text
  | .missing | .num _ _ | .str _ _ | .bool _ _ => []
  | .ident _ name | .symbol _ name => [name]
  | .unary _ _ operand => operand.names
  | .binary _ _ left right => left.names ++ right.names
  | .group _ inner => inner.names
  | .assign _ name value => name :: value.names
  | .call _ callee args => callee.names ++ Expr.listNames args

/-- The names in some expressions. -/
def Expr.listNames : List Expr → List Text
  | [] => []
  | e :: es => e.names ++ Expr.listNames es

end

mutual

/-- The names in a statement. -/
def Stmt.names : Stmt → List Text
  | .missing => []
  | .expr _ e => e.names
  | .ret _ value => value.names
  | .block _ body => Stmt.listNames body
  | .declare _ _ name init => name :: init.names
  | .ifThen _ cond yes => cond.names ++ yes.names
  | .ifElse _ cond yes no => cond.names ++ (yes.names ++ no.names)
  | .loop _ cond body => cond.names ++ body.names
  | .fxn _ name params body => name :: (params ++ Stmt.listNames body)

/-- The names in some statements. -/
def Stmt.listNames : List Stmt → List Text
  | [] => []
  | s :: ss => s.names ++ Stmt.listNames ss

end

mutual

/-- **How many temporaries an expression takes**: one for each name that is read, each operator and
each call. A name that is called is not read. -/
def Expr.temporaries : Expr → Nat
  | .missing | .num _ _ | .str _ _ | .bool _ _ => 0
  | .ident _ _ | .symbol _ _ => 1
  | .unary _ _ operand => operand.temporaries + 1
  | .binary _ _ left right => left.temporaries + right.temporaries + 1
  | .group _ inner => inner.temporaries
  | .assign _ _ value => value.temporaries
  | .call _ callee args =>
    (if callee.isName then 0 else callee.temporaries) + Expr.listTemporaries args + 1

/-- How many temporaries some expressions take. -/
def Expr.listTemporaries : List Expr → Nat
  | [] => 0
  | e :: es => e.temporaries + Expr.listTemporaries es

end

mutual

/-- **How many temporaries a statement takes.** -/
def Stmt.temporaries : Stmt → Nat
  | .missing => 0
  | .expr _ e => e.temporaries
  | .ret _ value => value.temporaries
  | .block _ body => Stmt.listTemporaries body
  | .declare _ _ _ init => init.temporaries
  | .ifThen _ cond yes => cond.temporaries + yes.temporaries
  | .ifElse _ cond yes no => cond.temporaries + (yes.temporaries + no.temporaries)
  | .loop _ cond body => cond.temporaries + body.temporaries
  | .fxn _ _ _ body => Stmt.listTemporaries body

/-- How many temporaries some statements take. -/
def Stmt.listTemporaries : List Stmt → Nat
  | [] => 0
  | s :: ss => s.temporaries + Stmt.listTemporaries ss

end

namespace Grammar

/-- What it means for a phrase that its tree has some names. A repetition adds them to those of the
tree that it starts with. -/
def Phrase.HasNames (names : List Text) : Phrase → Prop
  | .primary e | .call e | .unary e | .expression e => e.names = names
  | .operators levels e => (∀ tier ∈ levels, tier ∈ tiers) → e.names = names
  | .calls callee e => e.names = callee.names ++ names
  | .operatorsAfter tier tighter left e =>
      (∀ level ∈ tier :: tighter, level ∈ tiers) → e.names = left.names ++ names
  | .expressions es | .arguments es => Expr.listNames es = names
  | .names ns | .parameters ns => ns = names
  | .statement s | .declaration s => s.names = names
  | .declarations ss => Stmt.listNames ss = names

/-- **What the grammar derives has the names of its tokens**, in their order. -/
theorem Derives.names {p : Phrase} {ts : List Token} (h : Derives p ts) :
    p.HasNames (ts.filterMap Token.name?) := by
  have hunary : ∀ op ∈ unaryOps, op.1 ≠ .ident := by decide
  have hbinary : ∀ tier ∈ tiers, ∀ op ∈ tier, op.1 ≠ .ident := by decide
  have htype : ∀ {kind : TokenKind} {type : DeclaredType} {zero : Int → Expr},
      (kind, type, zero) ∈ typeWords → kind ≠ .ident ∧ ∀ pos, (zero pos).names = [] := by
    intro kind type zero hword
    simp only [typeWords, List.mem_cons, Prod.mk.injEq, List.not_mem_nil, or_false] at hword
    rcases hword with ⟨rfl, -, rfl⟩ | ⟨rfl, -, rfl⟩ | ⟨rfl, -, rfl⟩ | ⟨rfl, -, rfl⟩
    all_goals exact ⟨by decide, fun _ => rfl⟩
  induction h with
  | falseWord ht | trueWord ht | number ht | string ht =>
      simp [Phrase.HasNames, Expr.names, Token.name?, ht]
  | ident ht => simp [Phrase.HasNames, Expr.names, Token.name?, ht]
  | symbol ht hname => simp [Phrase.HasNames, Expr.names, Token.name?, ht, hname]
  | group ho _ hc ih => simpa [Phrase.HasNames, Expr.names, Token.name?, ho, hc] using ih
  | noCall | noOperator => simp [Phrase.HasNames]
  | noArguments | noParameters | noDeclaration => rfl
  | oneCall ho _ hc _ ihargs ihmore =>
      simp only [Phrase.HasNames, Expr.names] at ihargs ihmore ⊢
      simp [ihmore, ihargs, Token.name?, ho, hc]
  | call _ _ ihcallee ihcalls =>
      simp only [Phrase.HasNames] at ihcallee ihcalls ⊢
      rw [ihcalls, ihcallee, List.filterMap_append]
  | unaryOp hop _ ih => simpa [Phrase.HasNames, Expr.names, Token.name?, hunary _ hop] using ih
  | unaryCall _ ih | someArguments _ ih | someParameters _ ih | statement _ ih => exact ih
  | tightest _ ih => exact fun _ => ih
  | tier _ _ ihleft ihmore =>
      intro hlevels
      rw [List.filterMap_append, ihmore hlevels, ihleft (List.forall_mem_cons.mp hlevels).2]
  | oneOperator hop _ _ ihright ihmore =>
      intro hlevels
      have hlevels' := List.forall_mem_cons.mp hlevels
      rw [ihmore hlevels, Expr.names, ihright hlevels'.2]
      simp [Token.name?, hbinary _ hlevels'.1 _ hop]
  | assign hname heq _ ih => simpa [Phrase.HasNames, Expr.names, Token.name?, hname, heq] using ih
  | operators _ ih => exact ih fun _ => id
  | lastExpression _ ih => simpa [Phrase.HasNames, Expr.listNames] using ih
  | nextExpression _ hcomma _ ihfirst ihothers =>
      simp only [Phrase.HasNames, Expr.listNames] at ihfirst ihothers ⊢
      simp [ihfirst, ihothers, Token.name?, hcomma]
  | lastName hn => simp [Phrase.HasNames, Token.name?, hn]
  | nextName hn hcomma _ ih => simpa [Phrase.HasNames, Token.name?, hn, hcomma] using ih
  | ret hword _ hsemi ih => simpa [Phrase.HasNames, Stmt.names, Token.name?, hword, hsemi] using ih
  | block ho _ hc ih => simpa [Phrase.HasNames, Stmt.names, Token.name?, ho, hc] using ih
  | ifThen hword ho _ hc _ ihcond ihyes | loop hword ho _ hc _ ihcond ihyes =>
      simp only [Phrase.HasNames, Stmt.names] at ihcond ihyes ⊢
      simp [ihcond, ihyes, Token.name?, hword, ho, hc]
  | ifElse hword ho _ hc _ hother _ ihcond ihyes ihno =>
      simp only [Phrase.HasNames, Stmt.names] at ihcond ihyes ihno ⊢
      simp [ihcond, ihyes, ihno, Token.name?, hword, ho, hc, hother]
  | exprStatement _ hsemi ih =>
      rw [List.filterMap_append]
      simpa [Phrase.HasNames, Stmt.names, Token.name?, hsemi] using ih
  | declare hword hname heq _ hsemi ih =>
      simpa [Phrase.HasNames, Stmt.names, Token.name?, (htype hword).1, hname, heq, hsemi] using ih
  | declareZero hword hname hsemi =>
      simp [Phrase.HasNames, Stmt.names, Token.name?, htype hword, hname, hsemi]
  | function hword hname ho _ hc hbrace _ hending ihparams ihbody =>
      simp only [Phrase.HasNames, Stmt.names] at ihparams ihbody ⊢
      simp [ihparams, ihbody, Token.name?, hword, hname, ho, hc, hbrace, hending]
  | nextDeclaration _ _ ihfirst ihothers =>
      simp only [Phrase.HasNames, Stmt.listNames] at ihfirst ihothers ⊢
      rw [ihfirst, ihothers, List.filterMap_append]

end Grammar

/-! ## Names of lines -/

/-- The names of the program on a line. -/
def Instr.names : Instr → List Text
  | .load _ name | .store name _ | .declare name | .func name | .arg name => [name]
  | .call _ (.named name) _ => [name]
  | _ => []

namespace Listing

/-- The names of the program in some lines. -/
def names (code : List Instr) : List Text := code.flatMap Instr.names

@[simp] theorem names_nil : names [] = [] := rfl

@[simp] theorem names_cons (i : Instr) (code : List Instr) :
    names (i :: code) = i.names ++ names code := rfl

@[simp] theorem names_append (code more : List Instr) :
    names (code ++ more) = names code ++ names more :=
  List.flatMap_append

/-- Arguments are operands, and so have no names. -/
@[simp] theorem names_params (vs : List Operand) : names (vs.map .param) = [] := by
  simp [names, List.flatMap_map, Instr.names]

@[simp] theorem names_args (params : List Text) : names (params.map .arg) = params := by
  simp [names, List.flatMap_map, Instr.names]

end Listing

namespace Lower

open Listing

/-- Instructions with some names, for which so many temporaries were taken. -/
structure Speaks (k k' : Fresh) (code : List Instr) (names : List Text) (count : Nat) :
    Prop where
  names : ∀ name, name ∈ Listing.names code ↔ name ∈ names
  temp : k'.temp = k.temp + count

mutual

/-- **The instructions for an expression** have its names, and take its temporaries. -/
theorem expr_speaks (e : Expr) {k k' : Fresh} {o : Operand} {code : List Instr}
    (h : expr e k = .ok (o, code, k')) : Speaks k k' code e.names e.temporaries := by
  cases e with
  | missing => cases h
  | num _ _ | str _ _ | bool _ _ =>
      cases h
      exact ⟨fun _ => Iff.rfl, rfl⟩
  | ident _ name | symbol _ name =>
      cases h
      exact ⟨fun _ => Iff.rfl, rfl⟩
  | group _ inner => exact expr_speaks inner h
  | assign _ name value =>
      obtain ⟨c, hc, rfl⟩ := expr_assign h
      obtain ⟨hnames, htemp⟩ := expr_speaks value hc
      exact ⟨by simp [Expr.names, Instr.names, hnames, or_comm], htemp⟩
  | unary _ op operand =>
      obtain ⟨v, c, k₁, hc, -, rfl, rfl, rfl⟩ := expr_unary h
      obtain ⟨hnames, htemp⟩ := expr_speaks operand hc
      exact ⟨by simp [Expr.names, Instr.names, hnames], congrArg Nat.succ htemp⟩
  | binary _ op left right =>
      obtain ⟨v, c, k₁, v', c', k₂, hc, hc', -, rfl, rfl, rfl⟩ := expr_binary h
      obtain ⟨hnames, htemp⟩ := expr_speaks left hc
      obtain ⟨hnames', htemp'⟩ := expr_speaks right hc'
      refine ⟨by simp [Expr.names, Instr.names, hnames, hnames'], ?_⟩
      show k₂.temp + 1 = _
      rw [htemp', htemp, Expr.temporaries]
      omega
  | call _ callee arguments =>
      obtain ⟨f, c, k₁, vs, c', k₂, hf, hc', rfl, rfl, rfl⟩ := expr_call h
      obtain ⟨hnames', htemp'⟩ := args_speaks arguments hc'
      cases hf with
      | named pos name =>
          refine ⟨by simp [Expr.names, Instr.names, hnames', or_comm], ?_⟩
          show k₂.temp + 1 = _
          rw [htemp', Expr.temporaries, Expr.isName, if_pos rfl]
          omega
      | computed hc hname =>
          obtain ⟨hnames, htemp⟩ := expr_speaks callee hc
          have hisName : callee.isName = false := by
            cases callee <;> first | rfl | exact absurd rfl (hname _ _)
          refine ⟨by simp [Expr.names, Instr.names, hnames, hnames'], ?_⟩
          show k₂.temp + 1 = _
          rw [htemp', htemp, Expr.temporaries, hisName, if_neg Bool.false_ne_true]
          omega

/-- The instructions for arguments have their names, and take their temporaries. -/
theorem args_speaks (es : List Expr) {k k' : Fresh} {vs : List Operand} {code : List Instr}
    (h : args es k = .ok (vs, code, k')) :
    Speaks k k' code (Expr.listNames es) (Expr.listTemporaries es) := by
  cases es with
  | nil =>
      cases h
      exact ⟨fun _ => Iff.rfl, rfl⟩
  | cons e es =>
      obtain ⟨v, c, k₁, vs', c', hc, hc', rfl, rfl⟩ := args_cons h
      obtain ⟨hnames, htemp⟩ := expr_speaks e hc
      obtain ⟨hnames', htemp'⟩ := args_speaks es hc'
      refine ⟨by simp [Expr.listNames, hnames, hnames'], ?_⟩
      rw [htemp', htemp, Expr.listTemporaries, Nat.add_assoc]

end

mutual

/-- **The instructions for a statement** have its names, and take its temporaries. -/
theorem stmt_speaks (s : Stmt) {inside : Bool} {k k' : Fresh} {u : Unit} {code : List Instr}
    (h : stmt inside s k = .ok (u, code, k')) : Speaks k k' code s.names s.temporaries := by
  cases s with
  | missing => cases h
  | expr _ e =>
      obtain ⟨o, hc⟩ := stmt_expr h
      exact expr_speaks e hc
  | ret _ value =>
      obtain ⟨o, c, hc, rfl⟩ := stmt_ret h
      obtain ⟨hnames, htemp⟩ := expr_speaks value hc
      exact ⟨by simp [Stmt.names, Instr.names, hnames], htemp⟩
  | declare _ _ name init =>
      obtain ⟨o, c, hc, rfl⟩ := stmt_declare h
      obtain ⟨hnames, htemp⟩ := expr_speaks init hc
      exact ⟨by simp [Stmt.names, Instr.names, hnames, or_comm], htemp⟩
  | block _ body => exact stmts_speaks body h
  | ifThen _ cond yes =>
      obtain ⟨o, c, k₁, c', hc, hc', rfl⟩ := stmt_ifThen h
      obtain ⟨hnames, htemp⟩ := expr_speaks cond hc
      obtain ⟨hnames', htemp'⟩ := stmt_speaks yes hc'
      refine ⟨by simp [Stmt.names, Instr.names, hnames, hnames'], ?_⟩
      rw [htemp', Stmt.temporaries, ← Nat.add_assoc, ← htemp]
  | ifElse _ cond yes no =>
      obtain ⟨o, c, k₁, c', k₂, c'', hc, hc', hc'', rfl⟩ := stmt_ifElse h
      obtain ⟨hnames, htemp⟩ := expr_speaks cond hc
      obtain ⟨hnames', htemp'⟩ := stmt_speaks yes hc'
      obtain ⟨hnames'', htemp''⟩ := stmt_speaks no hc''
      refine ⟨by simp [Stmt.names, Instr.names, hnames, hnames', hnames''], ?_⟩
      rw [htemp'', Stmt.temporaries, ← Nat.add_assoc, ← Nat.add_assoc, ← htemp, ← htemp']
  | loop _ cond body =>
      obtain ⟨o, c, k₁, c', hc, hc', rfl⟩ := stmt_loop h
      obtain ⟨hnames, htemp⟩ := expr_speaks cond hc
      obtain ⟨hnames', htemp'⟩ := stmt_speaks body hc'
      refine ⟨by simp [Stmt.names, Instr.names, hnames, hnames'], ?_⟩
      rw [htemp', htemp, Stmt.temporaries, Nat.add_assoc]
  | fxn _ name params body =>
      obtain ⟨rfl, c, hc, rfl⟩ := stmt_fxn h
      obtain ⟨hnames, htemp⟩ := stmts_speaks body hc
      exact ⟨by simp [Stmt.names, Instr.names, hnames], htemp⟩

/-- The instructions for statements have their names, and take their temporaries. -/
theorem stmts_speaks (ss : List Stmt) {inside : Bool} {k k' : Fresh} {u : Unit}
    {code : List Instr} (h : stmts inside ss k = .ok (u, code, k')) :
    Speaks k k' code (Stmt.listNames ss) (Stmt.listTemporaries ss) := by
  cases ss with
  | nil =>
      cases h
      exact ⟨fun _ => Iff.rfl, rfl⟩
  | cons s ss =>
      cases hs : s.isMissing with
      | true =>
          obtain rfl : s = .missing := by cases s <;> first | rfl | cases hs
          obtain ⟨hnames, htemp⟩ := stmts_speaks ss h
          exact ⟨hnames, by rw [htemp, Stmt.listTemporaries, Stmt.temporaries, Nat.zero_add]⟩
      | false =>
          obtain ⟨c, k₁, c', hc, hc', rfl⟩ := stmts_cons hs h
          obtain ⟨hnames, htemp⟩ := stmt_speaks s hc
          obtain ⟨hnames', htemp'⟩ := stmts_speaks ss hc'
          refine ⟨by simp [Stmt.listNames, hnames, hnames'], ?_⟩
          rw [htemp', htemp, Stmt.listTemporaries, Nat.add_assoc]

end

end Lower

/-! ## What lines speak of -/

/-- **What a line speaks of**: a variable or a function of the program, or a temporary. -/
inductive Entity where
  | named (name : Text)
  | temp (n : Nat)
deriving DecidableEq

/-- How it is written. -/
def Entity.text : Entity → Text
  | .named name => name
  | .temp n => tempName n

theorem tempName_inj {n m : Nat} (h : tempName n = tempName m) : n = m := by
  have hnumber := congrArg tempNumber? h
  rw [tempNumber?_tempName, tempNumber?_tempName] at hnumber
  exact Option.some.inj hnumber

namespace Listing

/-- The temporaries that some lines define or use. -/
def temporaries (code : List Instr) : List Nat :=
  code.filterMap Instr.dest? ++ code.flatMap Instr.uses

/-- Everything that some lines speak of. -/
def entities (code : List Instr) : List Entity :=
  (names code).map .named ++ (temporaries code).map .temp

/-- **Lines that tell apart what they speak of** by how it is written. -/
def TellsApart (code : List Instr) : Prop :=
  ∀ x ∈ entities code, ∀ y ∈ entities code, x.text = y.text → x = y

/-- Names tell themselves apart, and so do temporaries. -/
theorem tellsApart_iff {code : List Instr} :
    TellsApart code ↔ ∀ n ∈ temporaries code, tempName n ∉ names code := by
  constructor
  · intro h n hn hname
    have htemp : Entity.temp n ∈ entities code :=
      List.mem_append_right _ (List.mem_map_of_mem hn)
    have hnamed : Entity.named (tempName n) ∈ entities code :=
      List.mem_append_left _ (List.mem_map_of_mem hname)
    cases h _ htemp _ hnamed rfl
  · intro h x hx y hy htext
    simp only [entities, List.mem_append, List.mem_map] at hx hy
    rcases hx with ⟨name, hname, rfl⟩ | ⟨n, hn, rfl⟩
    · rcases hy with ⟨name', -, rfl⟩ | ⟨n, hn, rfl⟩
      · exact congrArg Entity.named htext
      · have hsame : name = tempName n := htext
        exact absurd (hsame ▸ hname) (h n hn)
    · rcases hy with ⟨name, hname, rfl⟩ | ⟨m, -, rfl⟩
      · have hsame : tempName n = name := htext
        exact absurd (hsame ▸ hname) (h n hn)
      · exact congrArg Entity.temp (tempName_inj htext)

/-- The temporaries of a well-formed listing are those that were taken. -/
theorem WellFormed.mem_temporaries_iff {k : Fresh} {code : List Instr} (h : WellFormed k code)
    (n : Nat) : n ∈ temporaries code ↔ n < k.temp := by
  rw [← List.mem_range, ← h.temps, temporaries, List.mem_append]
  refine ⟨fun hn => ?_, .inl⟩
  rcases hn with hn | hn
  · exact hn
  · obtain ⟨i, hi, huses⟩ := List.mem_flatMap.mp hn
    obtain ⟨before, after, rfl⟩ := List.append_of_mem hi
    rw [List.filterMap_append]
    exact List.mem_append_left _ (h.uses before i after rfl n huses).mem

/-- **When temporaries capture names of the program.** A listing speaks of the names that occur in
the text, and of the temporaries `t0`, `t1` and so on, one for each name that is read, each operator
and each call. It tells them apart if and only if none of these temporaries is written like a name
that occurs in the text. -/
theorem tellsApart_ofText_iff {strict : Bool} {text : Text} {stmts : List Stmt}
    {stream : TokenStream} {code : List Instr}
    (hread : Session.readChunk strict text = .ok (stmts, stream))
    (hcode : ofStmts stmts stream.lines = .ok code) :
    (∀ name, name ∈ names code ↔ name ∈ stream.names) ∧
      (∀ n, n ∈ temporaries code ↔ n < Stmt.listTemporaries stmts) ∧
      (TellsApart code ↔ ∀ n < Stmt.listTemporaries stmts, tempName n ∉ stream.names) := by
  obtain ⟨body, ending, htokens, hending, -, hderives, -⟩ := Session.derives_of_readChunk hread
  have htree : Stmt.listNames stmts = stream.names := by
    have hnames : Stmt.listNames stmts = body.filterMap Token.name? := hderives.names
    have hlast : ending.name? = none := by simp [Token.name?, hending]
    rw [hnames, TokenStream.names, htokens, List.filterMap_append]
    simp [hlast]
  obtain ⟨k, hprogram⟩ := program_of_ofStmts hcode
  have hwell := wellFormed_of_program hprogram
  rw [program, Emit.bind_eq_ok] at hprogram
  obtain ⟨_, c, _, k₁, hbody, hstop, rfl⟩ := hprogram
  cases hstop
  have hspeaks := Lower.stmts_speaks stmts hbody
  have htemp : k.temp = Stmt.listTemporaries stmts := by rw [hspeaks.temp, Nat.zero_add]
  have hnames : ∀ name, name ∈ names (c ++ [.stop]) ↔ name ∈ stream.names := by
    intro name
    rw [← htree, ← hspeaks.names]
    simp [Instr.names]
  have htemps : ∀ n, n ∈ temporaries (c ++ [.stop]) ↔ n < Stmt.listTemporaries stmts := by
    intro n
    rw [hwell.mem_temporaries_iff, htemp]
  refine ⟨hnames, htemps, ?_⟩
  rw [tellsApart_iff]
  simp only [htemps, hnames]

/-- Four temporaries leave room for a variable `t4`. -/
theorem tellsApart_ofText_t4 :
    let text := utf8 "num x = 1; num t4 = 2; println(x + t4);"
    ∃ stmts stream code, Session.readChunk false text = .ok (stmts, stream) ∧
      ofStmts stmts stream.lines = .ok code ∧ TellsApart code ∧ tempName 4 ∈ names code := by
  intro text
  let test (stmts : List Stmt) (stream : TokenStream) : Bool :=
    (ofStmts stmts stream.lines).toBool && decide (tempName 4 ∈ stream.names ∧
      ∀ n < Stmt.listTemporaries stmts, tempName n ∉ stream.names)
  obtain ⟨stmts, stream, hread, htest⟩ := Session.readChunk_of_test
    (by decide +kernel :
      ((Session.readChunk false text).toOption.map fun p => test p.1 p.2) = some true)
  obtain ⟨hcode, htemps⟩ := Bool.and_eq_true_iff.mp htest
  obtain ⟨code, hcode⟩ := Session.exists_ok hcode
  obtain ⟨hfour, hapart⟩ := of_decide_eq_true htemps
  obtain ⟨hnames, -, htells⟩ := tellsApart_ofText_iff hread hcode
  exact ⟨stmts, stream, code, hread, hcode, htells.mpr hapart, (hnames _).mpr hfour⟩

/-- **A variable `t0` is captured** by the first temporary: the fourth line sets the variable, the
fifth line the temporary, and the sixth line is to read the variable again. The program writes the
sum of 1 and 2. -/
theorem temporary_captures_t0 :
    let text := utf8 "num x = 1; num t0 = 2; println(x + t0);"
    (∃ stmts stream code, Session.readChunk false text = .ok (stmts, stream) ∧
      ofStmts stmts stream.lines = .ok code ∧ 0 ∈ temporaries code ∧ tempName 0 ∈ stream.names) ∧
    Session.listing? false text = some [utf8 "new x", utf8 "x = 1", utf8 "new t0", utf8 "t0 = 2",
      utf8 "t0 = x", utf8 "t1 = t0", utf8 "t2 = t0 + t1", utf8 "param t2",
      utf8 "t3 = call println, 1", utf8 "end"] ∧
    Session.written? 60 text = some (utf8 "3\n") := by
  intro text
  refine ⟨?_, by decide +kernel, by decide +kernel⟩
  let test (stmts : List Stmt) (stream : TokenStream) : Bool :=
    (ofStmts stmts stream.lines).toOption.any fun code =>
      decide (0 ∈ temporaries code ∧ tempName 0 ∈ stream.names)
  obtain ⟨stmts, stream, hread, htest⟩ := Session.readChunk_of_test
    (by decide +kernel :
      ((Session.readChunk false text).toOption.map fun p => test p.1 p.2) = some true)
  cases hcode : ofStmts stmts stream.lines with
  | error d =>
      simp only [test, hcode] at htest
      cases htest
  | ok code =>
      simp only [test, hcode] at htest
      obtain ⟨htemp, hname⟩ := of_decide_eq_true htest
      exact ⟨stmts, stream, code, hread, hcode, htemp, hname⟩

end Listing

end Badger
