import Badger.Proofs.Grammar.Completeness
import Badger.Proofs.Grammar.Soundness

/-!
# The parser accepts its grammar

Reading a program records no error exactly if the grammar derives its tokens, and the program
read is then the only one that the grammar derives with every `else` at the nearest conditional.

## Main statements

* `Derives.exists_elseNearest`: what the grammar derives at all, it derives with every `else`
  at the nearest conditional
* `ofTokens_errors_iff_derives`: reading agrees with the grammar

## Design notes

The grammar is ambiguous and the parser is not, so accepting every derivable token list needs
an argument: an `else` that a derivation gives to an outer conditional, although an inner one is
still open, is moved to the inner one.
-/

namespace Badger.Grammar

open Badger.Parser Recovering

/-! ## Moving an `else` to the nearest conditional -/

/-- **An open conditional takes an `else`.** If a statement ends in a conditional that is still
open, an `else` after it can be read into the statement. -/
theorem Derives.takeElse {p : Phrase} {ts us : List Token} {other : Token} {no : Stmt}
    (h : Derives p ts) (hother : other.kind = .elseWord) (hno : Derives (.statement no) us)
    (hnoNearest : no.elseNearest = true) :
    match p with
    | .statement s => s.elseNearest = true → s.endsOpen = true →
        ∃ s', Derives (.statement s') (ts ++ other :: us) ∧ s'.elseNearest = true
    | _ => True := by
  induction h with
  | @ifThen word opening closing cond yes ts us' hword ho hcond hc hyes _ ih =>
      intro hnearest _
      by_cases hopen : yes.endsOpen = true
      · obtain ⟨yes', hyes', hnearest'⟩ := ih hnearest hopen
        refine ⟨.ifThen word.offset cond yes', ?_, hnearest'⟩
        have hderives := Derives.ifThen hword ho hcond hc hyes'
        simpa using hderives
      · refine ⟨.ifElse word.offset cond yes no,
          .ifElse hword ho hcond hc hyes hother hno, ?_⟩
        have hyesNearest : yes.elseNearest = true := hnearest
        simp [Stmt.elseNearest, hopen, hyesNearest, hnoNearest]
  | @ifElse word opening closing other' cond yes no' ts us' vs hword ho hcond hc hyes hother' _ _
      _ ih =>
      intro hnearest hopen
      simp only [Stmt.elseNearest, Bool.and_eq_true] at hnearest
      obtain ⟨no'', hno'', hnearest''⟩ := ih hnearest.2 hopen
      refine ⟨.ifElse word.offset cond yes no'', ?_, ?_⟩
      · have hderives := Derives.ifElse hword ho hcond hc hyes hother' hno''
        simpa using hderives
      · simp only [Stmt.elseNearest, hnearest.1.1, hnearest.1.2, hnearest'', Bool.and_self]
  | @loop word opening closing cond body ts us' hword ho hcond hc _ _ ih =>
      intro hnearest hopen
      obtain ⟨body', hbody', hnearest'⟩ := ih hnearest hopen
      refine ⟨.loop word.offset cond body', ?_, hnearest'⟩
      have hderives := Derives.loop hword ho hcond hc hbody'
      simpa using hderives
  | ret | block | exprStatement => exact fun _ hopen => absurd hopen (by simp [Stmt.endsOpen])
  | _ => trivial

/-- **Every derivable token list has a derivation with every `else` at the nearest
conditional.** -/
theorem Derives.exists_elseNearest {p : Phrase} {ts : List Token} (h : Derives p ts) :
    match p with
    | .statement _ => ∃ s, Derives (.statement s) ts ∧ s.elseNearest = true
    | .declaration _ => ∃ s, Derives (.declaration s) ts ∧ s.elseNearest = true
    | .declarations _ => ∃ ss, Derives (.declarations ss) ts ∧ Stmt.elsesNearest ss = true
    | _ => True := by
  induction h with
  | ret hword hvalue hsemi => exact ⟨_, .ret hword hvalue hsemi, rfl⟩
  | exprStatement he hsemi => exact ⟨_, .exprStatement he hsemi, rfl⟩
  | block ho _ hc ih =>
      obtain ⟨body, hbody, hnearest⟩ := ih
      exact ⟨_, .block ho hbody hc, hnearest⟩
  | ifThen hword ho hcond hc _ _ ih =>
      obtain ⟨yes, hyes, hnearest⟩ := ih
      exact ⟨_, .ifThen hword ho hcond hc hyes, hnearest⟩
  | @ifElse word opening closing other cond _ _ ts us vs hword ho hcond hc _ hother _ _ ihyes
      ihno =>
      obtain ⟨yes, hyes, hyesNearest⟩ := ihyes
      obtain ⟨no, hno, hnoNearest⟩ := ihno
      by_cases hopen : yes.endsOpen = true
      · -- the `else` goes to a conditional inside `yes`, and the outer one is left without
        obtain ⟨yes', hyes', hnearest⟩ :=
          hyes.takeElse hother hno hnoNearest hyesNearest hopen
        refine ⟨.ifThen word.offset cond yes', ?_, hnearest⟩
        have hderives := Derives.ifThen hword ho hcond hc hyes'
        simpa using hderives
      · refine ⟨_, .ifElse hword ho hcond hc hyes hother hno, ?_⟩
        simp [Stmt.elseNearest, hopen, hyesNearest, hnoNearest]
  | loop hword ho hcond hc _ _ ih =>
      obtain ⟨body, hbody, hnearest⟩ := ih
      exact ⟨_, .loop hword ho hcond hc hbody, hnearest⟩
  | declare hword hname heq hinit hsemi =>
      exact ⟨_, .declare hword hname heq hinit hsemi, rfl⟩
  | declareZero hword hname hsemi => exact ⟨_, .declareZero hword hname hsemi, rfl⟩
  | function hword hname ho hparams hc hbrace _ hending _ ih =>
      obtain ⟨body, hbody, hnearest⟩ := ih
      exact ⟨_, .function hword hname ho hparams hc hbrace hbody hending, hnearest⟩
  | statement _ ih =>
      obtain ⟨s, hs, hnearest⟩ := ih
      exact ⟨s, .statement hs, hnearest⟩
  | noDeclaration => exact ⟨[], .noDeclaration, rfl⟩
  | nextDeclaration _ _ ihs ihss =>
      obtain ⟨s, hs, hnearest⟩ := ihs
      obtain ⟨ss, hss, hrest⟩ := ihss
      refine ⟨s :: ss, .nextDeclaration hs hss, ?_⟩
      simp only [Stmt.elsesNearest, hnearest, hrest, Bool.and_self]
  | _ => trivial

/-! ## Whole programs -/

/-- Whether the operators of a phrase are operators of the language. -/
def Phrase.IsTiered : Phrase → Prop
  | .operators levels _ => levels <:+ tiers
  | .operatorsAfter level tighter _ _ => level :: tighter <:+ tiers
  | _ => True

private theorem binary_ne_eof {level : Tier} {tighter : List Tier} {kind : TokenKind}
    {o : BinaryOp} (hlevels : level :: tighter <:+ tiers) (ho : (kind, o) ∈ level) :
    kind ≠ .eof := by
  have hall : ∀ level ∈ tiers, ∀ op ∈ level, op.1 ≠ .eof := by decide
  exact hall level (hlevels.subset List.mem_cons_self) _ ho

private theorem unary_ne_eof {kind : TokenKind} {o : UnaryOp} (ho : (kind, o) ∈ unaryOps) :
    kind ≠ .eof := by
  have hall : ∀ op ∈ unaryOps, op.1 ≠ .eof := by decide
  exact hall _ ho

private theorem type_ne_eof {kind : TokenKind} {type : DeclaredType} {zero : Int → Expr}
    (h : (kind, type, zero) ∈ typeWords) : kind ≠ .eof := by
  rintro rfl
  exact absurd (isType_of_typeWord h) (by decide)

/-- **No derivation passes over an end token.** -/
theorem Derives.kind_ne_eof {p : Phrase} {ts : List Token} (h : Derives p ts)
    (hp : p.IsTiered) : ∀ t ∈ ts, t.kind ≠ .eof := by
  induction h with
  | unaryOp hop _ ih =>
      simp only [List.forall_mem_cons]
      exact ⟨unary_ne_eof hop, ih trivial⟩
  | tier _ _ ihleft ihmore =>
      rw [List.forall_mem_append]
      exact ⟨ihleft ((List.suffix_cons _ _).trans hp), ihmore hp⟩
  | oneOperator hop _ _ ihright ihmore =>
      rw [List.cons_append, List.forall_mem_cons, List.forall_mem_append]
      exact ⟨binary_ne_eof hp hop, ihright ((List.suffix_cons _ _).trans hp), ihmore hp⟩
  | operators _ ih => exact ih List.suffix_rfl
  | tightest _ ih => exact ih trivial
  | declare hword hname heq _ hsemi ih =>
      have hinit := ih trivial
      have hne := type_ne_eof hword
      simp_all [or_imp]
  | declareZero hword hname hsemi =>
      have hne := type_ne_eof hword
      simp_all
  | _ => simp_all [Phrase.IsTiered, or_imp, forall_and]

/-- A list of tokens with its end token is read from its start. -/
theorem startAt_zero {body : List Token} {ending : Token} (hending : ending.kind = .eof) :
    startAt (body ++ [ending]) 0 = body ++ [ending] := by
  have hcomplete : complete (body ++ [ending]) = body ++ [ending] := by
    simp [complete, hending]
  have hinside : ¬((body.length : Int) + 1 ≤ 0) := by omega
  simp [startAt, hcomplete, hinside]

/-- Every program is read to an end, whatever is recorded on the way. -/
theorem program_ok (ts : List Token) :
    ∃ stmts rest errors, Parser.program ts = (.ok stmts rest, errors) ∧
      (current rest).kind = .eof := by
  have hend := declarations_meets_end (budget ts) ts
  unfold Parser.program
  rcases hresult : declarations (budget ts) ts with ⟨_ | _ | _, errors⟩
  all_goals rw [hresult] at hend
  · exact ⟨_, _, _, rfl, hend.2⟩
  · exact hend.elim
  · have hbudget : budget ts < 16 * ts.length + 12 := hend
    simp only [budget] at hbudget
    omega

theorem ofTokens_eq {ts rest : List Token} {start : Int} {stmts : List Stmt}
    {errors : List Finding} (h : Parser.program (startAt ts start) = (.ok stmts rest, errors)) :
    Program.ofTokens ts start = ⟨stmts, errors⟩ := by
  rw [Program.ofTokens, h]

/-- **A program is what its declarations are read to be**, up to an end token. -/
theorem ofTokens_meets {ts body : List Token} {ending : Token} (hts : ts = body ++ [ending])
    (hending : ending.kind = .eof) {ok : List Stmt → List Token → List Finding → Prop}
    {fail : Finding → List Token → List Finding → Prop} {out : Prop}
    (h : Recovering.Meets (Recovering.declarations (budget ts) ts) ok fail out) :
    ∃ rest, ok (Program.ofTokens ts 0).stmts rest (Program.ofTokens ts 0).errors ∧
      (current rest).kind = .eof := by
  subst hts
  obtain ⟨stmts, rest, errors, hprogram, hend⟩ := program_ok (body ++ [ending])
  rw [ofTokens_eq (startAt_zero hending ▸ hprogram)]
  rw [Parser.program] at hprogram
  rw [hprogram] at h
  exact ⟨rest, h, hend⟩

/-- A derivation that stops at an end token stops at the first one. -/
theorem eq_body_of_append {body read rest : List Token} {ending : Token} {stmts : List Stmt}
    (hbody : ∀ t ∈ body, t.kind ≠ .eof) (hending : ending.kind = .eof)
    (hderives : Derives (.declarations stmts) read) (hend : (current rest).kind = .eof)
    (hread : body ++ [ending] = read ++ rest) : read = body := by
  rcases List.append_eq_append_iff.mp hread with ⟨more, rfl, hmore⟩ | ⟨more, rfl, rfl⟩
  · cases more with
    | nil => exact List.append_nil body
    | cons t more =>
        obtain ⟨rfl, -⟩ := List.cons.inj hmore
        exact absurd hending (hderives.kind_ne_eof trivial _ (by simp))
  · cases more with
    | nil => exact (List.append_nil read).symm
    | cons t more => exact absurd hend (hbody t (by simp))

section

variable {body : List Token} {ending : Token} (hbody : ∀ t ∈ body, t.kind ≠ .eof)
  (hending : ending.kind = .eof) (hspelled : ∀ t ∈ body, t.Spelled)

include hending hspelled

/-- A derivation with every `else` at the nearest conditional is the program read. -/
theorem ofTokens_eq_of_derives {stmts : List Stmt} (h : Derives (.declarations stmts) body)
    (hnearest : Stmt.elsesNearest stmts = true) :
    Program.ofTokens (body ++ [ending]) 0 = ⟨stmts, []⟩ := by
  have hyields := h.declarations_yields hspelled hnearest
    (show (current [ending]).kind = .eof from hending) (budget (body ++ [ending]))
  obtain ⟨-, ⟨hstmts, -, herrors⟩, -⟩ := ofTokens_meets rfl hending hyields
  rw [← hstmts, ← herrors]

include hbody in
/-- A program that is read without errors is derived by the grammar. -/
theorem derives_of_errors_eq_nil
    (herrors : (Program.ofTokens (body ++ [ending]) 0).errors = []) :
    Derives (.declarations (Program.ofTokens (body ++ [ending]) 0).stmts) body ∧
      Stmt.elsesNearest (Program.ofTokens (body ++ [ending]) 0).stmts = true := by
  have hsound := declarations_sound (budget (body ++ [ending]))
    (Token.forall_spelled_append hending hspelled)
  obtain ⟨rest, hclean, hend⟩ := ofTokens_meets rfl hending hsound
  obtain ⟨-, ⟨read, hread, hderives⟩, hnearest⟩ := hclean herrors
  exact ⟨eq_body_of_append hbody hending hderives hend hread ▸ hderives, hnearest⟩

end

/-- **The parser accepts exactly its grammar.** A list of tokens is read without errors if and
only if the grammar derives it. What is read then misses no node, is derived by the grammar with
every `else` at the nearest conditional, and is the only program so derived. -/
theorem ofTokens_errors_iff_derives {body : List Token} {ending : Token}
    (hbody : ∀ t ∈ body, t.kind ≠ .eof) (hending : ending.kind = .eof)
    (hspelled : ∀ t ∈ body, t.Spelled) :
    ((Program.ofTokens (body ++ [ending]) 0).errors = [] ↔
      ∃ stmts, Derives (.declarations stmts) body) ∧
    ((Program.ofTokens (body ++ [ending]) 0).errors = [] →
      (∀ s ∈ (Program.ofTokens (body ++ [ending]) 0).stmts, s.isWhole = true) ∧
      Derives (.declarations (Program.ofTokens (body ++ [ending]) 0).stmts) body ∧
      (∀ s ∈ (Program.ofTokens (body ++ [ending]) 0).stmts, s.elseNearest = true) ∧
      ∀ stmts, Derives (.declarations stmts) body → (∀ s ∈ stmts, s.elseNearest = true) →
        stmts = (Program.ofTokens (body ++ [ending]) 0).stmts) := by
  refine ⟨⟨fun herrors => ?_, ?_⟩, fun herrors => ?_⟩
  · exact ⟨_, (derives_of_errors_eq_nil hbody hending hspelled herrors).1⟩
  · rintro ⟨stmts, h⟩
    obtain ⟨stmts', h', hnearest⟩ := h.exists_elseNearest
    rw [ofTokens_eq_of_derives hending hspelled h' hnearest]
  · obtain ⟨h, hnearest⟩ := derives_of_errors_eq_nil hbody hending hspelled herrors
    refine ⟨(Stmt.areWhole_iff _).mp h.isWhole, h, (Stmt.elsesNearest_iff _).mp hnearest, ?_⟩
    intro stmts h' hnearest'
    rw [ofTokens_eq_of_derives hending hspelled h' ((Stmt.elsesNearest_iff _).mpr hnearest')]

/-- The tokens of `if (a) if (b) c; else d;`. -/
def danglingElse : List Token :=
  [⟨.ifWord, utf8 "if", 0, 0⟩, ⟨.lparen, utf8 "(", 0, 3⟩, ⟨.ident, utf8 "a", 0, 4⟩,
    ⟨.rparen, utf8 ")", 0, 5⟩, ⟨.ifWord, utf8 "if", 0, 7⟩, ⟨.lparen, utf8 "(", 0, 10⟩,
    ⟨.ident, utf8 "b", 0, 11⟩, ⟨.rparen, utf8 ")", 0, 12⟩, ⟨.ident, utf8 "c", 0, 14⟩,
    ⟨.semi, utf8 ";", 0, 15⟩, ⟨.elseWord, utf8 "else", 0, 17⟩, ⟨.ident, utf8 "d", 0, 22⟩,
    ⟨.semi, utf8 ";", 0, 23⟩]

theorem ofTokens_danglingElse :
    (∃ stmts, Derives (.declarations stmts) danglingElse) ∧
      ∀ stmts, Derives (.declarations stmts) danglingElse →
        (∀ s ∈ stmts, s.elseNearest = true) →
        stmts = [.ifThen 0 (.ident 4 (utf8 "a"))
          (.ifElse 7 (.ident 11 (utf8 "b")) (.expr 14 (.ident 14 (utf8 "c")))
            (.expr 22 (.ident 22 (utf8 "d"))))] := by
  have hread : Program.ofTokens (danglingElse ++ [Token.endAt 24]) 0 =
      ⟨[.ifThen 0 (.ident 4 (utf8 "a"))
        (.ifElse 7 (.ident 11 (utf8 "b")) (.expr 14 (.ident 14 (utf8 "c")))
          (.expr 22 (.ident 22 (utf8 "d"))))], []⟩ := by rfl
  obtain ⟨haccepts, hprogram⟩ :=
    @ofTokens_errors_iff_derives danglingElse (Token.endAt 24) (by decide) rfl (by decide)
  rw [hread] at haccepts hprogram
  exact ⟨haccepts.mp rfl, (hprogram rfl).2.2.2⟩

end Badger.Grammar
