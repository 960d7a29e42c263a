import Badger.Proofs.Grammar.Acceptance

/-!
# What recovery keeps

A parser that recovers from an error passes over some tokens and goes on. The statements that it
keeps are read from tokens that stand in the text in the same order, so they are what the grammar
derives from the text with some of its tokens left out.

## Main definitions

* `Keeps`: a phrase that is derived from some of the tokens in front of what is left
* `Stmt.kept`: the statements of a list that are not missing
* `StmtKept`: what each parser of statements keeps, at a budget

## Main statements

* `stmtKept`: what the parsers of statements keep, at every budget
* `declarations_kept`: what is kept of the declarations of a program
* `derives_kept`: **what is kept of a list of tokens** is derived from some of them
-/

namespace Badger

/-- The statements of a list that are not missing. -/
def Stmt.kept (ss : List Stmt) : List Stmt := ss.filter fun s => !s.isMissing

namespace Grammar

open Badger.Parser Recovering

/-- Some of the tokens in front of `rest` derive a phrase. -/
def Keeps (p : Phrase) (ts rest : List Token) : Prop :=
  ∃ used read, ts = used ++ rest ∧ read.Sublist used ∧ Derives p read

theorem Reads.keeps {p : Phrase} {ts rest : List Token} (h : Reads p ts rest) :
    Keeps p ts rest := by
  obtain ⟨read, rfl, hread⟩ := h
  exact ⟨read, read, rfl, List.Sublist.refl _, hread⟩

/-- The tokens that are passed over come first. -/
theorem Keeps.of_suffix {p : Phrase} {ts us rest : List Token} (hsuffix : us <:+ ts)
    (h : Keeps p us rest) : Keeps p ts rest := by
  obtain ⟨passed, rfl⟩ := hsuffix
  obtain ⟨used, read, rfl, hsub, hread⟩ := h
  exact ⟨passed ++ used, read, by rw [List.append_assoc],
    List.sublist_append_of_sublist_right hsub, hread⟩

/-- **What the parsers of statements keep** at a budget. A block is kept without its closing
brace. -/
structure StmtKept (fuel : Nat) : Prop where
  declaration {ts : List Token} (h : ∀ t ∈ ts, t.Spelled) : Recovering.Meets
    (declaration fuel ts) (fun s rest _ => s.isMissing = false → Keeps (.declaration s) ts rest)
    (fun _ _ _ => True) True
  statement {ts : List Token} (h : ∀ t ∈ ts, t.Spelled) : Recovering.Meets (statement fuel ts)
    (fun s rest _ => Keeps (.statement s) ts rest) (fun _ _ _ => True) True
  block {ts : List Token} (h : ∀ t ∈ ts, t.Spelled) : Recovering.Meets (block fuel ts)
    (fun body rest _ => ∃ closing, closing.kind = .rbrace ∧
      Keeps (.declarations body) ts (closing :: rest))
    (fun _ _ _ => True) True

private theorem declaration_kept {fuel : Nat} (ih : StmtKept fuel) {ts : List Token}
    (h : ∀ t ∈ ts, t.Spelled) : Recovering.Meets (declaration (fuel + 1) ts)
      (fun s rest _ => s.isMissing = false → Keeps (.declaration s) ts rest)
      (fun _ _ _ => True) True := by
  -- after a failure the statement is missing
  have hfail : ∀ rest, Stmt.missing.isMissing = false → Keeps (.declaration .missing) ts rest :=
    fun _ => nofun
  rw [meets_declaration]
  dsimp only
  split
  · next hk =>
    exact (variableDeclaration_sound fuel h hk).mono (fun _ _ h _ => h.1.keeps)
      (fun _ rest _ => hfail _) (fun h => h)
  · split
    · next hk =>
      refine (functionHead_sound fuel hk).mono ?_ (fun _ rest _ => hfail _) (fun h => h)
      rintro ⟨name, params⟩ rest ⟨word, opening, read, closing, brace, rfl, hword, hname, ho,
        hparams, hc, hbrace⟩
      have hspelled := spelled_of_append (word :: name :: opening :: read ++ [closing, brace])
        (by simpa using h)
      refine (ih.block hspelled).mono ?_ (fun _ rest _ _ => hfail _) (fun h => h)
      rintro body rest' _ ⟨ending, hending, used, more, rfl, hsub, hmore⟩ -
      refine ⟨word :: name :: opening :: read ++ closing :: brace :: used ++ [ending],
        word :: name :: opening :: read ++ closing :: brace :: more ++ [ending], by simp, ?_,
        .function hword hname ho hparams hc hbrace hmore hending⟩
      exact ((List.Sublist.refl _).append ((hsub.cons_cons brace).cons_cons closing)).append
        (List.Sublist.refl _)
    · refine (ih.statement h).mono ?_ (fun _ rest _ _ => hfail _) (fun h => h)
      rintro s rest _ ⟨used, read, rfl, hsub, hread⟩ -
      exact ⟨used, read, rfl, hsub, .statement hread⟩

private theorem statement_kept {fuel : Nat} (ih : StmtKept fuel) {ts : List Token}
    (h : ∀ t ∈ ts, t.Spelled) : Recovering.Meets (statement (fuel + 1) ts)
      (fun s rest _ => Keeps (.statement s) ts rest) (fun _ _ _ => True) True := by
  rw [meets_statement]
  split
  · next hk =>
    exact (returnStatement_sound fuel h hk).mono (fun _ _ h => h.1.keeps) (fun _ _ _ => trivial)
      (fun h => h)
  · next hk =>
    obtain ⟨opening, us, rfl, ho, hadv⟩ := exists_cons_of_kind hk (by decide)
    rw [hadv, current_cons]
    refine (ih.block (spelled_of_append [opening] h)).mono ?_ (fun _ _ _ _ => trivial)
      (fun h => h)
    rintro body rest _ ⟨closing, hc, used, read, rfl, hsub, hread⟩
    exact ⟨opening :: used ++ [closing], opening :: read ++ [closing], by simp,
      (hsub.cons_cons opening).append (List.Sublist.refl _), .block ho hread hc⟩
  · next hk =>
    refine (condition_sound fuel _ h hk (by decide)).mono ?_ (fun _ _ _ => trivial)
      (fun h => h)
    rintro ⟨word, cond⟩ rest ⟨opening, read, closing, rfl, hword, ho, hcond, hc⟩
    have hspelled := spelled_of_append (word :: opening :: read ++ [closing])
      (by simpa using h)
    refine (ih.statement hspelled).mono ?_ (fun _ _ _ _ => trivial) (fun h => h)
    rintro yes rest' _ ⟨used, more, rfl, hsub, hmore⟩
    have hhead := (List.Sublist.refl (word :: opening :: read)).append (hsub.cons_cons closing)
    split
    · next helse =>
      obtain ⟨other, rest', rfl, hother, hadv⟩ := exists_cons_of_kind helse (by decide)
      rw [hadv]
      refine (ih.statement (spelled_of_append (used ++ [other]) (by simpa using hspelled))).mono
        ?_ (fun _ _ _ _ => trivial) (fun h => h)
      rintro no rest'' _ ⟨used', last, rfl, hsub', hlast⟩
      exact ⟨word :: opening :: read ++ closing :: used ++ other :: used',
        word :: opening :: read ++ closing :: more ++ other :: last, by simp,
        hhead.append (hsub'.cons_cons other), .ifElse hword ho hcond hc hmore hother hlast⟩
    · exact ⟨word :: opening :: read ++ closing :: used, word :: opening :: read ++ closing :: more,
        by simp, hhead, .ifThen hword ho hcond hc hmore⟩
  · next hk =>
    refine (condition_sound fuel _ h hk (by decide)).mono ?_ (fun _ _ _ => trivial)
      (fun h => h)
    rintro ⟨word, cond⟩ rest ⟨opening, read, closing, rfl, hword, ho, hcond, hc⟩
    have hspelled := spelled_of_append (word :: opening :: read ++ [closing])
      (by simpa using h)
    refine (ih.statement hspelled).mono ?_ (fun _ _ _ _ => trivial) (fun h => h)
    rintro body rest' _ ⟨used, more, rfl, hsub, hmore⟩
    exact ⟨word :: opening :: read ++ closing :: used, word :: opening :: read ++ closing :: more,
      by simp, (List.Sublist.refl _).append (hsub.cons_cons closing),
      .loop hword ho hcond hc hmore⟩
  · exact (exprStatement_sound fuel h).mono (fun _ _ h => h.1.keeps) (fun _ _ _ => trivial)
      (fun h => h)

/-- One more declaration in front of those that are kept, unless it is missing. -/
private theorem keeps_cons {first : Stmt} {others : List Stmt} {ts rest rest' : List Token}
    (hrest : rest <:+ ts) (hfirst : first.isMissing = false → Keeps (.declaration first) ts rest)
    (hothers : Keeps (.declarations others) rest rest') :
    Keeps (.declarations (if first.isMissing then others else first :: others)) ts rest' := by
  cases hmissing : first.isMissing with
  | true =>
      rw [if_pos rfl]
      exact hothers.of_suffix hrest
  | false =>
      obtain ⟨used, read, rfl, hsub, hread⟩ := hfirst hmissing
      obtain ⟨used', more, rfl, hsub', hmore⟩ := hothers
      rw [if_neg Bool.false_ne_true]
      exact ⟨used ++ used', read ++ more, by rw [List.append_assoc], hsub.append hsub',
        .nextDeclaration hread hmore⟩

private theorem block_kept {fuel : Nat} (ih : StmtKept fuel) {ts : List Token}
    (h : ∀ t ∈ ts, t.Spelled) : Recovering.Meets (block (fuel + 1) ts)
      (fun body rest _ => ∃ closing, closing.kind = .rbrace ∧
        Keeps (.declarations body) ts (closing :: rest))
      (fun _ _ _ => True) True := by
  rw [meets_block]
  split
  · next hk =>
    obtain ⟨closing, us, rfl, hc, hadv⟩ := exists_cons_of_kind hk (by decide)
    rw [hadv]
    exact ⟨closing, hc, [], [], rfl, List.Sublist.refl _, .noDeclaration⟩
  · split
    · trivial
    · refine ((ih.declaration h).and ((stmtProgress fuel).declaration ts)).mono ?_
        (fun _ _ _ _ => trivial) (fun h => h.1)
      rintro first rest _ ⟨hfirst, hrest, -⟩
      refine (ih.block fun t ht => h t (hrest.subset ht)).mono ?_ (fun _ _ _ _ => trivial)
        (fun h => h)
      rintro others rest' _ ⟨closing, hc, hothers⟩
      exact ⟨closing, hc, keeps_cons hrest hfirst hothers⟩

/-- **What the parsers of statements keep**, at every budget. -/
theorem stmtKept (fuel : Nat) : StmtKept fuel := by
  induction fuel with
  | zero => exact ⟨fun _ => trivial, fun _ => trivial, fun _ => trivial⟩
  | succ fuel ih => exact ⟨declaration_kept ih, statement_kept ih, block_kept ih⟩

/-- **What is kept of a program** is what the grammar derives from some of its tokens. -/
theorem declarations_kept (fuel : Nat) {ts : List Token} (h : ∀ t ∈ ts, t.Spelled) :
    Recovering.Meets (declarations fuel ts)
      (fun ss rest _ => Keeps (.declarations (Stmt.kept ss)) ts rest) (fun _ _ _ => True) True := by
  induction fuel generalizing ts with
  | zero => trivial
  | succ fuel ih =>
      rw [meets_declarations]
      split
      · exact ⟨[], [], rfl, List.Sublist.refl _, .noDeclaration⟩
      · refine (((stmtKept fuel).declaration h).and ((stmtProgress fuel).declaration ts)).mono ?_
          (fun _ _ _ _ => trivial) (fun h => h.1)
        rintro first rest _ ⟨hfirst, hrest, -⟩
        refine (ih fun t ht => h t (hrest.subset ht)).mono ?_ (fun _ _ _ _ => trivial) (fun h => h)
        intro others rest' _ hothers
        have hkept : Stmt.kept (first :: others) =
            if first.isMissing then Stmt.kept others else first :: Stmt.kept others := by
          rw [Stmt.kept, List.filter_cons]
          cases first.isMissing <;> rfl
        rw [hkept]
        exact keeps_cons hrest hfirst hothers

/-- **What is kept of a list of tokens** is what the grammar derives from some of them, in their
order. -/
theorem derives_kept {body : List Token} {ending : Token} (hending : ending.kind = .eof)
    (hspelled : ∀ t ∈ body, t.Spelled) :
    ∃ read, read.Sublist (body ++ [ending]) ∧
      Derives (.declarations (Stmt.kept (Program.ofTokens (body ++ [ending]) 0).stmts)) read := by
  have hkept := declarations_kept (budget (body ++ [ending]))
    (Token.forall_spelled_append hending hspelled)
  obtain ⟨rest, ⟨used, read, heq, hsub, hread⟩, -⟩ := ofTokens_meets rfl hending hkept
  exact ⟨read, hsub.trans (heq ▸ List.sublist_append_left used rest), hread⟩

end Grammar

end Badger
