import Badger.Proofs.Grammar.Subtree
import Mathlib.Data.List.Nodup

/-!
# How deep statements are nested

A pair of braces encloses the statements between them, be it a block or the body of a function. The
statements of a program come with the number of braces that enclose them; in a program that is read
without errors, every statement stands at an offset of its own, and so this is one number for each.

## Main definitions

* `Stmt.nesting`, `Stmt.listNesting`: the statements in a tree with the number of braces around
  them
* `Program.nesting`: the statements of a program with the number of braces around them

## Main statements

* `Grammar.Derives.nesting_sublist`: statements stand at offsets of different tokens, in their order
* `Program.nesting_unique`: every statement of a program has one number of braces around it
-/

namespace Badger

/-! ## Statements with the braces around them -/

mutual

/-- **Nesting.** The statements in a statement, itself first, each with the number of braces that
enclose it, if `around` braces enclose the statement. The branches of a conditional and the body of
a loop are enclosed by braces only if they are blocks. -/
def Stmt.nesting (around : Nat) (s : Stmt) : List (Nat × Stmt) :=
  (around, s) ::
    match s with
    | .missing | .expr _ _ | .ret _ _ | .declare _ _ _ _ => []
    | .block _ body => Stmt.listNesting (around + 1) body
    | .ifThen _ _ yes => yes.nesting around
    | .ifElse _ _ yes no => yes.nesting around ++ no.nesting around
    | .loop _ _ body => body.nesting around
    | .fxn _ _ _ body => Stmt.listNesting (around + 1) body

/-- The statements in some statements, each with the number of braces that enclose it. -/
def Stmt.listNesting (around : Nat) : List Stmt → List (Nat × Stmt)
  | [] => []
  | s :: ss => s.nesting around ++ Stmt.listNesting around ss

end

/-- The statements of a program, each with the number of braces that enclose it. -/
def Program.nesting (p : Program) : List (Nat × Stmt) := Stmt.listNesting 0 p.stmts

theorem Stmt.mem_nesting (around : Nat) (s : Stmt) : (around, s) ∈ s.nesting around := by
  cases s <;> exact List.mem_cons_self

/-! ## Offsets -/

/-- The offset at which a statement stands. -/
def Stmt.place (p : Nat × Stmt) : Int := p.2.offset

namespace Grammar

/-- What it means for a phrase that the statements in its tree stand at the given offsets, or at
some of them, in this order. -/
def Phrase.StatementsAt (offsets : List Int) : Phrase → Prop
  | .statement s | .declaration s =>
      ∀ around, ((s.nesting around).map Stmt.place).Sublist offsets
  | .declarations ss =>
      ∀ around, ((Stmt.listNesting around ss).map Stmt.place).Sublist offsets
  | _ => True

/-- **Statements stand at the offsets of different tokens**, in the order of the tokens. -/
theorem Derives.nesting_sublist {p : Phrase} {ts : List Token} (h : Derives p ts) :
    p.StatementsAt (ts.map Token.offset) := by
  induction h with
  | ret _ _ _ | exprStatement _ _ =>
      intro around
      simp [Stmt.nesting, Stmt.place, Stmt.offset]
  | block _ _ _ ih =>
      intro around
      simp only [Stmt.nesting, List.map_cons, List.cons_append, List.map_append, List.map_nil]
      exact (List.sublist_append_of_sublist_left (ih (around + 1))).cons_cons _
  | ifThen _ _ _ _ _ _ ih | loop _ _ _ _ _ _ ih =>
      intro around
      simp only [Stmt.nesting, List.map_cons, List.cons_append, List.map_append]
      refine List.Sublist.cons_cons _ (List.Sublist.cons _ ?_)
      exact List.sublist_append_of_sublist_right ((ih around).cons _)
  | ifElse _ _ _ _ _ _ _ _ ihyes ihno =>
      intro around
      simp only [Stmt.nesting, List.map_cons, List.cons_append, List.map_append]
      refine List.Sublist.cons_cons _ (List.Sublist.cons _ ?_)
      exact (List.sublist_append_of_sublist_right ((ihyes around).cons _)).append
        ((ihno around).cons _)
  | declare _ _ _ _ _ _ | declareZero _ _ _ =>
      intro around
      simp [Stmt.nesting, Stmt.place, Stmt.offset]
  | function _ _ _ _ _ _ _ _ _ ih =>
      intro around
      simp only [Stmt.nesting, List.map_cons, List.cons_append, List.map_append, List.map_nil]
      refine List.Sublist.cons _ (List.Sublist.cons_cons _ (List.Sublist.cons _ ?_))
      refine List.sublist_append_of_sublist_left (List.sublist_append_of_sublist_right ?_)
      exact ((ih (around + 1)).cons _).cons _
  | statement _ ih => exact ih
  | noDeclaration => exact fun _ => List.Sublist.refl _
  | nextDeclaration _ _ ihfirst ihothers =>
      intro around
      simp only [Stmt.listNesting, List.map_append]
      exact (ihfirst around).append (ihothers around)
  | _ => trivial

end Grammar

/-- **Every statement of a program has one number of braces around it**, if the program is read
without errors. -/
theorem Program.nesting_unique {text : Text}
    (herrors : (Program.ofTokens (TokenStream.ofText text).tokens 0).errors = []) {n n' : Nat}
    {s : Stmt} (h : (n, s) ∈ (Program.ofTokens (TokenStream.ofText text).tokens 0).nesting)
    (h' : (n', s) ∈ (Program.ofTokens (TokenStream.ofText text).tokens 0).nesting) : n = n' := by
  have hordered := TokenStream.pairwise_ofText text
  obtain ⟨body, ending, htokens, hending, hbody⟩ := TokenStream.ofText_tokens text
  rw [htokens] at herrors h h' hordered
  have hderives := (Grammar.derives_of_errors_eq_nil (fun t ht => (hbody t ht).1) hending
    (fun t ht => (hbody t ht).2.1) herrors).1
  -- statements are told apart by their offsets, as different tokens are
  have hoffsets : (body.map Token.offset).Nodup := by
    refine List.Pairwise.imp Int.ne_of_lt (List.pairwise_map.mpr ?_)
    exact (List.pairwise_append.mp hordered).1
  have hplaces := (hderives.nesting_sublist 0).nodup hoffsets
  exact congrArg Prod.fst (List.inj_on_of_nodup_map hplaces h h' rfl)

end Badger
