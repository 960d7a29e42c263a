import Badger.Proofs.Grammar.Acceptance

/-!
# Seams

A stretch of tokens that ends in a semicolon is read the same way whatever follows it. Parsers of
expressions stop before the semicolon, so they never look at what follows.

## Main definitions

* `Seam`: what follows a stretch of tokens in one run and in another
* `Seam.Ahead`, `Seam.Joins`: stretches whose last token is still ahead, or that may be used up
* `Parsed.Carries`: two runs that agree up to what follows the stretch

## Main statements

* `Parser.exprCarries`: every parser of expressions carries over, with no smaller a budget

## Design notes

One relation serves two purposes. With an end token in the first run and more tokens in the second
it says that the stretch does not depend on what follows; with nothing following in either run it
says that a larger budget changes nothing, for any stretch.
-/

namespace Badger

open Badger.Parser

/-! ## Seams -/

/-- **A seam.** The tokens that follow a stretch in a first and in a second run, and which errors
of the first run count as errors at its end. Either nothing follows in both runs, or the first run
is at its end where the second one finds no `else`. -/
structure Seam where
  near : List Token
  far : List Token
  atEnd : Finding → Prop
  joins : (near = [] ∧ far = []) ∨
    ((current near).kind = .eof ∧ (current far).kind ≠ .elseWord ∧
      ∀ problem, atEnd ⟨problem, (current near).offset⟩)

/-- Nothing follows in either run. -/
def Seam.nothing : Seam where
  near := []
  far := []
  atEnd _ := False
  joins := .inl ⟨rfl, rfl⟩

/-- Whether the last of some tokens is a semicolon. -/
def EndsInSemi (ts : List Token) : Prop := ∃ first last, ts = first ++ [last] ∧ last.kind = .semi

theorem EndsInSemi.ne_nil {ts : List Token} (h : EndsInSemi ts) : ts ≠ [] := by
  obtain ⟨first, last, rfl, -⟩ := h
  simp

theorem EndsInSemi.tail {t : Token} {ts : List Token} (h : EndsInSemi (t :: ts)) :
    EndsInSemi ts ∨ ts = [] ∧ t.kind = .semi := by
  obtain ⟨first, last, heq, hlast⟩ := h
  cases first with
  | nil =>
      obtain ⟨rfl, rfl⟩ := List.cons.inj heq
      exact .inr ⟨rfl, hlast⟩
  | cons t' first =>
      obtain ⟨-, rfl⟩ := List.cons.inj heq
      exact .inl ⟨first, last, rfl, hlast⟩

namespace Seam

variable (s : Seam) {xs : List Token}

/-- The semicolon at the end of the stretch is still ahead, or nothing follows in either run. -/
def Ahead (xs : List Token) : Prop := (s.near = [] ∧ s.far = []) ∨ EndsInSemi xs

/-- The semicolon at the end of the stretch is still ahead, or it is the last token consumed. -/
def Joins (xs : List Token) : Prop := s.Ahead xs ∨ xs = []

variable {s}

theorem Ahead.current_eq (h : s.Ahead xs) :
    current (xs ++ s.near) = current xs ∧ current (xs ++ s.far) = current xs := by
  rcases h with ⟨hnear, hfar⟩ | h
  · simp [hnear, hfar]
  · cases xs with
    | nil => exact absurd rfl h.ne_nil
    | cons t ts => exact ⟨rfl, rfl⟩

theorem Ahead.advance_eq (h : s.Ahead xs) :
    advance (xs ++ s.near) = advance xs ++ s.near ∧
      advance (xs ++ s.far) = advance xs ++ s.far := by
  rcases h with ⟨hnear, hfar⟩ | h
  · simp [hnear, hfar]
  · cases xs with
    | nil => exact absurd rfl h.ne_nil
    | cons t ts =>
        by_cases ht : t.kind = .eof
        · simp [advance, ht]
        · simp [advance, ht]

/-- A token other than a semicolon is not the last of the stretch. -/
theorem Ahead.advance (h : s.Ahead xs) (hne : (current xs).kind ≠ .semi) :
    s.Ahead (advance xs) := by
  rcases h with h | h
  · exact .inl h
  · cases xs with
    | nil => exact absurd rfl h.ne_nil
    | cons t ts =>
        by_cases ht : t.kind = .eof
        · have heq : Parser.advance (t :: ts) = t :: ts := if_pos ht
          rw [heq]
          exact .inr h
        · rw [Parser.advance_cons ht]
          exact .inr (h.tail.resolve_right fun hlast => hne hlast.2)

theorem Ahead.joins_advance (h : s.Ahead xs) : s.Joins (Parser.advance xs) := by
  rcases h with h | h
  · exact .inl (.inl h)
  · cases xs with
    | nil => exact absurd rfl h.ne_nil
    | cons t ts =>
        by_cases ht : t.kind = .eof
        · have heq : Parser.advance (t :: ts) = t :: ts := if_pos ht
          rw [heq]
          exact .inl (.inr h)
        · rw [Parser.advance_cons ht]
          exact h.tail.imp .inr And.left

end Seam

/-! ## Runs that agree -/

/-- **Carrying over.** Unless the first run exhausts its budget, both have the same result or the
same error, and what they leave differs only in what follows the stretch. -/
inductive Parsed.Carries {α : Type} (s : Seam) (post : α → List Token → Prop) :
    Parsed α → Parsed α → Prop where
  | ok {a : α} {rest : List Token} (h : post a rest) :
      Carries s post (.ok a (rest ++ s.near)) (.ok a (rest ++ s.far))
  | fail {e : Finding} {rest : List Token} (h : s.Ahead rest) :
      Carries s post (.fail e (rest ++ s.near)) (.fail e (rest ++ s.far))
  | outOfFuel (r : Parsed α) : Carries s post .outOfFuel r

namespace Parser

open Parsed (Carries)

variable {α β : Type} {s : Seam} {xs : List Token}

theorem carries_mono {post post' : α → List Token → Prop} {r r' : Parsed α}
    (h : Carries s post r r') (hpost : ∀ a rest, post a rest → post' a rest) :
    Carries s post' r r' := by
  cases h with
  | ok h => exact .ok (hpost _ _ h)
  | fail h => exact .fail h
  | outOfFuel => exact .outOfFuel _

/-- One parser after another. -/
theorem carries_bind {post : α → List Token → Prop} {post' : β → List Token → Prop}
    {p p' : Parser α} {f f' : α → Parser β} {ts ts' : List Token}
    (hp : Carries s post (p ts) (p' ts'))
    (hf : ∀ a rest, post a rest → Carries s post' (f a (rest ++ s.near)) (f' a (rest ++ s.far))) :
    Carries s post' ((p >>= f) ts) ((p' >>= f') ts') := by
  simp only [bind]
  generalize p ts = r, p' ts' = r' at hp
  cases hp with
  | ok h => exact hf _ _ h
  | fail h => exact .fail h
  | outOfFuel => exact .outOfFuel _

theorem carries_pure {post : α → List Token → Prop} {a : α} (h : post a xs) :
    Carries s post ((pure a : Parser α) (xs ++ s.near)) ((pure a : Parser α) (xs ++ s.far)) :=
  .ok h

/-- Looking at the token ahead. -/
theorem carries_current (h : s.Ahead xs) :
    Carries s (fun t rest => t = current xs ∧ xs = rest) (peek (xs ++ s.near))
      (peek (xs ++ s.far)) := by
  unfold peek
  rw [h.current_eq.1, h.current_eq.2]
  exact .ok ⟨rfl, rfl⟩

/-- What follows a look at the token ahead. -/
theorem carries_peek {post : α → List Token → Prop} {f f' : Token → Parser α} (h : s.Ahead xs)
    (hf : Carries s post (f (current xs) (xs ++ s.near)) (f' (current xs) (xs ++ s.far))) :
    Carries s post ((peek >>= f) (xs ++ s.near)) ((peek >>= f') (xs ++ s.far)) := by
  refine carries_bind (carries_current h) ?_
  rintro t rest ⟨rfl, rfl⟩
  exact hf

theorem carries_take (h : s.Ahead xs) :
    Carries s (fun t rest => t = current xs ∧ rest = advance xs) (take (xs ++ s.near))
      (take (xs ++ s.far)) := by
  unfold take
  rw [h.current_eq.1, h.current_eq.2, h.advance_eq.1, h.advance_eq.2]
  exact .ok ⟨rfl, rfl⟩

/-- Consuming a token that is not the semicolon at the end. -/
theorem carries_take_of_ne (h : s.Ahead xs) (hne : (current xs).kind ≠ .semi) :
    Carries s (fun _ rest => s.Ahead rest) (take (xs ++ s.near)) (take (xs ++ s.far)) := by
  refine carries_mono (carries_take h) ?_
  rintro t rest ⟨-, rfl⟩
  exact h.advance hne

theorem carries_failHere {post : α → List Token → Prop} (h : s.Ahead xs) (what : Expectation) :
    Carries s post (failHere what (xs ++ s.near)) (failHere what (xs ++ s.far)) := by
  unfold failHere
  rw [h.current_eq.1, h.current_eq.2]
  exact .fail h

theorem carries_failAt {post : α → List Token → Prop} (h : s.Ahead xs) (problem : Problem)
    (offset : Int) :
    Carries s post ((failAt problem offset : Parser α) (xs ++ s.near))
      ((failAt problem offset : Parser α) (xs ++ s.far)) :=
  .fail h

theorem carries_expect (h : s.Ahead xs) (kind : TokenKind) (what : Expectation) :
    Carries s (fun _ rest => s.Joins rest ∧ (kind ≠ .semi → s.Ahead rest))
      (expect kind what (xs ++ s.near)) (expect kind what (xs ++ s.far)) := by
  unfold expect
  rw [h.current_eq.1, h.current_eq.2]
  split
  · next hk =>
    refine carries_mono (carries_take h) ?_
    rintro t rest ⟨-, rfl⟩
    exact ⟨h.joins_advance, fun hne => h.advance (hk ▸ hne)⟩
  · exact carries_failHere h what

/-- Consuming a token of a kind other than the semicolon. -/
theorem carries_expect_of_ne (h : s.Ahead xs) {kind : TokenKind} (hne : kind ≠ .semi)
    (what : Expectation) :
    Carries s (fun _ rest => s.Ahead rest) (expect kind what (xs ++ s.near))
      (expect kind what (xs ++ s.far)) :=
  carries_mono (carries_expect h kind what) fun _ _ hrest => hrest.2 hne

/-- A token of the given kind that ends a construct. -/
theorem carries_closing (h : s.Ahead xs) (kind : TokenKind) (what : Expectation) (a : α) :
    Carries s (fun _ rest => s.Joins rest ∧ (kind ≠ .semi → s.Ahead rest))
      ((expect kind what >>= fun _ => pure a : Parser α) (xs ++ s.near))
      ((expect kind what >>= fun _ => pure a : Parser α) (xs ++ s.far)) :=
  carries_bind (carries_expect h kind what) fun _ _ hrest => carries_pure hrest

/-- The semicolon that ends a statement. -/
theorem carries_semi (h : s.Ahead xs) (what : Expectation) (a : α) :
    Carries s (fun _ rest => s.Joins rest)
      ((expect .semi what >>= fun _ => pure a : Parser α) (xs ++ s.near))
      ((expect .semi what >>= fun _ => pure a : Parser α) (xs ++ s.far)) :=
  carries_mono (carries_closing h .semi what a) fun _ _ hrest => hrest.1

/-- A token other than a semicolon that ends a construct. -/
theorem carries_closing_of_ne (h : s.Ahead xs) {kind : TokenKind} (hne : kind ≠ .semi)
    (what : Expectation) (a : α) :
    Carries s (fun _ rest => s.Ahead rest)
      ((expect kind what >>= fun _ => pure a : Parser α) (xs ++ s.near))
      ((expect kind what >>= fun _ => pure a : Parser α) (xs ++ s.far)) :=
  carries_mono (carries_closing h kind what a) fun _ _ hrest => hrest.2 hne

theorem carries_accept (h : s.Ahead xs) {kind : TokenKind} (hne : kind ≠ .semi) :
    Carries s (fun _ rest => s.Ahead rest) (accept kind (xs ++ s.near))
      (accept kind (xs ++ s.far)) := by
  unfold accept
  rw [h.current_eq.1, h.current_eq.2, h.advance_eq.1, h.advance_eq.2]
  split
  · next hk => exact .ok (h.advance (hk ▸ hne))
  · exact .ok h

/-! ## Expressions -/

/-- **Expressions carry over**, from a budget `n` to a budget `m`. They leave the semicolon at the
end of the stretch where it is. -/
structure ExprCarries (s : Seam) (n m : Nat) : Prop where
  expr {xs : List Token} (h : s.Ahead xs) : Carries s (fun _ rest => s.Ahead rest)
    (expr n (xs ++ s.near)) (expr m (xs ++ s.far))
  operators {tighter : List (List TokenKind)} (ht : tighter <:+ levels) {xs : List Token}
    (h : s.Ahead xs) : Carries s (fun _ rest => s.Ahead rest)
    (operators n tighter (xs ++ s.near)) (operators m tighter (xs ++ s.far))
  operatorsAfter {level : List TokenKind} {tighter : List (List TokenKind)}
    (ht : level :: tighter <:+ levels) (left : Expr) {xs : List Token} (h : s.Ahead xs) :
    Carries s (fun _ rest => s.Ahead rest) (operatorsAfter n level tighter left (xs ++ s.near))
      (operatorsAfter m level tighter left (xs ++ s.far))
  unary {xs : List Token} (h : s.Ahead xs) : Carries s (fun _ rest => s.Ahead rest)
    (unary n (xs ++ s.near)) (unary m (xs ++ s.far))
  calls (callee : Expr) {xs : List Token} (h : s.Ahead xs) :
    Carries s (fun _ rest => s.Ahead rest) (calls n callee (xs ++ s.near))
      (calls m callee (xs ++ s.far))
  arguments {xs : List Token} (h : s.Ahead xs) : Carries s (fun _ rest => s.Ahead rest)
    (arguments n (xs ++ s.near)) (arguments m (xs ++ s.far))
  primary {xs : List Token} (h : s.Ahead xs) : Carries s (fun _ rest => s.Ahead rest)
    (primary n (xs ++ s.near)) (primary m (xs ++ s.far))

section

variable {n m : Nat} (ih : ExprCarries s n m)

include ih

private theorem expr_carries (h : s.Ahead xs) : Carries s (fun _ rest => s.Ahead rest)
    (expr (n + 1) (xs ++ s.near)) (expr (m + 1) (xs ++ s.far)) := by
  rw [expr, expr]
  refine carries_bind (ih.operators List.suffix_rfl h) fun target rest hrest => ?_
  refine carries_peek hrest ?_
  split
  · next hk =>
    refine carries_bind (carries_take_of_ne hrest (hk ▸ by decide)) fun equals rest hrest => ?_
    refine carries_bind (ih.expr hrest) fun value rest hrest => ?_
    split
    · exact carries_pure hrest
    · exact carries_failAt hrest _ _
  · exact carries_pure hrest

private theorem operators_carries {tighter : List (List TokenKind)} (ht : tighter <:+ levels)
    (h : s.Ahead xs) : Carries s (fun _ rest => s.Ahead rest)
    (operators (n + 1) tighter (xs ++ s.near)) (operators (m + 1) tighter (xs ++ s.far)) := by
  cases tighter with
  | nil =>
      rw [operators, operators]
      exact ih.unary h
  | cons level tighter =>
      rw [operators, operators]
      refine carries_bind (ih.operators (tighter_suffix ht) h) fun left rest hrest => ?_
      exact ih.operatorsAfter ht left hrest

private theorem operatorsAfter_carries {level : List TokenKind}
    {tighter : List (List TokenKind)} (ht : level :: tighter <:+ levels) (left : Expr)
    (h : s.Ahead xs) : Carries s (fun _ rest => s.Ahead rest)
    (operatorsAfter (n + 1) level tighter left (xs ++ s.near))
    (operatorsAfter (m + 1) level tighter left (xs ++ s.far)) := by
  have hsemi : ∀ level ∈ levels, TokenKind.semi ∉ level := by decide
  have hlevel := hsemi level (ht.subset List.mem_cons_self)
  rw [operatorsAfter, operatorsAfter]
  refine carries_peek h ?_
  split
  · next hmem =>
    rw [List.contains_iff_mem] at hmem
    have hne : (current xs).kind ≠ .semi := fun hk => hlevel (hk ▸ hmem)
    refine carries_bind (carries_take_of_ne h hne) fun op rest hrest => ?_
    refine carries_bind (ih.operators (tighter_suffix ht) hrest) fun right rest hrest => ?_
    exact ih.operatorsAfter ht _ hrest
  · exact carries_pure h

private theorem unary_carries (h : s.Ahead xs) : Carries s (fun _ rest => s.Ahead rest)
    (unary (n + 1) (xs ++ s.near)) (unary (m + 1) (xs ++ s.far)) := by
  rw [unary, unary]
  refine carries_peek h ?_
  split
  · next hk =>
    have hne : (current xs).kind ≠ .semi := by
      intro hsemi
      simp [hsemi] at hk
    refine carries_bind (carries_take_of_ne h hne) fun op rest hrest => ?_
    exact carries_bind (ih.unary hrest) fun operand rest hrest => carries_pure hrest
  · refine carries_bind (ih.primary h) fun callee rest hrest => ?_
    exact ih.calls callee hrest

private theorem calls_carries (callee : Expr) (h : s.Ahead xs) :
    Carries s (fun _ rest => s.Ahead rest) (calls (n + 1) callee (xs ++ s.near))
      (calls (m + 1) callee (xs ++ s.far)) := by
  rw [calls, calls]
  refine carries_peek h ?_
  split
  · next hk =>
    refine carries_bind (carries_take_of_ne h (hk ▸ by decide)) fun paren rest hrest => ?_
    refine carries_peek hrest ?_
    have hclosing (args : List Expr) {rest : List Token} (hrest : s.Ahead rest) :=
      carries_bind (carries_expect_of_ne hrest (by decide : TokenKind.rparen ≠ .semi)
        .parenthesisAfterArguments)
        fun _ rest hrest => ih.calls (.call paren.offset callee args) hrest
    split
    · exact hclosing [] hrest
    · exact carries_bind (ih.arguments hrest) fun args rest hrest => hclosing args hrest
  · exact carries_pure h

private theorem arguments_carries (h : s.Ahead xs) : Carries s (fun _ rest => s.Ahead rest)
    (arguments (n + 1) (xs ++ s.near)) (arguments (m + 1) (xs ++ s.far)) := by
  rw [arguments, arguments]
  refine carries_bind (ih.expr h) fun first rest hrest => ?_
  refine carries_bind (carries_accept hrest (by decide)) fun more rest hrest => ?_
  split
  · exact carries_bind (ih.arguments hrest) fun others rest hrest => carries_pure hrest
  · exact carries_pure hrest

private theorem primary_carries (h : s.Ahead xs) : Carries s (fun _ rest => s.Ahead rest)
    (primary (n + 1) (xs ++ s.near)) (primary (m + 1) (xs ++ s.far)) := by
  rw [primary, primary]
  refine carries_peek h ?_
  have htake (hne : (current xs).kind ≠ .semi) := carries_take_of_ne h hne
  cases hk : (current xs).kind with
  | falseWord | trueWord | number | string | ident =>
      exact carries_bind (htake (hk ▸ by decide)) fun _ _ hrest => carries_pure hrest
  | «at» =>
      refine carries_bind (htake (hk ▸ by decide)) fun _ rest hrest => ?_
      refine carries_bind (carries_expect_of_ne hrest (by decide) _) fun name rest hrest => ?_
      exact carries_pure hrest
  | lparen =>
      refine carries_bind (htake (hk ▸ by decide)) fun _ rest hrest => ?_
      refine carries_bind (ih.expr hrest) fun inner rest hrest => ?_
      exact carries_closing_of_ne hrest (by decide) _ _
  | _ => exact carries_failHere h _

end

/-- **Expressions carry over** to every larger budget. -/
theorem exprCarries (s : Seam) {n m : Nat} (hle : n ≤ m) : ExprCarries s n m := by
  induction n generalizing m with
  | zero =>
      constructor <;> intros <;> exact .outOfFuel _
  | succ n ih =>
      obtain ⟨m, rfl⟩ : ∃ m', m = m' + 1 := ⟨m - 1, by omega⟩
      have ih := ih (Nat.le_of_succ_le_succ hle)
      exact ⟨expr_carries ih, fun ht _ h => operators_carries ih ht h,
        fun ht left _ h => operatorsAfter_carries ih ht left h, unary_carries ih,
        fun callee _ h => calls_carries ih callee h, arguments_carries ih, primary_carries ih⟩

end Parser

end Badger
