import Badger.Proofs.Parsing.Seam

/-!
# Recovery and the semicolon

Parsers of statements may stop right after the semicolon that ends a stretch of tokens, and there
they look at most for an `else`; recovery never passes over a semicolon without stopping. The one
exception is a block that is still open at the end of the stretch, and then the run in which
nothing follows records an error at its end token.

## Main definitions

* `Recovering.Carries`: two runs that agree up to what follows the stretch, errors included

## Main statements

* `Recovering.stmtCarries`: every parser of statements carries over, with no smaller a budget
* `Recovering.declarations_mono`: a larger budget does not change what is read
* `Recovering.declarations_seam`: a program goes on after the stretch
* `ofTokens_append`: recovery is confined by a semicolon
-/

namespace Badger

open Badger.Parser

namespace Recovering

/-! ## Statements -/

variable {α β : Type} {s : Seam} {xs : List Token}

/-- **Carrying over, with errors on the way.** As for `Parsed.Carries`, and both runs record the
same errors; or else the first run has met its end inside the stretch, and says so by an error
there. -/
inductive Carries (s : Seam) (post : α → List Token → Prop) :
    Parsed α × List Finding → Parsed α × List Finding → Prop where
  | ok {a : α} {rest : List Token} (log : List Finding) (h : post a rest) :
      Carries s post (.ok a (rest ++ s.near), log) (.ok a (rest ++ s.far), log)
  | fail {e : Finding} {rest : List Token} (log : List Finding) (h : s.Ahead rest) :
      Carries s post (.fail e (rest ++ s.near), log) (.fail e (rest ++ s.far), log)
  | outOfFuel (log : List Finding) (r : Parsed α × List Finding) :
      Carries s post (.outOfFuel, log) r
  | failedAtEnd {e : Finding} (rest : List Token) (log : List Finding) (h : s.atEnd e)
      (r : Parsed α × List Finding) : Carries s post (.fail e rest, log) r
  | recordedAtEnd {log : List Finding} (p : Parsed α) (h : ∃ e ∈ log, s.atEnd e)
      (r : Parsed α × List Finding) : Carries s post (p, log) r

theorem carries_pure {post : α → List Token → Prop} {a : α} (h : post a xs) :
    Carries s post ((pure a : Recovering α) (xs ++ s.near))
      ((pure a : Recovering α) (xs ++ s.far)) :=
  .ok [] h

theorem carries_lift {post : α → List Token → Prop} {p p' : Parser α} {ts ts' : List Token}
    (h : Parsed.Carries s post (p ts) (p' ts')) :
    Carries s post ((liftM p : Recovering α) ts) ((liftM p' : Recovering α) ts') := by
  show Carries s post (p ts, []) (p' ts', [])
  generalize p ts = r, p' ts' = r' at h
  cases h with
  | ok h => exact .ok [] h
  | fail h => exact .fail [] h
  | outOfFuel => exact .outOfFuel [] _

/-- What was recorded before another parser is recorded after it. -/
theorem carries_prepend {post : β → List Token → Prop} {r r' : Parsed β × List Finding}
    (h : Carries s post r r') (log : List Finding) :
    Carries s post (r.1, log ++ r.2) (r'.1, log ++ r'.2) := by
  cases h with
  | ok more h => exact .ok _ h
  | fail more h => exact .fail _ h
  | outOfFuel more => exact .outOfFuel _ _
  | failedAtEnd rest more h => exact .failedAtEnd rest _ h _
  | recordedAtEnd p h =>
      obtain ⟨e, hmem, hend⟩ := h
      exact .recordedAtEnd p ⟨e, List.mem_append_right log hmem, hend⟩ _

/-- One parser after another. -/
theorem carries_bind {post : α → List Token → Prop} {post' : β → List Token → Prop}
    {p p' : Recovering α} {f f' : α → Recovering β} {ts ts' : List Token}
    (hp : Carries s post (p ts) (p' ts'))
    (hf : ∀ a rest, post a rest → Carries s post' (f a (rest ++ s.near)) (f' a (rest ++ s.far))) :
    Carries s post' ((p >>= f) ts) ((p' >>= f') ts') := by
  simp only [bind]
  generalize p ts = r, p' ts' = r' at hp
  cases hp with
  | ok log h => exact carries_prepend (hf _ _ h) log
  | fail log h => exact .fail log h
  | outOfFuel log => exact .outOfFuel log _
  | failedAtEnd rest log h => exact .failedAtEnd rest log h _
  | @recordedAtEnd log p h =>
      obtain ⟨e, hmem, hend⟩ := h
      cases p with
      | ok a rest => exact .recordedAtEnd _ ⟨e, List.mem_append_left _ hmem, hend⟩ _
      | fail e' rest => exact .recordedAtEnd _ ⟨e, hmem, hend⟩ _
      | outOfFuel => exact .recordedAtEnd _ ⟨e, hmem, hend⟩ _

/-- What follows a look at the token ahead. -/
theorem carries_peek {post : α → List Token → Prop} {f f' : Token → Recovering α}
    (h : s.Ahead xs)
    (hf : Carries s post (f (current xs) (xs ++ s.near)) (f' (current xs) (xs ++ s.far))) :
    Carries s post ((liftM peek >>= f : Recovering α) (xs ++ s.near))
      ((liftM peek >>= f' : Recovering α) (xs ++ s.far)) := by
  refine carries_bind (carries_lift (Parser.carries_current h)) ?_
  rintro t rest ⟨rfl, rfl⟩
  exact hf

/-! ### Recovery -/

/-- **Recovery stops at the semicolon.** Passing over tokens up to the next boundary stops inside
the stretch or right after it. -/
theorem skipAfter_carries {previous : TokenKind} {ts : List Token}
    (h : EndsInSemi ts ∨ ts = [] ∧ previous = .semi) (us : List Token) :
    skipAfter previous (ts ++ us) = skipAfter previous ts ++ us ∧
      (EndsInSemi (skipAfter previous ts) ∨ skipAfter previous ts = []) := by
  induction ts generalizing previous with
  | nil =>
      obtain ⟨-, rfl⟩ := h.resolve_left fun hsemi => hsemi.ne_nil rfl
      refine ⟨?_, .inr rfl⟩
      cases us with
      | nil => rfl
      | cons u us => simp [skipAfter]
  | cons t ts ih =>
      have hsemi : EndsInSemi (t :: ts) := h.resolve_right (by simp)
      rw [List.cons_append, skipAfter, skipAfter]
      split
      · exact ⟨rfl, .inl hsemi⟩
      · exact ih hsemi.tail

theorem synchronize_carries (h : s.Ahead xs) :
    synchronize (xs ++ s.near) = synchronize xs ++ s.near ∧
      synchronize (xs ++ s.far) = synchronize xs ++ s.far ∧ s.Joins (synchronize xs) := by
  rcases h with ⟨hnear, hfar⟩ | h
  · rw [hnear, hfar]
    simp only [List.append_nil, true_and]
    exact .inl (.inl ⟨hnear, hfar⟩)
  · cases xs with
    | nil => exact absurd rfl h.ne_nil
    | cons t ts =>
        simp only [List.cons_append, synchronize]
        split
        · exact ⟨rfl, rfl, .inl (.inr h)⟩
        · have hskip (us : List Token) := skipAfter_carries h.tail us
          exact ⟨(hskip _).1, (hskip _).1, (hskip []).2.imp .inr id⟩

theorem carries_recover {p p' : Recovering Stmt}
    (h : Carries s (fun _ rest => s.Joins rest) (p (xs ++ s.near)) (p' (xs ++ s.far))) :
    Carries s (fun _ rest => s.Joins rest) (recover p (xs ++ s.near))
      (recover p' (xs ++ s.far)) := by
  unfold recover
  generalize p (xs ++ s.near) = r, p' (xs ++ s.far) = r' at h
  cases h with
  | ok log h => exact .ok log h
  | fail log h =>
      obtain ⟨hnear, hfar, hjoins⟩ := synchronize_carries h
      simp only [hnear, hfar]
      exact .ok _ hjoins
  | outOfFuel log => exact .outOfFuel log _
  | failedAtEnd rest log h => exact .recordedAtEnd _ ⟨_, by simp, h⟩ _
  | @recordedAtEnd log p h =>
      obtain ⟨e, hmem, hend⟩ := h
      cases p with
      | ok a rest => exact .recordedAtEnd _ ⟨e, hmem, hend⟩ _
      | fail e' rest => exact .recordedAtEnd _ ⟨e, List.mem_append_left _ hmem, hend⟩ _
      | outOfFuel => exact .recordedAtEnd _ ⟨e, hmem, hend⟩ _

/-! ### Parts of statements -/

section Parts

variable {n m : Nat} (hle : n ≤ m)

include hle

theorem variableDeclaration_carries (h : s.Ahead xs) (hne : (current xs).kind ≠ .semi) :
    Parsed.Carries s (fun _ rest => s.Joins rest) (variableDeclaration n (xs ++ s.near))
      (variableDeclaration m (xs ++ s.far)) := by
  unfold variableDeclaration
  refine Parser.carries_bind (Parser.carries_take_of_ne h hne) fun type rest hrest => ?_
  refine Parser.carries_bind (Parser.carries_expect_of_ne hrest (by decide) _)
    fun name rest hrest => ?_
  refine Parser.carries_bind (Parser.carries_accept hrest (by decide)) fun given rest hrest => ?_
  split
  · exact Parser.carries_bind ((exprCarries s hle).expr hrest) fun init rest hrest =>
      Parser.carries_semi hrest _ _
  · exact Parser.carries_semi hrest _ _

omit hle in
theorem parameters_carries {n m : Nat} (hle : n ≤ m) {xs : List Token} (h : s.Ahead xs) :
    Parsed.Carries s (fun _ rest => s.Ahead rest) (parameters n (xs ++ s.near))
      (parameters m (xs ++ s.far)) := by
  induction n generalizing m xs with
  | zero => exact .outOfFuel _
  | succ n ih =>
      obtain ⟨m, rfl⟩ : ∃ m', m = m' + 1 := ⟨m - 1, by omega⟩
      rw [parameters, parameters]
      refine Parser.carries_bind (Parser.carries_expect_of_ne h (by decide) _)
        fun first rest hrest => ?_
      refine Parser.carries_bind (Parser.carries_accept hrest (by decide))
        fun more rest hrest => ?_
      split
      · exact Parser.carries_bind (ih (Nat.le_of_succ_le_succ hle) hrest)
          fun others rest hrest => Parser.carries_pure hrest
      · exact Parser.carries_pure hrest

theorem functionHead_carries (h : s.Ahead xs) (hne : (current xs).kind ≠ .semi) :
    Parsed.Carries s (fun _ rest => s.Ahead rest) (functionHead n (xs ++ s.near))
      (functionHead m (xs ++ s.far)) := by
  unfold functionHead
  refine Parser.carries_bind (Parser.carries_take_of_ne h hne) fun _ rest hrest => ?_
  refine Parser.carries_bind (Parser.carries_expect_of_ne hrest (by decide) _)
    fun name rest hrest => ?_
  refine Parser.carries_bind (Parser.carries_expect_of_ne hrest (by decide) _)
    fun _ rest hrest => ?_
  refine Parser.carries_peek hrest ?_
  have hclosing (params : List Text) {rest : List Token} (hrest : s.Ahead rest) :=
    Parser.carries_bind (Parser.carries_expect_of_ne hrest (by decide : TokenKind.rparen ≠ .semi)
      .parenthesisAfterParameters) fun _ rest hrest => Parser.carries_closing_of_ne hrest
        (by decide : TokenKind.lbrace ≠ .semi) .functionBody (name, params)
  split
  · exact hclosing [] hrest
  · exact Parser.carries_bind (parameters_carries hle hrest) fun params rest hrest =>
      hclosing params hrest

theorem condition_carries (opening : Expectation) (h : s.Ahead xs)
    (hne : (current xs).kind ≠ .semi) :
    Parsed.Carries s (fun _ rest => s.Ahead rest) (condition n opening (xs ++ s.near))
      (condition m opening (xs ++ s.far)) := by
  unfold condition
  refine Parser.carries_bind (Parser.carries_take_of_ne h hne) fun keyword rest hrest => ?_
  refine Parser.carries_bind (Parser.carries_expect_of_ne hrest (by decide) _)
    fun _ rest hrest => ?_
  refine Parser.carries_bind ((exprCarries s hle).expr hrest) fun cond rest hrest => ?_
  exact Parser.carries_closing_of_ne hrest (by decide) _ _

theorem returnStatement_carries (h : s.Ahead xs) (hne : (current xs).kind ≠ .semi) :
    Parsed.Carries s (fun _ rest => s.Joins rest) (returnStatement n (xs ++ s.near))
      (returnStatement m (xs ++ s.far)) := by
  unfold returnStatement
  refine Parser.carries_bind (Parser.carries_take_of_ne h hne) fun keyword rest hrest => ?_
  refine Parser.carries_bind ((exprCarries s hle).expr hrest) fun value rest hrest => ?_
  exact Parser.carries_semi hrest _ _

theorem exprStatement_carries (h : s.Ahead xs) :
    Parsed.Carries s (fun _ rest => s.Joins rest) (exprStatement n (xs ++ s.near))
      (exprStatement m (xs ++ s.far)) := by
  unfold exprStatement
  refine Parser.carries_peek h ?_
  refine Parser.carries_bind ((exprCarries s hle).expr h) fun e rest hrest => ?_
  exact Parser.carries_semi hrest _ _

end Parts

/-- An `else` after the stretch is not taken, since there is none. -/
theorem accept_else_carries (h : s.Joins xs) :
    Parsed.Carries s (fun found rest => if found then s.Ahead rest else s.Joins rest)
      (accept .elseWord (xs ++ s.near)) (accept .elseWord (xs ++ s.far)) := by
  rcases h with h | rfl
  · refine Parser.carries_mono (Parser.carries_accept h (by decide)) fun found rest hrest => ?_
    split
    · exact hrest
    · exact .inl hrest
  · rcases s.joins with hnothing | ⟨hnear, hfar, -⟩
    · exact Parser.carries_mono (Parser.carries_accept (.inl hnothing) (by decide))
        fun found rest hrest => by split <;> first | exact hrest | exact .inl hrest
    · have hnone : (current s.near).kind ≠ .elseWord := by rw [hnear]; decide
      simp only [List.nil_append, accept, if_neg hnone, if_neg hfar]
      rw [← List.nil_append s.near, ← List.nil_append s.far]
      exact .ok (.inr rfl)

/-! ### Declarations, statements and blocks -/

/-- **Statements carry over**, from a budget `n` to a budget `m`. -/
structure StmtCarries (s : Seam) (n m : Nat) : Prop where
  declaration {xs : List Token} (h : s.Ahead xs) : Carries s (fun _ rest => s.Joins rest)
    (declaration n (xs ++ s.near)) (declaration m (xs ++ s.far))
  statement {xs : List Token} (h : s.Ahead xs) : Carries s (fun _ rest => s.Joins rest)
    (statement n (xs ++ s.near)) (statement m (xs ++ s.far))
  block {xs : List Token} (h : s.Joins xs) : Carries s (fun _ rest => s.Ahead rest)
    (block n (xs ++ s.near)) (block m (xs ++ s.far))

section

variable {n m : Nat} (ih : StmtCarries s n m)

include ih

private theorem declaration_carries (hle : n ≤ m) (h : s.Ahead xs) :
    Carries s (fun _ rest => s.Joins rest) (declaration (n + 1) (xs ++ s.near))
      (declaration (m + 1) (xs ++ s.far)) := by
  rw [declaration, declaration]
  refine carries_recover (carries_peek h ?_)
  split
  · next htype =>
    have hne : (current xs).kind ≠ .semi := by
      intro hk
      rw [hk] at htype
      exact absurd htype (by decide)
    exact carries_lift (variableDeclaration_carries hle h hne)
  · split
    · next hk =>
      refine carries_bind (carries_lift (functionHead_carries hle h (hk ▸ by decide)))
        fun head rest hrest => ?_
      refine carries_bind (ih.block (.inl hrest)) fun body rest hrest => ?_
      exact carries_pure (.inl hrest)
    · exact ih.statement h

private theorem statement_carries (hle : n ≤ m) (h : s.Ahead xs) :
    Carries s (fun _ rest => s.Joins rest) (statement (n + 1) (xs ++ s.near))
      (statement (m + 1) (xs ++ s.far)) := by
  rw [statement, statement]
  refine carries_peek h ?_
  cases hk : (current xs).kind with
  | returnWord => exact carries_lift (returnStatement_carries hle h (hk ▸ by decide))
  | lbrace =>
      refine carries_bind (carries_lift (Parser.carries_take_of_ne h (hk ▸ by decide)))
        fun brace rest hrest => ?_
      refine carries_bind (ih.block (.inl hrest)) fun body rest hrest => ?_
      exact carries_pure (.inl hrest)
  | ifWord =>
      refine carries_bind (carries_lift (condition_carries hle _ h (hk ▸ by decide)))
        fun head rest hrest => ?_
      refine carries_bind (ih.statement hrest) fun yes rest hrest => ?_
      refine carries_bind (carries_lift (accept_else_carries hrest)) fun found rest hrest => ?_
      cases found with
      | true =>
          refine carries_bind (ih.statement hrest) fun no rest hrest => ?_
          exact carries_pure hrest
      | false => exact carries_pure hrest
  | whileWord =>
      refine carries_bind (carries_lift (condition_carries hle _ h (hk ▸ by decide)))
        fun head rest hrest => ?_
      exact carries_bind (ih.statement hrest) fun body rest hrest => carries_pure hrest
  | _ => exact carries_lift (exprStatement_carries hle h)

/-- A block that is still open where the stretch ends is an error at the end of the first run. -/
private theorem block_carries (h : s.Joins xs) :
    Carries s (fun _ rest => s.Ahead rest) (block (n + 1) (xs ++ s.near))
      (block (m + 1) (xs ++ s.far)) := by
  by_cases hahead : s.Ahead xs
  · rw [block, block]
    refine carries_peek hahead ?_
    split
    · refine carries_bind (carries_lift (Parser.carries_expect_of_ne hahead (by decide) _))
        fun _ rest hrest => ?_
      exact carries_pure hrest
    · refine carries_bind (ih.declaration hahead) fun first rest hrest => ?_
      exact carries_bind (ih.block hrest) fun others rest hrest => carries_pure hrest
  · obtain rfl := h.resolve_left hahead
    obtain ⟨hend, -, hmarks⟩ := s.joins.resolve_left fun h => hahead (.inl h)
    have hfails : Meets (block (n + 1) s.near) (fun _ _ _ => False) (fun e _ _ => s.atEnd e)
        False := by
      rw [meets_block, if_neg (by rw [hend]; decide), if_pos hend]
      exact hmarks _
    rw [List.nil_append]
    generalize block (n + 1) s.near = r at hfails
    rcases r with ⟨_ | _ | _, log⟩
    · exact hfails.elim
    · exact .failedAtEnd _ log hfails _
    · exact hfails.elim

end

/-- **Statements carry over** to every larger budget. -/
theorem stmtCarries (s : Seam) {n m : Nat} (hle : n ≤ m) : StmtCarries s n m := by
  induction n generalizing m with
  | zero =>
      constructor <;> intros <;> exact .outOfFuel _ _
  | succ n ih =>
      obtain ⟨m, rfl⟩ : ∃ m', m = m' + 1 := ⟨m - 1, by omega⟩
      have hle := Nat.le_of_succ_le_succ hle
      have ih := ih hle
      exact ⟨declaration_carries ih hle, statement_carries ih hle, block_carries ih⟩

/-! ## Programs -/

/-- **A larger budget changes nothing.** -/
theorem declarations_mono {n m : Nat} (hle : n ≤ m) {ts : List Token}
    (hfuel : (declarations n ts).1 ≠ .outOfFuel) : declarations m ts = declarations n ts := by
  have hcarries : ∀ {n m : Nat}, n ≤ m → ∀ ts : List Token,
      Carries Seam.nothing (fun _ _ => True) (declarations n (ts ++ Seam.nothing.near))
        (declarations m (ts ++ Seam.nothing.far)) := by
    intro n
    induction n with
    | zero => exact fun _ _ => .outOfFuel _ _
    | succ n ih =>
        intro m hle ts
        obtain ⟨m, rfl⟩ : ∃ m', m = m' + 1 := ⟨m - 1, by omega⟩
        have hle := Nat.le_of_succ_le_succ hle
        have hts : Seam.nothing.Ahead ts := .inl ⟨rfl, rfl⟩
        rw [declarations, declarations]
        refine carries_peek hts ?_
        split
        · exact carries_pure trivial
        · refine carries_bind ((stmtCarries _ hle).declaration hts) fun first rest _ => ?_
          exact carries_bind (ih hle rest) fun others rest _ => carries_pure trivial
  have hruns := hcarries hle ts
  rw [show Seam.nothing.near = [] from rfl, show Seam.nothing.far = [] from rfl,
    List.append_nil] at hruns
  generalize declarations n ts = r, declarations m ts = r' at hfuel hruns
  cases hruns with
  | ok | fail => rfl
  | outOfFuel => exact absurd rfl hfuel
  | failedAtEnd rest log h => exact h.elim
  | recordedAtEnd p h =>
      obtain ⟨e, -, hend⟩ := h
      exact hend.elim

/-- What is read does not depend on the budget, as long as it suffices. -/
theorem declarations_eq {n m : Nat} {ts : List Token} (hn : (declarations n ts).1 ≠ .outOfFuel)
    (hm : (declarations m ts).1 ≠ .outOfFuel) : declarations n ts = declarations m ts := by
  rcases Nat.le_total n m with hle | hle
  · exact (declarations_mono hle hn).symm
  · exact declarations_mono hle hm

/-- What was read and recorded before the rest of a program. -/
def preceded (ss : List Stmt) (log : List Finding) :
    Parsed (List Stmt) × List Finding → Parsed (List Stmt) × List Finding
  | (.ok more rest, errors) => (.ok (ss ++ more) rest, log ++ errors)
  | (.fail e rest, errors) => (.fail e rest, log ++ errors)
  | (.outOfFuel, errors) => (.outOfFuel, log ++ errors)

theorem bind_of_ok {p : Recovering α} {f : α → Recovering β} {ts rest : List Token} {a : α}
    {log : List Finding} (h : p ts = (.ok a rest, log)) :
    (p >>= f) ts = ((f a rest).1, log ++ (f a rest).2) := by
  simp only [bind, h]

/-- A declaration comes before those that follow it. -/
theorem declarations_eq_preceded {n : Nat} {ts rest : List Token} {first : Stmt}
    {log : List Finding} (hts : (current ts).kind ≠ .eof)
    (h : declaration n ts = (.ok first rest, log)) :
    declarations (n + 1) ts = preceded [first] log (declarations n rest) := by
  have hpeek : (liftM peek : Recovering Token) ts = (.ok (current ts) ts, []) := rfl
  rw [declarations, bind_of_ok hpeek, if_neg hts, bind_of_ok h]
  rcases hmore : declarations n rest with ⟨more | _ | _, errors⟩
  · rw [bind_of_ok hmore]
    show (Parsed.ok (first :: more) _, log ++ (errors ++ [])) = _
    rw [List.append_nil]
    rfl
  · simp only [bind, hmore]
    rfl
  · simp only [bind, hmore]
    rfl

theorem preceded_preceded (ss ss' : List Stmt) (log log' : List Finding)
    (r : Parsed (List Stmt) × List Finding) :
    preceded ss log (preceded ss' log' r) = preceded (ss ++ ss') (log ++ log') r := by
  rcases r with ⟨_ | _ | _, errors⟩ <;> simp [preceded]

@[simp] theorem preceded_nil (r : Parsed (List Stmt) × List Finding) :
    preceded [] [] r = r := by
  rcases r with ⟨_ | _ | _, errors⟩ <;> rfl

/-- Declarations that start with one do not exhaust the budget before it is read. -/
theorem declarations_cases {n : Nat} {ts : List Token} (hts : (current ts).kind ≠ .eof)
    {r : Parsed (List Stmt)} {log : List Finding} (hr : r ≠ .outOfFuel)
    (hrun : declarations (n + 1) ts = (r, log)) :
    ∃ first rest errors r' log', declaration n ts = (.ok first rest, errors) ∧ rest <:+ ts ∧
      declarations n rest = (r', log') ∧ r' ≠ .outOfFuel ∧
      (r, log) = preceded [first] errors (r', log') := by
  have hmeets := (stmtProgress n).declaration ts
  rcases hfirst : declaration n ts with ⟨first | _ | _, errors⟩
  all_goals rw [hfirst] at hmeets
  · rename_i rest
    have hprec := declarations_eq_preceded hts hfirst
    rcases hmore : declarations n rest with ⟨r', log'⟩
    rw [hrun, hmore] at hprec
    refine ⟨first, rest, errors, r', log', rfl, hmeets.1, hmore, ?_, hprec⟩
    rintro rfl
    exact hr (congrArg Prod.fst hprec)
  · exact hmeets.elim
  · have hpeek : (liftM peek : Recovering Token) ts = (.ok (current ts) ts, []) := rfl
    rw [declarations, bind_of_ok hpeek, if_neg hts] at hrun
    simp only [bind, hfirst] at hrun
    exact absurd (congrArg Prod.fst hrun).symm hr

/-- **A program goes on after the seam.** If the first run, in which nothing follows the stretch,
records no error at its end, then the second one reads the same from the stretch, and after that
what follows. -/
theorem declarations_seam {s : Seam} (hnear : (current s.near).kind = .eof) {n m : Nat}
    (hle : n ≤ m) {xs : List Token} (hxs : s.Joins xs) (hne : ∀ t ∈ xs, t.kind ≠ .eof)
    {r : Parsed (List Stmt)} {log : List Finding} (hr : r ≠ .outOfFuel)
    (hrun : declarations n (xs ++ s.near) = (r, log)) (hlog : ∀ e ∈ log, ¬s.atEnd e) :
    ∃ ss k, r = .ok ss s.near ∧
      declarations m (xs ++ s.far) = preceded ss log (declarations (m - k) s.far) := by
  induction n generalizing m xs r log with
  | zero =>
      cases hrun
      exact absurd rfl hr
  | succ n ih =>
      obtain ⟨m, rfl⟩ : ∃ m', m = m' + 1 := ⟨m - 1, by omega⟩
      have hle := Nat.le_of_succ_le_succ hle
      cases xs with
      | nil =>
          have hpeek : (liftM peek : Recovering Token) s.near = (.ok (current s.near) s.near, []) :=
            rfl
          rw [List.nil_append, declarations, bind_of_ok hpeek, if_pos hnear] at hrun
          cases hrun
          exact ⟨[], 0, rfl, (preceded_nil _).symm⟩
      | cons t ts =>
          have hahead : s.Ahead (t :: ts) := hxs.resolve_right (by simp)
          have ht (us : List Token) : (current (t :: ts ++ us)).kind ≠ .eof :=
            hne t List.mem_cons_self
          have hcarries := (stmtCarries s hle).declaration hahead
          obtain ⟨first, rest, errors, r', log', hfirst, hsuffix, hmore, hr', heq⟩ :=
            declarations_cases (ht s.near) hr hrun
          have hall : log = errors ++ log' := by
            rcases r' with _ | _ | _ <;> exact congrArg Prod.snd heq
          rw [hall, List.forall_mem_append] at hlog
          rw [hfirst] at hcarries
          generalize hsecond : declaration m (t :: ts ++ s.far) = second at hcarries
          cases hcarries with
          | @ok _ rest _ hrest =>
              have hsub : rest <:+ t :: ts := List.suffix_append_self_iff.mp hsuffix
              obtain ⟨ss, k, rfl, hfar⟩ :=
                ih hle hrest (fun t' hmem => hne t' (hsub.subset hmem)) hr' hmore hlog.2
              refine ⟨first :: ss, k + 1, congrArg Prod.fst heq, ?_⟩
              rw [declarations_eq_preceded (ht s.far) hsecond, hfar, preceded_preceded,
                Nat.add_sub_add_right, hall]
              rfl
          | recordedAtEnd p h =>
              obtain ⟨e, hmem, hend⟩ := h
              exact absurd hend (hlog.1 e hmem)

end Recovering

open Recovering

/-- **Recovery is confined by a semicolon.** Tokens `A` that end in a semicolon are followed by
tokens `B` that do not begin with an `else`. If no error is recorded at the end token when `A` is
read alone, whatever other errors there are, then reading both gives the statements of `A` followed
by those of `B`, missing ones included, and the errors of `A` followed by those of `B`, by
whichever line breaks they are placed. -/
theorem ofTokens_append {A B : List Token} {ending ending' : Token}
    (hA : ∀ t ∈ A, t.kind ≠ .eof) (hsemi : EndsInSemi A)
    (helse : ∀ t ∈ B.head?, t.kind ≠ .elseWord) (hending : ending.kind = .eof)
    (hending' : ending'.kind = .eof)
    (hclean : ∀ e ∈ (Program.ofTokens (A ++ [ending]) 0).errors, e.offset ≠ ending.offset) :
    (Program.ofTokens (A ++ B ++ [ending']) 0).stmts =
        (Program.ofTokens (A ++ [ending]) 0).stmts ++
          (Program.ofTokens (B ++ [ending']) 0).stmts ∧
      (Program.ofTokens (A ++ B ++ [ending']) 0).errors =
        (Program.ofTokens (A ++ [ending]) 0).errors ++
          (Program.ofTokens (B ++ [ending']) 0).errors ∧
      ∀ lines, (Program.ofTokens (A ++ B ++ [ending']) 0).diagnostics lines =
        (Program.ofTokens (A ++ [ending]) 0).diagnostics lines ++
          (Program.ofTokens (B ++ [ending']) 0).diagnostics lines := by
  have hfar : (current (B ++ [ending'])).kind ≠ .elseWord := by
    cases B with
    | nil => rw [List.nil_append, current_cons, hending']; decide
    | cons t ts => exact helse t rfl
  let s : Seam := ⟨[ending], B ++ [ending'], fun e => e.offset = ending.offset,
    .inr ⟨hending, hfar, fun _ => rfl⟩⟩
  have hstart : startAt (A ++ (B ++ [ending'])) 0 = A ++ (B ++ [ending']) := by
    rw [← List.append_assoc]
    exact Grammar.startAt_zero hending'
  obtain ⟨stmtsA, restA, errorsA, hrunA, -⟩ := Grammar.program_ok (A ++ [ending])
  obtain ⟨stmtsB, restB, errorsB, hrunB, -⟩ := Grammar.program_ok (B ++ [ending'])
  obtain ⟨stmts, rest, errors, hrun, -⟩ := Grammar.program_ok (A ++ (B ++ [ending']))
  have hreadA : Program.ofTokens (A ++ [ending]) 0 = ⟨stmtsA, errorsA⟩ :=
    Grammar.ofTokens_eq (Grammar.startAt_zero hending ▸ hrunA)
  have hreadB : Program.ofTokens (B ++ [ending']) 0 = ⟨stmtsB, errorsB⟩ :=
    Grammar.ofTokens_eq (Grammar.startAt_zero hending' ▸ hrunB)
  have hread : Program.ofTokens (A ++ (B ++ [ending'])) 0 = ⟨stmts, errors⟩ :=
    Grammar.ofTokens_eq (hstart ▸ hrun)
  rw [hreadA] at hclean
  rw [List.append_assoc, hreadA, hreadB, hread]
  have hle : budget (A ++ [ending]) ≤ budget (A ++ (B ++ [ending'])) := by
    simp only [budget, List.length_append, List.length_singleton]
    omega
  obtain ⟨ss, k, hss, hboth⟩ := declarations_seam (s := s) hending hle (.inl (.inr hsemi)) hA
    (by simp) hrunA hclean
  obtain ⟨rfl, -⟩ := Parsed.ok.inj hss
  have hprogram : preceded stmtsA errorsA
      (declarations (budget (A ++ (B ++ [ending'])) - k) (B ++ [ending'])) =
        (.ok stmts rest, errors) := hboth.symm.trans hrun
  have hafter : declarations (budget (A ++ (B ++ [ending'])) - k) (B ++ [ending']) =
      (.ok stmtsB restB, errorsB) := by
    refine (declarations_eq ?_ ?_).trans hrunB
    · intro hout
      rcases hrest : declarations (budget (A ++ (B ++ [ending'])) - k) (B ++ [ending']) with
        ⟨_ | _ | _, more⟩
      all_goals rw [hrest] at hout hprogram
      · cases hout
      · cases hout
      · cases hprogram
    · rw [show declarations (budget (B ++ [ending'])) (B ++ [ending']) = _ from hrunB]
      simp
  rw [hafter] at hprogram
  cases hprogram
  refine ⟨rfl, rfl, fun lines => ?_⟩
  simp [Program.diagnostics]

/-- The tokens of `{ a = ; b; } ) ;`. -/
def brokenBlock : List Token :=
  [⟨.lbrace, utf8 "\x7b", 0, 0⟩, ⟨.ident, utf8 "a", 0, 2⟩, ⟨.assign, utf8 "=", 0, 4⟩,
    ⟨.semi, utf8 ";", 0, 6⟩, ⟨.ident, utf8 "b", 0, 8⟩, ⟨.semi, utf8 ";", 0, 9⟩,
    ⟨.rbrace, utf8 "\x7d", 0, 11⟩, ⟨.rparen, utf8 ")", 0, 13⟩, ⟨.semi, utf8 ";", 0, 15⟩]

/-- The tokens of `} c;` after them. -/
def strayBrace : List Token :=
  [⟨.rbrace, utf8 "\x7d", 0, 17⟩, ⟨.ident, utf8 "c", 0, 19⟩, ⟨.semi, utf8 ";", 0, 20⟩]

/-- A statement dropped from a block, a statement that is missing, and a closing brace too
many. -/
theorem ofTokens_append_brokenBlock :
    (∀ e ∈ (Program.ofTokens (brokenBlock ++ [Token.endAt 16]) 0).errors, e.offset ≠ 16) ∧
      (Program.ofTokens (brokenBlock ++ strayBrace ++ [Token.endAt 21]) 0).stmts =
        [.block 0 [.expr 8 (.ident 8 (utf8 "b"))], .missing] ++ [.missing] ∧
      (Program.ofTokens (brokenBlock ++ strayBrace ++ [Token.endAt 21]) 0).errors =
        [⟨.expected .expression, 6⟩, ⟨.expected .expression, 13⟩] ++
          [⟨.expected .expression, 17⟩] := by
  have hfirst : Program.ofTokens (brokenBlock ++ [Token.endAt 16]) 0 =
      ⟨[.block 0 [.expr 8 (.ident 8 (utf8 "b"))], .missing],
        [⟨.expected .expression, 6⟩, ⟨.expected .expression, 13⟩]⟩ := by rfl
  have hsecond : Program.ofTokens (strayBrace ++ [Token.endAt 21]) 0 =
      ⟨[.missing], [⟨.expected .expression, 17⟩]⟩ := by rfl
  have hclean : ∀ e ∈ (Program.ofTokens (brokenBlock ++ [Token.endAt 16]) 0).errors,
      e.offset ≠ 16 := by
    rw [hfirst]
    decide
  obtain ⟨hstmts, herrors, -⟩ := @ofTokens_append brokenBlock strayBrace (Token.endAt 16)
    (Token.endAt 21) (by decide) ⟨brokenBlock.dropLast, ⟨.semi, utf8 ";", 0, 15⟩, rfl, rfl⟩
    (by decide) rfl rfl hclean
  rw [hfirst, hsecond] at hstmts herrors
  exact ⟨hclean, hstmts, herrors⟩

end Badger
