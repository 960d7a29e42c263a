import Badger.Proofs.Grammar.Acceptance
import Badger.Proofs.Parsing.Passage
import Badger.Proofs.Token.Stream
import Mathlib.Data.List.Forall2

/-!
# One error for each declaration that fails

A declaration that fails is reported where it fails, before the construct around it goes on. So a
declaration inside a block is reported before the one that the block belongs to, and it stays
reported when that one fails later.

## Main definitions

* `Attempt`: an attempt to read a declaration
* `Recovering.declarationAttempts` and the like: the attempts inside the blocks of a construct
* `Parser.attempts`: the attempts at the top level of a program, each with those inside it
* `Records`: what is recorded on the way through some tokens, one error for each failed attempt
* `Finding.Precedes`: the order of two errors
* `Recovering.Reports`: a parser that records in this way

## Main statements

* `Recovering.stmtReports`: what the parsers of statements record, at every budget
* `Recovering.declarations_records`: what a program records
* `Records.pairwise`: what is recorded comes in the order of the tokens
* `Program.errors_ofText`: **the syntax errors of a text come in its order**, and there is one for
  each declaration that fails

## Design notes

The attempts follow the calls of the parser, and take the results from the parser itself. They
are listed as they end, those inside a declaration before it.
-/

namespace Badger

open Badger.Parser

variable {α β γ : Type} {ts us rest : List Token}

/-- What comes of a result and the tokens left; nothing comes of a failure. -/
def Parsed.andThen (r : Parsed α) (f : α → List Token → List γ) : List γ :=
  match r with
  | .ok a rest => f a rest
  | _ => []

/-! ## Attempts -/

/-- **An attempt to read a declaration**: the tokens that it starts at, what becomes of it, and the
tokens that are left. -/
structure Attempt where
  start : List Token
  result : Stmt
  rest : List Token
  /-- It is a run of the parser. -/
  ran : ∃ fuel, (Recovering.declaration fuel start).1 = .ok result rest

namespace Attempt

/-- Whether the declaration has failed; a missing statement takes its place then. -/
def failed (a : Attempt) : Bool := a.result.isMissing

/-- The attempt to read a declaration from some tokens, within a budget. -/
def make (fuel : Nat) (ts : List Token) : Option Attempt :=
  match h : (Recovering.declaration fuel ts).1 with
  | .ok s rest => some ⟨ts, s, rest, fuel, h⟩
  | _ => none

theorem exists_make {fuel : Nat} {s : Stmt}
    (h : (Recovering.declaration fuel ts).1 = .ok s rest) :
    ∃ a, make fuel ts = some a ∧ a.start = ts ∧ a.result = s ∧ a.rest = rest := by
  unfold make
  split
  · next s' rest' h' =>
    obtain ⟨rfl, rfl⟩ := Parsed.ok.inj (h.symm.trans h')
    exact ⟨_, rfl, rfl, rfl, rfl⟩
  · next hnone => exact absurd h (hnone _ _)

end Attempt

namespace Recovering

mutual

/-- The attempts inside the blocks of a declaration. -/
def declarationAttempts : Nat → List Token → List Attempt
  | 0, _ => []
  | fuel + 1, ts =>
    if (current ts).kind.isType then []
    else if (current ts).kind = .fxn then
      (functionHead fuel ts).andThen fun _ rest => blockAttempts fuel rest
    else statementAttempts fuel ts

/-- The attempts inside the blocks of a statement. -/
def statementAttempts : Nat → List Token → List Attempt
  | 0, _ => []
  | fuel + 1, ts =>
    match (current ts).kind with
    | .lbrace => (take ts).andThen fun _ rest => blockAttempts fuel rest
    | .ifWord =>
      (condition fuel .parenthesisAfterIf ts).andThen fun _ rest =>
        statementAttempts fuel rest ++
          (statement fuel rest).1.andThen fun _ rest' =>
            (accept .elseWord rest').andThen fun found rest'' =>
              if found then statementAttempts fuel rest'' else []
    | .whileWord =>
      (condition fuel .parenthesisAfterWhile ts).andThen fun _ rest => statementAttempts fuel rest
    | _ => []

/-- The attempts that a block is made of, and those inside them. -/
def blockAttempts : Nat → List Token → List Attempt
  | 0, _ => []
  | fuel + 1, ts =>
    if (current ts).kind = .rbrace || (current ts).kind = .eof then []
    else
      declarationAttempts fuel ts ++ (Attempt.make fuel ts).toList ++
        (declaration fuel ts).1.andThen fun _ rest => blockAttempts fuel rest

end

end Recovering

/-- An attempt at the top level of a program, and the attempts inside its blocks. -/
structure TopAttempt where
  inBlocks : List Attempt
  whole : Attempt

/-- All attempts that belong to one at the top level. -/
def TopAttempt.all (t : TopAttempt) : List Attempt := t.inBlocks ++ [t.whole]

/-- The attempts to read declarations up to the end of the tokens. -/
def Recovering.declarationsAttempts : Nat → List Token → List TopAttempt
  | 0, _ => []
  | fuel + 1, ts =>
    if (current ts).kind = .eof then []
    else
      match Attempt.make fuel ts with
      | none => []
      | some a =>
        ⟨declarationAttempts fuel ts, a⟩ :: Recovering.declarationsAttempts fuel a.rest

/-- **The attempts that reading a program makes.** -/
def Parser.attempts (ts : List Token) : List TopAttempt :=
  Recovering.declarationsAttempts (budget ts) ts

/-! ## What is recorded -/

/-- Recovery moves on from the token of an error, unless that is the end token. -/
theorem Passes.current_eof_of_synchronize {us rest : List Token} (h : Passes us rest)
    (heq : us = Recovering.synchronize rest) : (current us).kind = .eof := by
  have hrest : us = rest := h.antisymm (heq ▸ Passes.synchronize rest)
  by_contra hne
  have hshort := (Recovering.synchronize_shorter (hrest ▸ hne)).2
  rw [← heq, hrest] at hshort
  exact Nat.lt_irrefl _ hshort

/-- **What is recorded on the way from some tokens to what is left of them**: one error for each
failed attempt. It is placed at a token that the attempt comes to, and the attempt leaves that token
behind, unless it is the end token. -/
inductive Records : List Token → List Attempt → List Finding → List Token → Prop where
  | nil {ts rest : List Token} (h : Passes ts rest) : Records ts [] [] rest
  | cons {ts us rest : List Token} {a : Attempt} {e : Finding} {failures : List Attempt}
      {log : List Finding} (hbefore : Passes ts us) (hstart : Passes a.start us)
      (hoffset : e.offset = (current us).offset) (hafter : Passes us a.rest)
      (hmoves : us = a.rest → (current us).kind = .eof)
      (hmore : Records a.rest failures log rest) : Records ts (a :: failures) (e :: log) rest

namespace Records

variable {failures failures' : List Attempt} {log log' : List Finding}

theorem passes (h : Records ts failures log rest) : Passes ts rest := by
  induction h with
  | nil h => exact h
  | cons hbefore _ _ hafter _ _ ih => exact (hbefore.trans hafter).trans ih

/-- The way may start earlier. -/
theorem of_passes (hts : Passes ts us) (h : Records us failures log rest) :
    Records ts failures log rest := by
  cases h with
  | nil h => exact .nil (hts.trans h)
  | cons hbefore hstart hoffset hafter hmoves hmore =>
      exact .cons (hts.trans hbefore) hstart hoffset hafter hmoves hmore

/-- One way after another. -/
theorem append (h : Records ts failures log us) (h' : Records us failures' log' rest) :
    Records ts (failures ++ failures') (log ++ log') rest := by
  induction h with
  | nil h => exact h'.of_passes h
  | cons hbefore hstart hoffset hafter hmoves _ ih =>
      exact .cons hbefore hstart hoffset hafter hmoves (ih h')

/-- A failed attempt. -/
theorem single {a : Attempt} {e : Finding} (hstart : Passes a.start ts) (he : e.Within ts us)
    (hrest : a.rest = Recovering.synchronize us) : Records ts [a] [e] a.rest := by
  obtain ⟨vs, hbefore, hafter, hoffset⟩ := he
  have hpasses : Passes vs a.rest := hrest ▸ hafter.trans (.synchronize us)
  exact .cons hbefore (hstart.trans hbefore) hoffset hpasses
    (fun heq => hafter.current_eof_of_synchronize (heq.trans hrest)) (.nil (.refl _))

/-- Each error is placed at a token of its attempt. -/
theorem forall₂_within (h : Records ts failures log rest) :
    List.Forall₂ (fun a e => e.Within a.start a.rest) failures log := by
  induction h with
  | nil => exact .nil
  | cons _ hstart hoffset hafter _ _ ih => exact .cons ⟨_, hstart, hafter, hoffset⟩ ih

end Records

/-! ### The order of the record -/

/-- **Tokens in order**, up to an end token. -/
structure InOrder (ts : List Token) : Prop where
  increasing : ts.Pairwise fun t u => t.offset < u.offset
  ends : ∃ t ∈ ts, t.kind = .eof

namespace InOrder

theorem of_passes (h : InOrder ts) (hpasses : Passes ts rest) : InOrder rest := by
  obtain ⟨passed, rfl, hpassed⟩ := hpasses
  obtain ⟨t, ht, hkind⟩ := h.ends
  rw [List.mem_append] at ht
  exact ⟨h.increasing.sublist (List.sublist_append_right passed rest), t,
    ht.resolve_left fun ht => hpassed t ht hkind, hkind⟩

theorem current_mem (h : InOrder ts) : current ts ∈ ts := by
  cases ts with
  | nil =>
      obtain ⟨t, ht, -⟩ := h.ends
      cases ht
  | cons t ts => exact List.mem_cons_self

/-- Further on the token ahead has a greater offset. -/
theorem offset_current (h : InOrder ts) (hpasses : Passes ts rest) :
    ts = rest ∨ (current ts).offset < (current rest).offset := by
  have hrest := (h.of_passes hpasses).current_mem
  obtain ⟨passed, rfl, -⟩ := hpasses
  cases passed with
  | nil => exact .inl rfl
  | cons t passed =>
      exact .inr ((List.pairwise_cons.mp h.increasing).1 _ (List.mem_append_right passed hrest))

theorem offset_current_le (h : InOrder ts) (hpasses : Passes ts rest) :
    (current ts).offset ≤ (current rest).offset := by
  rcases h.offset_current hpasses with rfl | hlt
  · exact Int.le_refl _
  · exact Int.le_of_lt hlt

end InOrder

/-- **The order of two errors**: the second one is placed further on, unless both are placed at the
end token. -/
def Finding.Precedes (tokens : List Token) (e e' : Finding) : Prop :=
  e.offset ≤ e'.offset ∧
    (e.offset = e'.offset → ∃ t ∈ tokens, t.kind = .eof ∧ e.offset = t.offset)

namespace Records

variable {failures : List Attempt} {log : List Finding}

/-- Nothing is recorded at a token behind the start. -/
theorem current_le (h : Records ts failures log rest) (hts : InOrder ts) :
    ∀ e ∈ log, (current ts).offset ≤ e.offset := by
  induction h with
  | nil => exact nofun
  | @cons ts us _ a e _ _ hbefore _ hoffset hafter _ _ ih =>
      have hus := hts.offset_current_le hbefore
      have hrest := (hts.of_passes hbefore).offset_current_le hafter
      rw [List.forall_mem_cons]
      refine ⟨by omega, fun e' he' => ?_⟩
      have hlater := ih (hts.of_passes (hbefore.trans hafter)) e' he'
      omega

/-- **What is recorded comes in the order of the tokens.** -/
theorem pairwise {tokens : List Token} (h : Records ts failures log rest) (hts : InOrder ts)
    (hsuffix : ts <:+ tokens) : log.Pairwise (Finding.Precedes tokens) := by
  induction h with
  | nil => exact .nil
  | @cons ts us _ a e _ _ hbefore _ hoffset hafter hmoves hmore ih =>
      have hus := hts.of_passes hbefore
      have hrest := hus.of_passes hafter
      refine .cons (fun e' he' => ?_) (ih hrest ((hbefore.trans hafter).suffix.trans hsuffix))
      have hlater := hmore.current_le hrest e' he'
      rcases hus.offset_current hafter with heq | hlt
      · rw [← heq] at hlater
        exact ⟨by omega, fun _ => ⟨current us,
          (hbefore.suffix.trans hsuffix).subset hus.current_mem, hmoves heq, hoffset⟩⟩
      · exact ⟨by omega, fun _ => by omega⟩

end Records

/-! ## Parsers that record errors -/

namespace Recovering

/-- **A parser records its failed attempts**: an error for each of them, in the order in which they
end; an error that stops the parser is placed behind those. `good` holds of the result. -/
def Reports (tried : List Attempt) (good : α → Prop) (ts : List Token)
    (r : Parsed α × List Finding) : Prop :=
  Meets r (fun a rest log => good a ∧ Records ts (tried.filter Attempt.failed) log rest)
    (fun e rest log => ∃ us, Records ts (tried.filter Attempt.failed) log us ∧ e.Within us rest)
    True

variable {tried : List Attempt} {pre : α → Prop} {good : β → Prop}

theorem reports_pure {b : β} (h : good b) : Reports [] good ts ((pure b : Recovering β) ts) :=
  ⟨h, .nil (.refl ts)⟩

/-- An orderly parser has nothing to record. -/
theorem reports_lift {p : Parser α} (hp : Orderly p pre) :
    Reports [] pre ts ((liftM p : Recovering α) ts) :=
  hp.followedBy ts (fun _ _ ha hrest => ⟨ha, .nil hrest⟩)
    fun _ _ he => ⟨ts, .nil (.refl ts), he⟩

/-- What was recorded before another parser is recorded in front of it. -/
theorem reports_prepend {log : List Finding} {more : List Attempt} {r : Parsed β × List Finding}
    (hbefore : Records ts (tried.filter Attempt.failed) log us) (h : Reports more good us r) :
    Reports (tried ++ more) good ts (r.1, log ++ r.2) := by
  rw [Reports, List.filter_append]
  rcases r with ⟨_ | _ | _, later⟩
  · exact ⟨h.1, hbefore.append h.2⟩
  · obtain ⟨vs, hafter, he⟩ := h
    exact ⟨vs, hbefore.append hafter, he⟩
  · trivial

/-- **One parser after another.** -/
theorem reports_bind {p : Recovering α} {f : α → Recovering β}
    {more : α → List Token → List Attempt} (hp : Reports tried pre ts (p ts))
    (hf : ∀ a rest, pre a → Reports (more a rest) good rest (f a rest)) :
    Reports (tried ++ (p ts).1.andThen more) good ts ((p >>= f) ts) := by
  simp only [bind]
  generalize p ts = r at hp
  rcases r with ⟨_ | _ | _, log⟩
  · exact reports_prepend hp.2 (hf _ _ hp.1)
  · show Reports (tried ++ []) good ts _
    rw [List.append_nil]
    exact hp
  · trivial

/-- What follows an orderly parser. -/
theorem reports_lift_bind {p : Parser α} {f : α → Recovering β}
    {more : α → List Token → List Attempt} (hp : Orderly p pre)
    (hf : ∀ a rest, pre a → Reports (more a rest) good rest (f a rest)) :
    Reports ((p ts).andThen more) good ts ((liftM p >>= f : Recovering β) ts) :=
  reports_bind (reports_lift hp) hf

/-- What follows a look at the token ahead. -/
theorem reports_peek {f : Token → Recovering β} {tried : List Attempt}
    (h : Reports tried good ts (f (current ts) ts)) :
    Reports tried good ts ((liftM peek >>= f : Recovering β) ts) := h

/-- What comes last has no blocks in it. -/
theorem reports_bind_pure {p : Recovering α} {f : α → β} (hp : Reports tried pre ts (p ts))
    (hf : ∀ a, pre a → good (f a)) :
    Reports tried good ts ((p >>= fun a => pure (f a)) ts) := by
  have hbind : Reports (tried ++ (p ts).1.andThen fun _ _ => []) good ts
      ((p >>= fun a => pure (f a)) ts) :=
    reports_bind hp fun a _ ha => reports_pure (hf a ha)
  have hnothing : (p ts).1.andThen (fun _ _ => ([] : List Attempt)) = [] := by
    cases (p ts).1 <;> rfl
  rwa [hnothing, List.append_nil] at hbind

/-- **A declaration that fails is recorded**, behind everything inside it. -/
theorem reports_recover {fuel : Nat} {p : Recovering Stmt}
    (hdeclaration : declaration fuel ts = recover p ts)
    (hp : Reports tried (fun s => s.isMissing = false) ts (p ts)) :
    Reports (tried ++ (Attempt.make fuel ts).toList) (fun _ => True) ts (declaration fuel ts) := by
  rw [recover] at hdeclaration
  rw [Reports, List.filter_append]
  generalize p ts = r at hp hdeclaration
  rcases r with ⟨_ | _ | _, log⟩
  · next s rest =>
    obtain ⟨hs, hrecords⟩ := hp
    obtain ⟨a, ha, -, hresult, -⟩ := Attempt.exists_make (congrArg Prod.fst hdeclaration)
    have hsucceeds : [a].filter Attempt.failed = [] := by simp [Attempt.failed, hresult, hs]
    rw [hdeclaration, ha, Option.toList_some, hsucceeds, List.append_nil]
    exact ⟨trivial, hrecords⟩
  · next e rest =>
    obtain ⟨us, hrecords, he⟩ := hp
    obtain ⟨a, ha, hstart, hresult, hrest⟩ :=
      Attempt.exists_make (congrArg Prod.fst hdeclaration)
    have hfails : [a].filter Attempt.failed = [a] := by
      simp [Attempt.failed, hresult, Stmt.isMissing]
    rw [hdeclaration, ha, Option.toList_some, hfails]
    have hsingle := Records.single (hstart ▸ hrecords.passes) he hrest
    exact ⟨trivial, hrest ▸ hrecords.append hsingle⟩
  · rw [hdeclaration]
    trivial

/-! ### Declarations, statements and blocks -/

/-- **What the parsers of statements record**, at a budget. -/
structure StmtReports (fuel : Nat) : Prop where
  declaration (ts : List Token) : Reports
    (declarationAttempts fuel ts ++ (Attempt.make fuel ts).toList) (fun _ => True) ts
    (declaration fuel ts)
  statement (ts : List Token) : Reports (statementAttempts fuel ts)
    (fun s => s.isMissing = false) ts (statement fuel ts)
  block (ts : List Token) : Reports (blockAttempts fuel ts) (fun _ => True) ts (block fuel ts)

section

variable {fuel : Nat} (ih : StmtReports fuel)

include ih

private theorem declaration_reports (ts : List Token) : Reports
    (declarationAttempts (fuel + 1) ts ++ (Attempt.make (fuel + 1) ts).toList) (fun _ => True) ts
    (declaration (fuel + 1) ts) := by
  refine reports_recover (by rw [declaration]) (reports_peek ?_)
  rw [declarationAttempts]
  by_cases htype : (current ts).kind.isType
  · rw [if_pos htype, if_pos htype]
    exact reports_lift (orderly_variableDeclaration fuel)
  · rw [if_neg htype, if_neg htype]
    by_cases hfxn : (current ts).kind = .fxn
    · rw [if_pos hfxn, if_pos hfxn]
      refine reports_lift_bind (orderly_functionHead fuel) fun head rest _ => ?_
      exact reports_bind_pure (ih.block rest) fun body _ => rfl
    · rw [if_neg hfxn, if_neg hfxn]
      exact ih.statement ts

private theorem statement_reports (ts : List Token) : Reports (statementAttempts (fuel + 1) ts)
    (fun s => s.isMissing = false) ts (statement (fuel + 1) ts) := by
  rw [statement, statementAttempts]
  refine reports_peek ?_
  cases (current ts).kind with
  | returnWord => exact reports_lift (orderly_returnStatement fuel)
  | lbrace =>
      refine reports_lift_bind orderly_take fun brace rest _ => ?_
      exact reports_bind_pure (ih.block rest) fun body _ => rfl
  | ifWord =>
      refine reports_lift_bind (orderly_condition fuel _) fun head rest _ => ?_
      refine reports_bind (ih.statement rest) fun yes rest _ => ?_
      refine reports_lift_bind (orderly_accept .elseWord) fun found rest _ => ?_
      cases found with
      | true => exact reports_bind_pure (ih.statement rest) fun no _ => rfl
      | false => exact reports_pure rfl
  | whileWord =>
      refine reports_lift_bind (orderly_condition fuel _) fun head rest _ => ?_
      exact reports_bind_pure (ih.statement rest) fun body _ => rfl
  | _ => exact reports_lift (orderly_exprStatement fuel)

private theorem block_reports (ts : List Token) :
    Reports (blockAttempts (fuel + 1) ts) (fun _ => True) ts (block (fuel + 1) ts) := by
  rw [block, blockAttempts]
  refine reports_peek ?_
  split
  · exact reports_bind_pure (reports_lift (orderly_expect .rbrace _)) fun _ _ => trivial
  · refine reports_bind (ih.declaration ts) fun first rest _ => ?_
    exact reports_bind_pure (ih.block rest) fun others _ => trivial

end

/-- **What the parsers of statements record**, at every budget. -/
theorem stmtReports (fuel : Nat) : StmtReports fuel := by
  induction fuel with
  | zero => exact ⟨fun _ => trivial, fun _ => trivial, fun _ => trivial⟩
  | succ fuel ih => exact ⟨declaration_reports ih, statement_reports ih, block_reports ih⟩

theorem declarationsAttempts_eq {fuel : Nat} {a : Attempt} (hts : (current ts).kind ≠ .eof)
    (ha : Attempt.make fuel ts = some a) :
    declarationsAttempts (fuel + 1) ts =
      ⟨declarationAttempts fuel ts, a⟩ :: declarationsAttempts fuel a.rest := by
  rw [declarationsAttempts, if_neg hts, ha]

/-- **What a program records.** Its statements are the results of the attempts at the top level. -/
theorem declarations_records (fuel : Nat) (ts : List Token) :
    Meets (declarations fuel ts)
      (fun ss rest log =>
        (declarationsAttempts fuel ts).map (·.whole.result) = ss ∧
          Records ts (((declarationsAttempts fuel ts).flatMap TopAttempt.all).filter
            Attempt.failed) log rest)
      (fun _ _ _ => True) True := by
  induction fuel generalizing ts with
  | zero => trivial
  | succ fuel ih =>
      rw [meets_declarations]
      split
      · next hk =>
        rw [declarationsAttempts, if_pos hk]
        exact ⟨rfl, .nil (.refl ts)⟩
      · next hk =>
        refine (((stmtReports fuel).declaration ts).and (Meets.self _)).mono ?_
          (fun _ _ _ _ => trivial) (fun _ => trivial)
        rintro first us log ⟨⟨-, hbefore⟩, hrun⟩
        obtain ⟨a, ha, -, hresult, hrest⟩ := Attempt.exists_make (congrArg Prod.fst hrun)
        rw [ha] at hbefore
        rw [declarationsAttempts_eq hk ha, hrest, List.map_cons, hresult, List.flatMap_cons,
          List.filter_append]
        refine (ih us).mono ?_ (fun _ _ _ _ => trivial) id
        rintro others rest more ⟨rfl, hafter⟩
        exact ⟨rfl, hbefore.append hafter⟩

end Recovering

/-! ## Whole programs -/

/-- The failures at the top level, and those inside blocks. -/
theorem TopAttempt.countP_all (tops : List TopAttempt) :
    (tops.flatMap TopAttempt.all).countP Attempt.failed =
      (tops.map (·.whole.result)).countP Stmt.isMissing +
        (tops.flatMap (·.inBlocks)).countP Attempt.failed := by
  induction tops with
  | nil => rfl
  | cons top tops ih =>
      rw [List.flatMap_cons, List.countP_append, ih, TopAttempt.all, List.countP_append,
        List.countP_singleton, List.map_cons, List.countP_cons, List.flatMap_cons,
        List.countP_append]
      show _ + (if top.whole.result.isMissing = true then 1 else 0) + _ = _
      omega

/-- The tokens of a text are in order. -/
theorem TokenStream.inOrder_ofText (text : Text) : InOrder (TokenStream.ofText text).tokens := by
  obtain ⟨body, ending, htokens, hending, -⟩ := TokenStream.ofText_tokens text
  exact ⟨TokenStream.pairwise_ofText text, ending, by simp [htokens], hending⟩

/-- **The syntax errors of a text come in its order**: each is placed behind the one before it,
unless both are placed at the end token. There is one for each declaration that fails, at the top
level or inside a block, whether or not the declaration around it fails as well, and it is placed at
a token that the declaration comes to. -/
theorem Program.errors_ofText (text : Text) :
    let tokens := (TokenStream.ofText text).tokens
    let p := Program.ofTokens tokens 0
    let tops := Parser.attempts tokens
    p.errors.Pairwise (Finding.Precedes tokens) ∧
      tops.map (·.whole.result) = p.stmts ∧
      List.Forall₂ (fun a e => e.Within a.start a.rest)
        ((tops.flatMap TopAttempt.all).filter Attempt.failed) p.errors ∧
      p.errors.length =
        p.stmts.countP Stmt.isMissing + (tops.flatMap (·.inBlocks)).countP Attempt.failed := by
  intro tokens p tops
  obtain ⟨body, ending, htokens, hending, -⟩ := TokenStream.ofText_tokens text
  obtain ⟨rest, ⟨hresults, hrecords⟩, -⟩ := Grammar.ofTokens_meets htokens hending
    (Recovering.declarations_records (budget tokens) tokens)
  have hwithin := hrecords.forall₂_within
  refine ⟨hrecords.pairwise (TokenStream.inOrder_ofText text) List.suffix_rfl, hresults, hwithin,
    ?_⟩
  rw [← hwithin.length_eq, ← List.countP_eq_length_filter, TopAttempt.countP_all]
  exact congrArg (fun ss : List Stmt => ss.countP Stmt.isMissing + _) hresults

/-- A block that is still open at the end, with two declarations in it that fail, the second of
them at the end too. -/
example :
    let tokens := (TokenStream.ofText (utf8 "\x7b a b; c")).tokens
    let p := Program.ofTokens tokens 0
    p.stmts.map Stmt.isMissing = [true] ∧ p.errors.map Finding.offset = [4, 8, 8] ∧
      ((Parser.attempts tokens).flatMap TopAttempt.inBlocks).map Attempt.failed = [true, true] := by
  decide

end Badger
