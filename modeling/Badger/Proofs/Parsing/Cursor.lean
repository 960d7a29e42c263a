import Badger.Proofs.Parsing.Attempts
import Badger.Proofs.Parsing.Calls

/-!
# The cursor

The tokens that are ahead of a parser are those from some place in the list on. That place, the
cursor, only moves forward. It passes no end token, and as the list ends with one, it never leaves
the list. Where declarations are read one after the other it moves on with each of them, whether the
declaration succeeds or fails.

## Main definitions

* `Parser.Advances`: a move of the cursor in a list, past no end token
* `Parser.Call.Moves`: what a call does with the cursor

## Main statements

* `Parser.exists_advances`: whoever passes over tokens moves the cursor
* `Parser.Call.passes`, `Parser.Call.Makes.passes`: a call passes over tokens, and so does the way
  to a call that it makes
* `Recovering.declaration_shorter`: a declaration that is not at the end moves on and never fails
* `Parser.program_advances`: **a program is read by moving the cursor forward**, in every call that
  takes part in it

## Design notes

The calls are those of `Parser.Call.Reaches`. The loops over declarations are recursions here: a
round of a loop is a call that makes the next one.
-/

namespace Badger

variable {α : Type} {ts us rest : List Token}

/-- An error lies on the way of the parser that it comes from. -/
theorem Finding.Within.way {e : Finding} (h : e.Within ts rest) : Passes ts rest := by
  obtain ⟨us, hbefore, hafter, -⟩ := h
  exact hbefore.trans hafter

/-- Where there are tokens ahead and the last one is an end token, some are left behind what is
passed. -/
theorem Passes.length_pos {ending : Token} (h : Passes ts rest)
    (hlast : ending ∈ ts.getLast?) (hending : ending.kind = .eof) : 0 < rest.length := by
  obtain ⟨passed, rfl, hpassed⟩ := h
  cases rest with
  | nil =>
      rw [List.append_nil] at hlast
      exact absurd hending (hpassed ending (List.mem_of_getLast? hlast))
  | cons t rest => exact Nat.succ_pos _

namespace Parser

/-! ## Places in a list -/

/-- **The cursor moves** from one token of a list to another: forward, and past no end token. -/
structure Advances (all : List Token) (i j : Nat) : Prop where
  le : i ≤ j
  inside : j < all.length
  past : ∀ k (hk : k < all.length), i ≤ k → k < j → all[k].kind ≠ .eof

theorem complete_ends (ts : List Token) :
    ∃ ending ∈ (complete ts).getLast?, ending.kind = .eof := by
  unfold complete
  split
  · exact ⟨Token.endAt 0, rfl, rfl⟩
  · next last hlast =>
    split
    · next hending => exact ⟨last, hlast, hending⟩
    · exact ⟨Token.endAt last.offset, by simp, rfl⟩

theorem complete_length_pos (ts : List Token) : 0 < (complete ts).length := by
  obtain ⟨ending, hlast, hending⟩ := complete_ends ts
  exact (Passes.refl (complete ts)).length_pos hlast hending

/-- **What passes over tokens moves the cursor.** -/
theorem exists_advances {all : List Token} {ending : Token} (hlast : ending ∈ all.getLast?)
    (hending : ending.kind = .eof) {i : Nat} (hi : i < all.length) (h : Passes (all.drop i) rest) :
    ∃ j, rest = all.drop j ∧ Advances all i j := by
  have hleft : 0 < rest.length :=
    h.length_pos (by rwa [List.getLast?_drop, if_neg (Nat.not_le.mpr hi)]) hending
  obtain ⟨passed, hpassed, hopen⟩ := h
  have hlength : all.length - i = passed.length + rest.length := by
    rw [← List.length_drop, hpassed, List.length_append]
  refine ⟨i + passed.length, ?_, by omega, by omega, fun k hk hik hkj => ?_⟩
  · rw [← List.drop_drop, hpassed, List.drop_left]
  · obtain ⟨n, rfl⟩ := Nat.exists_eq_add_of_le hik
    have hn : n < passed.length := by omega
    have hget : all[i + n]? = passed[n]? := by
      rw [← List.getElem?_drop, hpassed, List.getElem?_append_left hn]
    rw [List.getElem?_eq_getElem hk, List.getElem?_eq_getElem hn, Option.some_inj] at hget
    exact hget ▸ hopen passed[n] (List.getElem_mem hn)

/-- The place that is asked for, or the last one if there is no such place. -/
def origin (all : List Token) (start : Int) : Nat :=
  if start < 0 ∨ (all.length : Int) ≤ start then all.length - 1 else start.toNat

theorem startAt_eq_drop (ts : List Token) (start : Int) :
    startAt ts start = (complete ts).drop (origin (complete ts) start) := by
  unfold startAt origin
  simp only [Bool.or_eq_true, decide_eq_true_eq]
  split <;> rfl

theorem origin_lt {all : List Token} (h : 0 < all.length) (start : Int) :
    origin all start < all.length := by
  unfold origin
  split <;> omega

/-! ## What a call passes over -/

/-- An orderly parser passes over tokens, whether it succeeds or fails. -/
theorem Orderly.passes {p : Parser α} {good : α → Prop} (h : Orderly p good)
    (hrest : (p ts).rest? = some rest) : Passes ts rest :=
  ((h ts).mono (fun _ _ h => h.2) (fun _ _ => Finding.Within.way) id).of_rest? hrest

end Parser

namespace Recovering

open Badger.Parser

/-- So does a parser that records its failed attempts. -/
theorem Reports.passes {tried : List Attempt} {good : α → Prop} {r : Parsed α × List Finding}
    (h : Reports tried good ts r) (hrest : r.1.rest? = some rest) : Passes ts rest := by
  refine Meets.of_rest? (Meets.mono h ?_ ?_ id) hrest
  · rintro a rest log ⟨-, hrecords⟩
    exact hrecords.passes
  · rintro e rest log ⟨us, hrecords, he⟩
    exact hrecords.passes.trans he.way

theorem declarations_passes {fuel : Nat} (hrest : (declarations fuel ts).1.rest? = some rest) :
    Passes ts rest := by
  have h := (declarations_records fuel ts).and (declarations_meets_end fuel ts)
  refine Meets.of_rest? (h.mono ?_ ?_ id) hrest
  · rintro ss rest log ⟨⟨-, hrecords⟩, -⟩
    exact hrecords.passes
  · rintro e rest log ⟨-, hno⟩
    exact hno.elim

/-- **A declaration that is not at the end** moves on, and it does not fail: if something in it
does, a missing statement takes its place. -/
theorem declaration_shorter {fuel : Nat} (hts : (current ts).kind ≠ .eof)
    (hrest : (declaration fuel ts).1.rest? = some rest) :
    Shorter rest ts ∧ ∃ s log, declaration fuel ts = (.ok s rest, log) := by
  have h := (stmtProgress fuel).declaration ts
  rcases hrun : declaration fuel ts with ⟨_ | _ | _, log⟩
  all_goals rw [hrun] at h hrest
  · cases hrest
    exact ⟨h.2 hts, _, log, rfl⟩
  · exact h.elim
  · cases hrest

end Recovering

namespace Parser

namespace Call

open Recovering

variable {c c' : Call}

/-- **A call passes over tokens.** -/
theorem passes (hrest : c.rest? = some rest) : Passes c.ahead rest := by
  obtain ⟨construct, fuel, ts⟩ := c
  have hexpr := exprOrderly fuel
  have hstmt := stmtReports fuel
  cases construct with
  | expression => exact hexpr.expr.passes hrest
  | operators tiers => exact (hexpr.operators tiers).passes hrest
  | operatorsAfter level tighter left =>
      exact (hexpr.operatorsAfter level tighter left).passes hrest
  | unary => exact hexpr.unary.passes hrest
  | calls callee => exact (hexpr.calls callee).passes hrest
  | arguments => exact hexpr.arguments.passes hrest
  | primary => exact hexpr.primary.passes hrest
  | variableDeclaration => exact (orderly_variableDeclaration fuel).passes hrest
  | parameters => exact (orderly_parameters fuel).passes hrest
  | functionHead => exact (orderly_functionHead fuel).passes hrest
  | condition opening => exact (orderly_condition fuel opening).passes hrest
  | returnStatement => exact (orderly_returnStatement fuel).passes hrest
  | exprStatement => exact (orderly_exprStatement fuel).passes hrest
  | declaration => exact (hstmt.declaration ts).passes hrest
  | statement => exact (hstmt.statement ts).passes hrest
  | block => exact (hstmt.block ts).passes hrest
  | declarations => exact declarations_passes hrest

/-- A block is read from the end of a declaration inside it on. -/
private theorem passes_declaration {fuel : Nat} {s : Stmt} {log : List Finding}
    (h : declaration fuel ts = (.ok s rest, log)) : Passes ts rest :=
  ((stmtReports fuel).declaration ts).passes (Parsed.rest?_of_eq_ok (congrArg Prod.fst h))

/-- **On the way to a call that it makes**, a call passes over tokens. -/
theorem Makes.passes (h : c.Makes c') : Passes c.ahead c'.ahead := by
  cases h with
  | target | tightest | left | callee | argument | evaluated | typed | head | plain | ret
  | ifCondition | whileCondition | bare | firstInside | first => exact .refl _
  | right | operand | someArguments | inner | returned | braces => exact .advance _
  | tested | otherParameters => exact (Passes.advance _).trans (.advance _)
  | initial | someParameters =>
      exact ((Passes.advance _).trans (.advance _)).trans (.advance _)
  -- what has been read with success before the call lies on the way
  | value htarget =>
      have hread := ((exprOrderly _).operators _).passes (Parsed.rest?_of_eq_ok htarget)
      exact hread.trans (.advance _)
  | afterLeft hleft => exact ((exprOrderly _).operators _).passes (Parsed.rest?_of_eq_ok hleft)
  | afterRight _ hright =>
      have hread := ((exprOrderly _).operators _).passes (Parsed.rest?_of_eq_ok hright)
      exact (Passes.advance _).trans hread
  | afterCallee _ hcallee => exact (exprOrderly _).primary.passes (Parsed.rest?_of_eq_ok hcallee)
  | afterArguments _ hargs =>
      refine (Passes.advance _).trans (Passes.trans ?_ (.advance _))
      split at hargs
      · cases hargs
        exact .refl _
      · exact (exprOrderly _).arguments.passes (Parsed.rest?_of_eq_ok hargs)
  | otherArguments hfirst =>
      exact ((exprOrderly _).expr.passes (Parsed.rest?_of_eq_ok hfirst)).trans (.advance _)
  | body _ hhead => exact (orderly_functionHead _).passes (Parsed.rest?_of_eq_ok hhead)
  | ifYes _ hcond => exact (orderly_condition _ _).passes (Parsed.rest?_of_eq_ok hcond)
  | ifNo _ hcond hyes =>
      have hread := (orderly_condition _ _).passes (Parsed.rest?_of_eq_ok hcond)
      have hbranch := ((stmtReports _).statement _).passes
        (Parsed.rest?_of_eq_ok (congrArg Prod.fst hyes))
      exact (hread.trans hbranch).trans (.advance _)
  | whileBody _ hcond => exact (orderly_condition _ _).passes (Parsed.rest?_of_eq_ok hcond)
  | othersInside _ _ hfirst => exact passes_declaration hfirst
  | others _ hfirst => exact passes_declaration hfirst

theorem Reaches.passes (h : c.Reaches c') : Passes c.ahead c'.ahead := by
  induction h with
  | refl => exact .refl _
  | tail _ hmakes ih => exact ih.trans hmakes.passes

/-- A call that returns waits for no call that does not. -/
theorem Reaches.exists_rest? (h : c.Reaches c') (hrest : c.rest? = some rest) :
    ∃ rest', c'.rest? = some rest' := by
  refine Option.ne_none_iff_exists'.mp fun hout => ?_
  have hback : c.rest? = none := by
    induction h with
    | refl => exact hout
    | tail _ hmakes ih => exact ih (hmakes.rest?_eq_none hout)
  rw [hback] at hrest
  cases hrest

/-- **A round of a loop over declarations** moves on. -/
theorem Makes.shorter_of_loop (h : c.Makes c')
    (hloop : c.construct = .block ∨ c.construct = .declarations)
    (hround : c'.construct = c.construct) : Shorter c'.ahead c.ahead := by
  cases h with
  | othersInside _ hmore hfirst =>
      exact (declaration_shorter hmore (Parsed.rest?_of_eq_ok (congrArg Prod.fst hfirst))).1
  | others hmore hfirst =>
      exact (declaration_shorter hmore (Parsed.rest?_of_eq_ok (congrArg Prod.fst hfirst))).1
  | _ => simp_all

end Call

/-! ## Whole programs -/

/-- **What a call does with the cursor** of a list that is read from some place on. It starts at a
token and returns with the cursor at a token, and no end token has been passed on the way to either
of them. A declaration that is not at the end never fails and leaves the cursor further on; so does
each round of a loop over declarations. -/
structure Call.Moves (all : List Token) (first : Nat) (c : Call) (i j : Nat) : Prop where
  ahead : c.ahead = all.drop i
  reached : Advances all first i
  returns : c.rest? = some (all.drop j)
  advances : Advances all i j
  declares : c.construct = .declaration → (current c.ahead).kind ≠ .eof →
    i < j ∧ ∃ s log, Recovering.declaration c.fuel c.ahead = (.ok s (all.drop j), log)
  rounds : ∀ c', c.Makes c' → c.construct = .block ∨ c.construct = .declarations →
    c'.construct = c.construct → ∃ k, c'.ahead = all.drop k ∧ i < k

/-- Fewer tokens are ahead further on. -/
theorem lt_of_shorter {all : List Token} {i j : Nat} (h : Shorter (all.drop j) (all.drop i)) :
    i < j := by
  have hlength := h.2
  rw [List.length_drop, List.length_drop] at hlength
  omega

/-- **A program is read by moving the cursor forward.** The tokens with their end token are read
from the place that is asked for on, up to an end token; a place that there is not is that of the
last token. Each single move leads from a token of the list to a token of the list, past no end
token, and so does every call that takes part. -/
theorem program_advances (ts : List Token) (start : Int) :
    let all := complete ts
    let first := origin all start
    startAt ts start = all.drop first ∧
    (∃ stmts last errors, program (startAt ts start) = (.ok stmts (all.drop last), errors) ∧
      Advances all first last ∧ (current (all.drop last)).kind = .eof) ∧
    (∀ i < all.length, ∃ j, advance (all.drop i) = all.drop j ∧ Advances all i j) ∧
    ∀ c, Call.Reaches ⟨.declarations, budget (startAt ts start), startAt ts start⟩ c →
      ∃ i j, c.Moves all first i j := by
  intro all first
  obtain ⟨ending, hlast, hending⟩ := complete_ends ts
  have hplace {i : Nat} {rest : List Token} (hi : i < all.length) (h : Passes (all.drop i) rest) :
      ∃ j, rest = all.drop j ∧ Advances all i j := exists_advances hlast hending hi h
  have hfirst : first < all.length := origin_lt (complete_length_pos ts) start
  have hstart : startAt ts start = all.drop first := startAt_eq_drop ts start
  rw [hstart]
  obtain ⟨stmts, rest, errors, hprogram, hend⟩ := Grammar.program_ok (all.drop first)
  have hreturns : (program (all.drop first)).1.rest? = some rest :=
    Parsed.rest?_of_eq_ok (congrArg Prod.fst hprogram)
  refine ⟨rfl, ?_, fun i hi => hplace hi (.advance _), fun c hreaches => ?_⟩
  · obtain ⟨last, rfl, hadvances⟩ := hplace hfirst (Recovering.declarations_passes hreturns)
    exact ⟨stmts, last, errors, hprogram, hadvances, hend⟩
  obtain ⟨i, hi, hbefore⟩ := hplace hfirst hreaches.passes
  obtain ⟨left, hleft⟩ := hreaches.exists_rest? hreturns
  obtain ⟨j, rfl, hafter⟩ := hplace hbefore.inside (hi ▸ Call.passes hleft)
  refine ⟨i, j, hi, hbefore, hleft, hafter, fun hc hmore => ?_, fun c' hmakes hloop hround => ?_⟩
  · obtain ⟨construct, fuel, ahead⟩ := c
    cases hc
    obtain ⟨hshorter, hresult⟩ := Recovering.declaration_shorter hmore hleft
    exact ⟨lt_of_shorter (hi ▸ hshorter), hresult⟩
  · obtain ⟨k, hk, -⟩ := hplace hbefore.inside (hi ▸ hmakes.passes)
    have hshorter := hmakes.shorter_of_loop hloop hround
    rw [hi, hk] at hshorter
    exact ⟨k, hk, lt_of_shorter hshorter⟩

/-- A block that is opened and not closed, with a stray parenthesis in it, and no end token: the
declaration inside the block starts at the parenthesis and moves on. -/
theorem program_advances_strayParenthesis :
    let ts : List Token := [⟨.lbrace, utf8 "\x7b", 0, 0⟩, ⟨.rparen, utf8 ")", 0, 2⟩]
    let all := complete ts
    startAt ts 0 = all ∧ ∃ c, Call.Reaches ⟨.declarations, budget all, all⟩ c ∧
      c.construct = .declaration ∧ (current c.ahead).kind = .rparen ∧
      ∃ j, c.Moves all 0 1 j ∧ 1 < j := by
  intro ts all
  have hprogram : Call.Makes ⟨.declarations, 80, all⟩ ⟨.declaration, 79, all⟩ :=
    .first (by decide)
  have hbraces : Call.Makes ⟨.declaration, 79, all⟩ ⟨.statement, 78, all⟩ :=
    .plain (by decide) (by decide)
  have hblock : Call.Makes ⟨.statement, 78, all⟩ ⟨.block, 77, advance all⟩ := .braces rfl
  have hinside : Call.Makes ⟨.block, 77, advance all⟩ ⟨.declaration, 76, advance all⟩ :=
    .firstInside (by decide) (by decide)
  have hreaches : Call.Reaches ⟨.declarations, 80, all⟩ ⟨.declaration, 76, advance all⟩ :=
    .tail (.tail (.tail (.single hprogram) hbraces) hblock) hinside
  obtain ⟨hstart, -, -, hcalls⟩ := program_advances ts 0
  obtain ⟨i, j, hmoves⟩ := hcalls _ hreaches
  have hlt := (hmoves.declares rfl (by decide)).1
  have hi : i = 1 := by
    have hlength := congrArg List.length hmoves.ahead
    rw [List.length_drop] at hlength
    change 2 = 3 - i at hlength
    omega
  subst hi
  exact ⟨hstart, _, hreaches, rfl, rfl, j, hmoves, hlt⟩

end Parser

end Badger
