import Badger.Tree.Reader

/-!
# Readers and parsers

A reader whose cursor is inside its tokens, with an end token last, has tokens ahead of it. Where a
parser is given these tokens, reading does the same: it comes to the same result, records the same
errors and moves the cursor to the tokens that the parser leaves.

## Main definitions

* `Reader.ahead`: the tokens ahead of a reader
* `Reader.Placed`: a reader whose cursor is at a token
* `Reader.moved`: the reader further on, with more errors
* `Reader.Tracks`: a reader ends where a parser ends
* `Reading.Refines`: reading that does what a parser does

## Main statements

* `Reading.refines_bind`: parts one after the other
* `Reading.refines_current`, `Reading.refines_next`: the cursor
* `Reading.refines_recover`: recovery, where the token before the cursor is looked at
-/

namespace Badger

variable {α β : Type}

/-! ## Tokens ahead -/

namespace Reader

variable {r : Reader} {k k' : Nat} {log more : List Finding}

/-- The tokens ahead, the one at the cursor first. -/
def ahead (r : Reader) : List Token := r.tokens.toList.drop r.cursor

/-- **A reader in its place.** There are tokens ahead, and the last one is an end token. -/
structure Placed (r : Reader) : Prop where
  inside : r.cursor < r.tokens.size
  ends : ∃ ending ∈ r.tokens.toList.getLast?, ending.kind = .eof

/-- The reader so many tokens further, with more errors recorded. -/
def moved (r : Reader) (k : Nat) (log : List Finding) : Reader :=
  { r with cursor := r.cursor + k, errors := r.errors ++ log }

@[simp] theorem moved_zero (r : Reader) : r.moved 0 [] = r := by simp [moved]

@[simp] theorem moved_moved (r : Reader) (k k' : Nat) (log more : List Finding) :
    (r.moved k log).moved k' more = r.moved (k + k') (log ++ more) := by
  simp [moved, Nat.add_assoc]

@[simp] theorem ahead_moved (r : Reader) (k : Nat) (log : List Finding) :
    (r.moved k log).ahead = r.ahead.drop k := by
  simp [ahead, moved]

@[simp] theorem length_ahead (r : Reader) : r.ahead.length = r.tokens.size - r.cursor := by
  simp [ahead]

namespace Placed

theorem length_pos (h : r.Placed) : 0 < r.ahead.length := by
  have := h.inside
  rw [length_ahead]
  omega

theorem moved (h : r.Placed) (hk : k < r.ahead.length) (log : List Finding) :
    (r.moved k log).Placed := by
  rw [length_ahead] at hk
  exact ⟨by simp only [Reader.moved]; omega, h.ends⟩

/-- There is a token at the cursor, the first one ahead. -/
theorem getElem?_cursor (h : r.Placed) :
    r.tokens[r.cursor]? = some (Parser.current r.ahead) := by
  have hpos := h.length_pos
  rw [Parser.current, List.headD_eq_head?_getD, ahead, List.head?_drop, Array.getElem?_toList,
    Array.getElem?_eq_getElem h.inside, Option.getD_some]

/-- Behind a token that is no end token there are more tokens. -/
theorem one_lt_length (h : r.Placed) (hk : (Parser.current r.ahead).kind ≠ .eof) :
    1 < r.ahead.length := by
  obtain ⟨ending, hlast, hending⟩ := h.ends
  have hinside := h.inside
  rw [length_ahead]
  refine Nat.lt_of_not_le fun hle => ?_
  have hplace : r.cursor = r.tokens.toList.length - 1 := by
    rw [Array.length_toList]
    omega
  rw [Option.mem_def, List.getLast?_eq_getElem?, ← hplace, Array.getElem?_toList,
    h.getElem?_cursor, Option.some_inj] at hlast
  exact hk (hlast ▸ hending)

theorem ahead_eq (h : r.Placed) : r.ahead = Parser.current r.ahead :: r.ahead.drop 1 := by
  have hpos := h.length_pos
  cases hahead : r.ahead with
  | nil => simp [hahead] at hpos
  | cons t ts => rfl

/-- Passing over the token at the cursor, unless it is an end token. -/
theorem advance_ahead (h : r.Placed) : Parser.advance r.ahead =
    if (Parser.current r.ahead).kind = .eof then r.ahead else r.ahead.drop 1 := by
  rw [h.ahead_eq]
  rfl

theorem skipAfter_ahead (h : r.Placed) (before : TokenKind) : Recovering.skipAfter before r.ahead =
    if (Parser.current r.ahead).kind = .eof || before = .semi ||
      Recovering.startsStatement (Parser.current r.ahead).kind then r.ahead
    else Recovering.skipAfter (Parser.current r.ahead).kind (r.ahead.drop 1) := by
  rw [h.ahead_eq]
  rfl

theorem synchronize_ahead (h : r.Placed) : Recovering.synchronize r.ahead =
    if (Parser.current r.ahead).kind = .eof then r.ahead
    else Recovering.skipAfter (Parser.current r.ahead).kind (r.ahead.drop 1) := by
  rw [h.ahead_eq]
  rfl

end Placed

/-! ## Ending where a parser ends -/

/-- **A reader ends where a parser ends**: the cursor is at the tokens that the parser leaves, and
the errors on the way were recorded after those before. -/
inductive Tracks (r : Reader) : EStateM.Result Stop Reader α → Parsed α × List Finding → Prop
  | ok (a : α) {k : Nat} (log : List Finding) (hk : k < r.ahead.length) :
      Tracks r (.ok a (r.moved k log)) (.ok a (r.ahead.drop k), log)
  | failed (e : Finding) {k : Nat} (log : List Finding) (hk : k < r.ahead.length) :
      Tracks r (.error (.failed e) (r.moved k log)) (.fail e (r.ahead.drop k), log)
  | outOfFuel (r' : Reader) (log : List Finding) :
      Tracks r (.error .outOfFuel r') (.outOfFuel, log)

/-- What is tracked from further on is tracked from here. -/
theorem Tracks.behind {result : EStateM.Result Stop Reader α} {answer : Parsed α × List Finding}
    (h : (r.moved k log).Tracks result answer) (hk : k ≤ r.ahead.length) :
    r.Tracks result (answer.1, log ++ answer.2) := by
  cases h with
  | ok a more hk' =>
      rw [ahead_moved, List.length_drop] at hk'
      rw [moved_moved, ahead_moved, List.drop_drop]
      exact .ok a _ (by omega)
  | failed e more hk' =>
      rw [ahead_moved, List.length_drop] at hk'
      rw [moved_moved, ahead_moved, List.drop_drop]
      exact .failed e _ (by omega)
  | outOfFuel r' more => exact .outOfFuel r' _

end Reader

open Reader

/-! ## Reading as a parser does -/

namespace Reading

/-- **Reading refines a parser**: from wherever a reader is, it ends where the parser ends on the
tokens ahead. -/
def Refines (p : Reading α) (q : Recovering α) : Prop :=
  ∀ r : Reader, r.Placed → r.Tracks (p r) (q r.ahead)

variable {p : Reading α} {q : Recovering α} {r : Reader}

theorem refines_pure (a : α) : Refines (pure a) (pure a) := by
  intro r hr
  have htracks : r.Tracks (.ok a (r.moved 0 [])) (.ok a (r.ahead.drop 0), []) :=
    .ok a [] hr.length_pos
  rwa [moved_zero, List.drop_zero] at htracks

/-- **Parts one after the other.** -/
theorem refines_bind {f : α → Reading β} {g : α → Recovering β} (hp : Refines p q)
    (hf : ∀ a, Refines (f a) (g a)) : Refines (p >>= f) (q >>= g) := by
  intro r hr
  have hfirst := hp r hr
  simp only [bind, EStateM.bind]
  generalize p r = result, q r.ahead = answer at hfirst
  cases hfirst with
  | ok a log hk =>
      have hrest := hf a _ (hr.moved hk log)
      rw [ahead_moved] at hrest
      exact hrest.behind (Nat.le_of_lt hk)
  | failed e log hk => exact .failed e log hk
  | outOfFuel r' log => exact .outOfFuel r' log

theorem refines_exhausted :
    Refines (exhausted : Reading α) (Recovering.ofParser Parser.exhausted) :=
  fun r _ => .outOfFuel r []

/-- Parts of a parser that records nothing. -/
theorem refines_bind_ofParser {q : Parser α} {f : α → Reading β} {g : α → Parser β}
    (hp : Refines p (Recovering.ofParser q)) (hf : ∀ a, Refines (f a) (Recovering.ofParser (g a))) :
    Refines (p >>= f) (Recovering.ofParser (q >>= g)) := by
  have hbind : Recovering.ofParser (q >>= g) =
      Recovering.ofParser q >>= fun a => Recovering.ofParser (g a) := by
    funext ts
    simp only [Recovering.ofParser, bind]
    cases q ts <;> rfl
  rw [hbind]
  exact refines_bind hp hf

/-! ### The cursor -/

theorem tokenAt_apply {place : Nat} {t : Token} (h : r.tokens[place]? = some t) :
    tokenAt place r = .ok t r := by
  simp only [tokenAt, h]

theorem current_apply (hr : r.Placed) : current r = .ok (Parser.current r.ahead) r :=
  tokenAt_apply hr.getElem?_cursor

theorem refines_current : Refines current (Recovering.ofParser Parser.peek) := by
  intro r hr
  rw [current_apply hr]
  exact refines_pure _ r hr

theorem atEnd_apply (hr : r.Placed) :
    atEnd r = .ok (decide ((Parser.current r.ahead).kind = .eof)) r := by
  simp only [atEnd, bind, EStateM.bind, current_apply hr]
  rfl

theorem next_apply (hr : r.Placed) : next r = .ok (Parser.current r.ahead)
    (if (Parser.current r.ahead).kind = .eof then r else r.moved 1 []) := by
  simp only [next, bind, EStateM.bind, current_apply hr, atEnd_apply hr]
  split
  next hopen =>
    rw [if_neg (by simpa using hopen)]
    simp only [moved, List.append_nil]
    rfl
  next hend =>
    rw [if_pos (by simpa using hend)]
    rfl

theorem refines_next : Refines next (Recovering.ofParser Parser.take) := by
  intro r hr
  have hadvance := hr.advance_ahead
  rw [next_apply hr, Recovering.ofParser, Parser.take]
  by_cases hend : (Parser.current r.ahead).kind = .eof
  · rw [if_pos hend] at hadvance ⊢
    rw [hadvance]
    exact refines_pure _ r hr
  · rw [if_neg hend] at hadvance ⊢
    rw [hadvance]
    exact .ok _ [] (hr.one_lt_length hend)

theorem refines_failAt (problem : Problem) (offset : Int) :
    Refines (failAt problem offset : Reading α)
      (Recovering.ofParser (Parser.failAt problem offset)) := by
  intro r hr
  have htracks : r.Tracks (α := α) (.error (.failed ⟨problem, offset⟩) (r.moved 0 []))
      (.fail ⟨problem, offset⟩ (r.ahead.drop 0), []) := .failed _ [] hr.length_pos
  rwa [moved_zero, List.drop_zero] at htracks

theorem refines_failHere (what : Expectation) :
    Refines (failHere what : Reading α) (Recovering.ofParser (Parser.failHere what)) := by
  intro r hr
  simp only [failHere, bind, EStateM.bind, current_apply hr]
  exact refines_failAt _ _ r hr

section

variable {kind : TokenKind} (hkind : kind ≠ .eof)

include hkind

theorem refines_expect (what : Expectation) :
    Refines (expect kind what) (Recovering.ofParser (Parser.expect kind what)) := by
  intro r hr
  simp only [expect, bind, EStateM.bind, current_apply hr, atEnd_apply hr, Recovering.ofParser,
    Parser.expect]
  by_cases hk : (Parser.current r.ahead).kind = kind
  · rw [if_pos (by simp [hk, hkind]), if_pos hk]
    exact refines_next r hr
  · rw [if_neg (by simp [hk]), if_neg hk]
    exact refines_failHere what r hr

theorem refines_accept : Refines (accept kind) (Recovering.ofParser (Parser.accept kind)) := by
  intro r hr
  simp only [accept, bind, EStateM.bind, current_apply hr, atEnd_apply hr, Recovering.ofParser,
    Parser.accept]
  by_cases hk : (Parser.current r.ahead).kind = kind
  · rw [if_pos (by simp [hk, hkind]), if_pos hk]
    exact refines_bind refines_next (fun _ => refines_pure true) r hr
  · rw [if_neg (by simp [hk]), if_neg hk]
    exact refines_pure false r hr

end

/-! ### Recovery -/

/-- Where skipping ends, or one round of it. -/
theorem skip_apply (hr : r.Placed) {before : Token}
    (hbefore : r.tokens[r.cursor - 1]? = some before) (fuel : Nat) :
    skip (fuel + 1) r =
      if (Parser.current r.ahead).kind = .eof || before.kind = .semi ||
        Recovering.startsStatement (Parser.current r.ahead).kind then .ok () r
      else skip fuel (r.moved 1 []) := by
  have hprevious : previous r = .ok before r := tokenAt_apply hbefore
  have hchoice {c : Prop} [Decidable c] (p q : Reading Unit) :
      (if c then p else q) r = if c then p r else q r := by
    split <;> rfl
  simp only [skip, bind, EStateM.bind, hchoice, atEnd_apply hr, hprevious, current_apply hr,
    next_apply hr]
  by_cases hend : (Parser.current r.ahead).kind = .eof
  · simp [hend, pure, EStateM.pure]
  · by_cases hsemi : before.kind = .semi
    · simp [hsemi, pure, EStateM.pure]
    · simp [hend, hsemi, pure, EStateM.pure]

/-- **Passing over tokens.** The token that the parser remembers is the one before the cursor. -/
theorem exists_skip_eq (fuel : Nat) (hr : r.Placed) {before : Token}
    (hbefore : r.tokens[r.cursor - 1]? = some before) (hfuel : r.ahead.length ≤ fuel) :
    ∃ k < r.ahead.length, skip fuel r = .ok () (r.moved k []) ∧
      Recovering.skipAfter before.kind r.ahead = r.ahead.drop k := by
  induction fuel generalizing r before with
  | zero => exact absurd hr.length_pos (by omega)
  | succ fuel ih =>
      rw [skip_apply hr hbefore, hr.skipAfter_ahead]
      split
      · refine ⟨0, hr.length_pos, ?_, List.drop_zero.symm⟩
        rw [moved_zero]
      next hgo =>
        have hopen : (Parser.current r.ahead).kind ≠ .eof := by
          intro hend
          simp [hend] at hgo
        have hmore := hr.one_lt_length hopen
        have hlength : (r.moved 1 []).ahead.length + 1 = r.ahead.length := by
          rw [ahead_moved, List.length_drop]
          omega
        obtain ⟨k, hk, hrun, hrest⟩ := ih (hr.moved hmore []) hr.getElem?_cursor (by omega)
        refine ⟨1 + k, by omega, ?_, ?_⟩
        · rw [hrun, moved_moved, List.append_nil]
        · rw [← ahead_moved r 1 [], hrest, ahead_moved, List.drop_drop]

theorem synchronize_apply (hr : r.Placed) : synchronize r =
    skip r.tokens.size (if (Parser.current r.ahead).kind = .eof then r else r.moved 1 []) := by
  by_cases hend : (Parser.current r.ahead).kind = .eof
  · simp only [synchronize, bind, EStateM.bind, next_apply hr, if_pos hend]
    rfl
  · simp only [synchronize, bind, EStateM.bind, next_apply hr, if_neg hend]
    rfl

theorem refines_synchronize :
    Refines synchronize fun ts => (.ok () (Recovering.synchronize ts), []) := by
  intro r hr
  have hinside := hr.inside
  show r.Tracks (synchronize r) (.ok () (Recovering.synchronize r.ahead), [])
  rw [synchronize_apply hr, hr.synchronize_ahead]
  by_cases hend : (Parser.current r.ahead).kind = .eof
  · obtain ⟨fuel, hfuel⟩ : ∃ n, r.tokens.size = n + 1 := ⟨r.tokens.size - 1, by omega⟩
    have hbefore : r.tokens[r.cursor - 1]? = some _ := Array.getElem?_eq_getElem (by omega)
    rw [if_pos hend, if_pos hend, hfuel, skip_apply hr hbefore, if_pos (by simp [hend])]
    exact refines_pure () r hr
  · have hmore := hr.one_lt_length hend
    obtain ⟨k, hk, hrun, hrest⟩ := exists_skip_eq r.tokens.size (hr.moved hmore [])
      hr.getElem?_cursor (by rw [ahead_moved, List.length_drop, length_ahead]; omega)
    rw [ahead_moved, List.length_drop] at hk
    rw [ahead_moved, List.drop_drop] at hrest
    rw [if_neg hend, if_neg hend, hrest, hrun, moved_moved]
    exact .ok () _ (by omega)

/-- **Recovery** from the failure of a declaration. -/
theorem refines_recover {p : Reading Stmt} {q : Recovering Stmt} (h : Refines p q) :
    Refines (recover p) (Recovering.recover q) := by
  intro r hr
  have htracks := h r hr
  simp only [recover, Recovering.recover]
  generalize p r = result, q r.ahead = answer at htracks
  cases htracks with
  | ok s log hk => exact .ok s log hk
  | @failed e k log hk =>
      have hstate : { r.moved k log with errors := (r.moved k log).errors ++ [e] } =
          r.moved k (log ++ [e]) := by
        simp [Reader.moved]
      have hrest := refines_bind refines_synchronize (fun _ => refines_pure Stmt.missing) _
        (hr.moved hk (log ++ [e]))
      rw [ahead_moved] at hrest
      have hhere : r.Tracks _ (.ok Stmt.missing (Recovering.synchronize (r.ahead.drop k)),
          log ++ [e] ++ []) := hrest.behind (Nat.le_of_lt hk)
      rw [List.append_nil, ← hstate] at hhere
      exact hhere
  | outOfFuel r' log => exact .outOfFuel r' log

end Reading

end Badger
