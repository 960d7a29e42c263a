import Badger.Proofs.Grammar.Subtree
import Badger.Proofs.Session.Move

/-!
# Moments of a run

A run of a program is made of runs of its parts: a statement runs the expressions in it, a call
runs the body of a function. A moment is a part of a program about to be run in some session; it
runs the moments that its own run is made of. An error that comes out of a run was raised at one
of these moments, and this module says which and where its place points.

## Main definitions

* `Run.Arises`, `Run.ErrorAt`: which problems can arise where a part runs, and where they are placed
* `Part`, `Moment`: a part of a program, and a part about to be run
* `Moment.Fails`: that the run ends in an error
* `Moment.Runs`: which moments a run is made of, with the function that is called, if one is
* `Moment.Raises`: that an error is raised here, and not by a part
* `Moment.Visits`: which moments a run comes to

## Main statements

* `Moment.Runs.fails`: an error of a part is the error of the whole
* `Moment.Raises.errorAt`: an error is raised by a statement or an expression, it is a problem that
  can arise there, and it is placed at its offset in the chunk that is active when it starts to run
* `Moment.Fails.exists_raises`: every error is raised at a moment that the run comes to
-/

namespace Badger

/-! ## Parts that fail -/

namespace Run

theorem catchReturn_failed {x : Run Value} {s s' : Session} {d : Diagnostic} :
    catchReturn x s = (.failed d, s') ↔ x s = (.failed d, s') := by
  unfold catchReturn
  split
  · next hx => simp [hx]
  · rfl

theorem within_failed {c : Closure} {x : Run Value} {s s' : Session} {d : Diagnostic} :
    within c x s = (.failed d, s') ↔
      ∃ after, x (s.enter c) = (.failed d, after) ∧ s' = after.leave s.chunk := by
  unfold within
  rcases hx : x (s.enter c) with ⟨r, after⟩
  simp only [Prod.mk.injEq]
  constructor
  · rintro ⟨rfl, rfl⟩
    exact ⟨after, ⟨rfl, rfl⟩, rfl⟩
  · rintro ⟨_, ⟨rfl, rfl⟩, rfl⟩
    exact ⟨rfl, rfl⟩

end Run

/-! ## Errors at one offset -/

namespace Value

/-- Operators have nothing to do with names. -/
theorem ne_scope_of_unary {op : UnaryOp} {v : Value} {p : Problem}
    (h : Value.unary op v = .error p) (q : ScopeProblem) : p ≠ .scope q := by
  unfold unary at h
  split at h
  all_goals cases h
  all_goals exact Problem.noConfusion

theorem ne_scope_of_repeated {s : Packed} {x : Float} {p : Problem}
    (h : repeated s x = .error p) (q : ScopeProblem) : p ≠ .scope q := by
  unfold repeated at h
  split at h
  · cases h
    exact Problem.noConfusion
  · split at h
    · cases h
    · split at h
      · cases h
        exact Problem.noConfusion
      · cases h

theorem ne_scope_of_binary {op : BinaryOp} {l r : Value} {p : Problem}
    (h : Value.binary op l r = .error p) (q : ScopeProblem) : p ≠ .scope q := by
  unfold binary at h
  obtain hnone | ⟨result, hsome⟩ := Option.eq_none_or_eq_some (binary? op l r)
  · rw [hnone] at h
    cases h
    exact Problem.noConfusion
  · rw [hsome] at h
    have herror : result = .error p := h
    subst herror
    unfold binary? at hsome
    split at hsome
    all_goals simp only [Option.map_eq_some_iff, Option.some.injEq, reduceCtorEq, and_false,
      exists_false] at hsome
    exact ne_scope_of_repeated hsome q

end Value

/-- A diagnosis depends on the active chunk and the active calls only. -/
theorem Session.diagnose_congr {s s' : Session} (hcalls : s'.callStack = s.callStack)
    (hchunk : s'.chunk = s.chunk) (p : Problem) (pos : Int) :
    s'.diagnose p pos = s.diagnose p pos := by
  unfold diagnose
  rw [hcalls, hchunk]

namespace Run

open Session

variable {α β : Type} {scope : ScopeId} {pos : Int}

/-- **Problems that can arise** when a part runs in a scope. A search for a name is only cut short
if one that starts in this scope is, now or later. -/
def Arises (scope : ScopeId) (s : Session) (p : Problem) : Prop :=
  ∀ limit, p = .scope (.tooDeep limit) →
    ∃ s' name, Later Set.univ s s' ∧ s'.memory.resolve scope name = .error (.tooDeep limit)

theorem Arises.of_ne {s : Session} {p : Problem} (h : ∀ limit, p ≠ .scope (.tooDeep limit)) :
    Arises scope s p :=
  fun limit hp => absurd hp (h limit)

/-- **An error at an offset**: a problem that can arise is placed at this offset of the active
chunk. -/
def ErrorAt (scope : ScopeId) (pos : Int) (s : Session) (d : Diagnostic) : Prop :=
  ∃ p, Arises scope s p ∧ d = s.diagnose p pos

theorem errorAt_of_ne {s : Session} {p : Problem} (h : ∀ limit, p ≠ .scope (.tooDeep limit)) :
    ErrorAt scope pos s (s.diagnose p pos) :=
  ⟨p, .of_ne h, rfl⟩

/-- An error of a later session with the same active calls and the same active chunk. -/
theorem ErrorAt.of_later {s s' : Session} {d : Diagnostic} (h : ErrorAt scope pos s' d)
    (hlater : Later Set.univ s s') (hcalls : s'.callStack = s.callStack)
    (hchunk : s'.chunk = s.chunk) : ErrorAt scope pos s d := by
  obtain ⟨p, harises, rfl⟩ := h
  refine ⟨p, fun limit hp => ?_, Session.diagnose_congr hcalls hchunk p pos⟩
  obtain ⟨s'', name, hlater', hresolve⟩ := harises limit hp
  exact ⟨s'', name, hlater.trans hlater', hresolve⟩

/-- After a part of the same run an error is diagnosed as before it. -/
theorem errorAt_after {own : Set ScopeId} {x : Run α} {r : Outcome α} {s s' : Session}
    {d : Diagnostic} (hconfined : Confined own x) (hx : x s = (r, s'))
    (h : ErrorAt scope pos s' d) : ErrorAt scope pos s d := by
  obtain ⟨hcalls, hchunk, -⟩ := hconfined.balanced hx
  exact h.of_later (hconfined.later_of_eq hx) hcalls hchunk

/-- Every error of this run is raised at the given offset of the chunk that is active when the run
starts. -/
def RaisesAt (scope : ScopeId) (pos : Int) (x : Run α) : Prop :=
  ∀ (s s' : Session) (d : Diagnostic), x s = (.failed d, s') → ErrorAt scope pos s d

namespace RaisesAt

theorem of_ne {x : Run α} (h : ∀ s s' d, x s ≠ (.failed d, s')) : RaisesAt scope pos x :=
  fun s s' d hd => absurd hd (h s s' d)

theorem pure (a : α) : RaisesAt scope pos (Pure.pure a : Run α) :=
  of_ne fun _ _ _ h => by cases h

theorem bind {own : Set ScopeId} {x : Run α} {f : α → Run β} (hx : RaisesAt scope pos x)
    (hconfined : Confined own x) (hf : ∀ a, RaisesAt scope pos (f a)) :
    RaisesAt scope pos (x >>= f) := by
  intro s s'' d h
  rcases bind_eq_failed h with hd | ⟨a, s', hs', hd⟩
  · exact hx s s'' d hd
  · exact errorAt_after hconfined hs' (hf a s' s'' d hd)

theorem raise {p : Problem} (h : ∀ limit, p ≠ .scope (.tooDeep limit)) :
    RaisesAt scope pos (Run.raise p pos : Run α) := by
  rintro s s' d ⟨⟩
  exact errorAt_of_ne h

theorem liftValue {r : Except Problem Value}
    (h : ∀ p, r = .error p → ∀ limit, p ≠ .scope (.tooDeep limit)) :
    RaisesAt scope pos (Run.liftValue pos r) := by
  cases r with
  | ok v => exact .pure v
  | error p => exact .raise (h p rfl)

theorem getName (name : Text) : RaisesAt scope pos (Run.getName scope name pos) := by
  intro s s' d h
  unfold Run.getName at h
  split at h
  · cases h
  · next p hget =>
    cases h
    refine ⟨.scope p, ?_, rfl⟩
    rintro limit ⟨⟩
    refine ⟨s, name, .refl s, ?_⟩
    unfold Memory.get at hget
    cases hresolve : s.memory.resolve scope name with
    | error p =>
        rw [hresolve] at hget
        cases hget
        rfl
    | ok found =>
        rw [hresolve] at hget
        cases hget

theorem setName (name : Text) (v : Value) :
    RaisesAt scope pos (Run.setName scope name v pos) := by
  intro s s' d h
  unfold Run.setName at h
  split at h
  · cases h
  · next p hset =>
    cases h
    refine ⟨.scope p, ?_, rfl⟩
    rintro limit ⟨⟩
    refine ⟨s, name, .refl s, ?_⟩
    unfold Memory.checkSet at hset
    split at hset
    · next hresolve =>
      cases hset
      exact hresolve
    · split at hset <;> cases hset

theorem declareName (inner : ScopeId) (name : Text) (v : Value) :
    RaisesAt scope pos (Run.declareName inner name v pos) := by
  intro s s' d h
  unfold Run.declareName at h
  split at h
  · cases h
  · next p hcheck =>
    cases h
    refine errorAt_of_ne ?_
    rintro limit ⟨⟩
    unfold Memory.checkDeclare at hcheck
    split at hcheck <;> cases hcheck

theorem guardCalls : RaisesAt scope pos (Run.guardCalls pos) := by
  intro s s' d h
  unfold Run.guardCalls at h
  split at h
  · cases h
    exact errorAt_of_ne fun _ => Problem.noConfusion
  · cases h

end RaisesAt

/-- A sequence of two parts whose first part does not fail. -/
theorem errorAt_of_bind_failed {own : Set ScopeId} {x : Run α} {f : α → Run β} {s s'' : Session}
    {d : Diagnostic} (h : (x >>= f) s = (.failed d, s'')) (hconfined : Confined own x)
    (hx : ∀ s', x s ≠ (.failed d, s')) (hf : ∀ a, RaisesAt scope pos (f a)) :
    ErrorAt scope pos s d := by
  rcases bind_eq_failed h with hd | ⟨a, s', hs', hd⟩
  · exact absurd hd (hx s'')
  · exact errorAt_after hconfined hs' (hf a s' s'' d hd)

end Run

/-! ## Calls -/

namespace Eval

open Run

/-- What happens before the body of a function runs: a place among the active calls is asked for,
a scope is opened, and the parameters are declared in it. -/
def prologue (c : Closure) (vs : List Value) (pos : Int) : Run ScopeId := do
  Run.guardCalls pos
  let scope ← Run.openScope c.scope
  bindParams scope pos c.params vs
  pure scope

theorem apply_custom (fuel : Nat) (c : Closure) (vs : List Value) (pos : Int) :
    apply (fuel + 1) (.custom c) vs pos = prologue c vs pos >>= fun scope =>
      Run.within c (Run.catchReturn (block fuel c.body scope .empty)) := by
  unfold prologue
  simp only [Run.bind_assoc, Run.pure_bind]
  rfl

theorem bindParams_raisesAt (scope inner : ScopeId) (pos : Int) (names : List Text)
    (vs : List Value) : RaisesAt scope pos (bindParams inner pos names vs) := by
  induction names generalizing vs with
  | nil => exact .pure ()
  | cons name names ih =>
      cases vs with
      | nil => exact .pure ()
      | cons v vs =>
          have hconfined : Confined {inner} (declareName inner name v pos) :=
            .declareName (Set.mem_singleton inner) name v pos
          exact .bind (.declareName inner name v) hconfined fun _ => ih vs

/-- **What can go wrong with a call itself**, a missing place among the active calls or a
parameter that is declared twice, is raised at the call. -/
theorem prologue_raisesAt (scope : ScopeId) (c : Closure) (vs : List Value) (pos : Int) :
    RaisesAt scope pos (prologue c vs pos) := by
  have hguard : Confined ∅ (guardCalls pos) := .guardCalls pos
  refine .bind .guardCalls hguard fun _ => ?_
  intro s s' d h
  -- opening the scope cannot fail, and it changes neither calls nor chunk
  change (bindParams (s.openScope c.scope).1 pos c.params vs >>= fun _ =>
    pure (s.openScope c.scope).1) (s.openScope c.scope).2 = _ at h
  have hconfined := bindParams_confined (Set.mem_singleton (s.openScope c.scope).1) pos c.params vs
  have hparams := bindParams_raisesAt scope (s.openScope c.scope).1 pos c.params vs
  have herror : ErrorAt scope pos (s.openScope c.scope).2 d :=
    hparams.bind hconfined (fun _ => .pure _) _ s' d h
  exact herror.of_later (.of_move (.opened s c.scope)) rfl rfl

/-- A call declares names only in the scope that it opens. -/
theorem prologue_confined (c : Closure) (vs : List Value) (pos : Int) :
    Confined ∅ (prologue c vs pos) := by
  refine .bind (.guardCalls pos) fun _ => .openScope c.scope fun inner => ?_
  exact .bind (bindParams_confined (Set.mem_singleton inner) pos c.params vs) fun _ => .pure _

/-- A call that begins has a place among the active calls. -/
theorem room_of_prologue {c : Closure} {vs : List Value} {pos : Int} {s s' : Session}
    {inner : ScopeId} (h : prologue c vs pos s = (.value inner, s')) :
    s.callStack.size < s.options.callDepth := by
  obtain ⟨_, s₁, hguard, -⟩ := bind_eq_value h
  unfold guardCalls at hguard
  split at hguard
  · cases hguard
  · next hroom => exact Nat.lt_of_not_le hroom

theorem native_raisesAt (scope : ScopeId) (n : Native) (vs : List Value) (pos : Int) :
    RaisesAt scope pos (native n vs) := by
  unfold native
  split
  all_goals exact .of_ne fun _ _ _ h => by cases h

/-- What a call comes to once its function and its arguments have values. -/
def invoke (fuel : Nat) (f : Value) (vs : List Value) (pos : Int) : Run Value :=
  match f with
  | .fxn f =>
    match f.arity? with
    | some n =>
      if vs.length = n then apply fuel f vs pos else Run.raise (.arity n vs.length) pos
    | none => apply fuel f vs pos
  | _ => Run.raise .notCallable pos

theorem expr_call (fuel : Nat) (pos : Int) (callee : Expr) (arguments : List Expr)
    (scope : ScopeId) :
    expr (fuel + 1) (.call pos callee arguments) scope =
      expr fuel callee scope >>= fun f => args fuel arguments scope >>= fun vs =>
        invoke fuel f vs pos := rfl

/-- **A call** is refused at the call, or it applies a function to as many arguments as it takes. -/
theorem invoke_cases (fuel : Nat) (f : Value) (vs : List Value) (pos : Int) :
    (∃ p, invoke fuel f vs pos = Run.raise p pos ∧ ∀ limit, p ≠ .scope (.tooDeep limit)) ∨
      ∃ g, f = .fxn g ∧ invoke fuel f vs pos = apply fuel g vs pos ∧
        ∀ c, g = .custom c → vs.length = c.arity := by
  unfold invoke
  cases f with
  | num _ | str _ | bool _ => exact .inl ⟨_, rfl, fun _ => Problem.noConfusion⟩
  | fxn g =>
      dsimp only
      split
      · next n hn =>
        by_cases harity : vs.length = n
        · rw [if_pos harity]
          refine .inr ⟨g, rfl, rfl, ?_⟩
          rintro c rfl
          cases hn
          exact harity
        · rw [if_neg harity]
          exact .inl ⟨_, rfl, fun _ => Problem.noConfusion⟩
      · next hn =>
        refine .inr ⟨g, rfl, rfl, ?_⟩
        rintro c rfl
        cases hn

/-- A call of a declared function that has as many arguments as it takes. -/
theorem call_custom {fuel : Nat} {pos : Int} {callee : Expr} {arguments : List Expr}
    {scope : ScopeId} {c : Closure} {vs : List Value} {s s₁ s₂ : Session}
    (hcallee : expr (fuel + 1) callee scope s = (.value (.fxn (.custom c)), s₁))
    (harguments : args (fuel + 1) arguments scope s₁ = (.value vs, s₂))
    (harity : vs.length = c.arity) :
    expr (fuel + 2) (.call pos callee arguments) scope s =
      (prologue c vs pos >>= fun inner =>
        Run.within c (Run.catchReturn (block fuel c.body inner .empty))) s₂ := by
  have hinvoke : invoke (fuel + 1) (.fxn (.custom c)) vs pos =
      apply (fuel + 1) (.custom c) vs pos := if_pos harity
  rw [expr_call, Run.bind_value hcallee, Run.bind_value harguments, hinvoke, apply_custom]

theorem block_cons (fuel : Nat) (st : Stmt) (rest : List Stmt) (scope : ScopeId) (last : Value) :
    block (fuel + 1) (st :: rest) scope last =
      if st.isMissing then block fuel rest scope last
      else stmt fuel st scope >>= fun v => block fuel rest scope v := rfl

/-- Missing statements are passed over. -/
theorem block_cons_missing {st : Stmt} (h : st.isMissing = true) (fuel : Nat) (rest : List Stmt)
    (scope : ScopeId) (last : Value) :
    block (fuel + 1) (st :: rest) scope last = block fuel rest scope last := by
  rw [block_cons, if_pos h]

theorem block_cons_present {st : Stmt} (h : st.isMissing = false) (fuel : Nat) (rest : List Stmt)
    (scope : ScopeId) (last : Value) :
    block (fuel + 1) (st :: rest) scope last =
      stmt fuel st scope >>= fun v => block fuel rest scope v := by
  rw [block_cons, if_neg (by simp [h])]

end Eval

/-! ## Moments -/

/-- **A part of a program** with the scope it is to run in, and, where statements follow others or
a loop goes on, the value so far. -/
inductive Part where
  | expr (e : Expr) (scope : ScopeId)
  | args (es : List Expr) (scope : ScopeId)
  | stmt (st : Stmt) (scope : ScopeId)
  | block (ss : List Stmt) (scope : ScopeId) (last : Value)
  | loop (cond : Expr) (body : Stmt) (scope : ScopeId) (last : Value)

/-- The scope in which a part is to run. -/
def Part.scope : Part → ScopeId
  | .expr _ scope | .args _ scope | .stmt _ scope | .block _ scope _ | .loop _ _ scope _ => scope

/-- The statement or expression that a part consists of, if it is a single one. -/
def Part.root? : Part → Option Subtree
  | .expr e _ => some (.expr e)
  | .stmt st _ => some (.stmt st)
  | _ => none

/-- **A moment.** A part of a program about to be run in a session. -/
structure Moment where
  part : Part
  fuel : Nat
  session : Session

namespace Moment

open Run

/-- The run ends in an error. -/
def Fails (m : Moment) (d : Diagnostic) : Prop :=
  match m.part with
  | .expr e scope => ∃ s', Eval.expr m.fuel e scope m.session = (.failed d, s')
  | .args es scope => ∃ s', Eval.args m.fuel es scope m.session = (.failed d, s')
  | .stmt st scope => ∃ s', Eval.stmt m.fuel st scope m.session = (.failed d, s')
  | .block ss scope last => ∃ s', Eval.block m.fuel ss scope last m.session = (.failed d, s')
  | .loop cond body scope last =>
      ∃ s', Eval.loop m.fuel cond body scope last m.session = (.failed d, s')

/-- A run ends in one error only. -/
theorem Fails.unique {m : Moment} {d d' : Diagnostic} (h : m.Fails d) (h' : m.Fails d') :
    d = d' := by
  obtain ⟨part, fuel, s⟩ := m
  cases part
  all_goals
    obtain ⟨s₁, h⟩ := h
    obtain ⟨s₂, h'⟩ := h'
    cases h.symm.trans h'
    rfl

/-- **What a run is made of.** `Runs m called m'` says that running `m` comes to running `m'`, a
part of the same text if `called` is `none`, and else the body of that function. -/
inductive Runs : Moment → Option Closure → Moment → Prop where
  -- expressions
  | group {pos inner scope fuel s} :
      Runs ⟨.expr (.group pos inner) scope, fuel + 1, s⟩ none ⟨.expr inner scope, fuel, s⟩
  | assigned {pos name value scope fuel s} :
      Runs ⟨.expr (.assign pos name value) scope, fuel + 1, s⟩ none ⟨.expr value scope, fuel, s⟩
  | operand {pos op operand scope fuel s} :
      Runs ⟨.expr (.unary pos op operand) scope, fuel + 1, s⟩ none ⟨.expr operand scope, fuel, s⟩
  | left {pos op left right scope fuel s} :
      Runs ⟨.expr (.binary pos op left right) scope, fuel + 1, s⟩ none ⟨.expr left scope, fuel, s⟩
  | right {pos op left right scope fuel s l s'}
      (hleft : Eval.expr fuel left scope s = (.value l, s')) :
      Runs ⟨.expr (.binary pos op left right) scope, fuel + 1, s⟩ none
        ⟨.expr right scope, fuel, s'⟩
  | callee {pos callee arguments scope fuel s} :
      Runs ⟨.expr (.call pos callee arguments) scope, fuel + 1, s⟩ none
        ⟨.expr callee scope, fuel, s⟩
  | arguments {pos callee arguments scope fuel s f s'}
      (hcallee : Eval.expr fuel callee scope s = (.value f, s')) :
      Runs ⟨.expr (.call pos callee arguments) scope, fuel + 1, s⟩ none
        ⟨.args arguments scope, fuel, s'⟩
  | body {pos callee arguments scope fuel s c vs inner s₁ s₂ s₃}
      (hcallee : Eval.expr (fuel + 1) callee scope s = (.value (.fxn (.custom c)), s₁))
      (harguments : Eval.args (fuel + 1) arguments scope s₁ = (.value vs, s₂))
      (harity : vs.length = c.arity)
      (hprologue : Eval.prologue c vs pos s₂ = (.value inner, s₃)) :
      Runs ⟨.expr (.call pos callee arguments) scope, fuel + 2, s⟩ (some c)
        ⟨.block c.body inner .empty, fuel, s₃.enter c⟩
  | argument {e es scope fuel s} :
      Runs ⟨.args (e :: es) scope, fuel + 1, s⟩ none ⟨.expr e scope, fuel, s⟩
  | otherArguments {e es scope fuel s v s'}
      (hargument : Eval.expr fuel e scope s = (.value v, s')) :
      Runs ⟨.args (e :: es) scope, fuel + 1, s⟩ none ⟨.args es scope, fuel, s'⟩
  -- statements
  | expression {pos e scope fuel s} :
      Runs ⟨.stmt (.expr pos e) scope, fuel + 1, s⟩ none ⟨.expr e scope, fuel, s⟩
  | returned {pos value scope fuel s} :
      Runs ⟨.stmt (.ret pos value) scope, fuel + 1, s⟩ none ⟨.expr value scope, fuel, s⟩
  | braces {pos body scope fuel s} :
      Runs ⟨.stmt (.block pos body) scope, fuel + 1, s⟩ none
        ⟨.block body (s.openScope scope).1 .empty, fuel, (s.openScope scope).2⟩
  | initial {pos type name init scope fuel s} :
      Runs ⟨.stmt (.declare pos type name init) scope, fuel + 1, s⟩ none
        ⟨.expr init scope, fuel, s⟩
  | ifCondition {pos cond yes scope fuel s} :
      Runs ⟨.stmt (.ifThen pos cond yes) scope, fuel + 1, s⟩ none ⟨.expr cond scope, fuel, s⟩
  | ifYes {pos cond yes scope fuel s v s'}
      (hcond : Eval.expr fuel cond scope s = (.value v, s')) (htruthy : v.truthy = true) :
      Runs ⟨.stmt (.ifThen pos cond yes) scope, fuel + 1, s⟩ none ⟨.stmt yes scope, fuel, s'⟩
  | elseCondition {pos cond yes no scope fuel s} :
      Runs ⟨.stmt (.ifElse pos cond yes no) scope, fuel + 1, s⟩ none ⟨.expr cond scope, fuel, s⟩
  | elseYes {pos cond yes no scope fuel s v s'}
      (hcond : Eval.expr fuel cond scope s = (.value v, s')) (htruthy : v.truthy = true) :
      Runs ⟨.stmt (.ifElse pos cond yes no) scope, fuel + 1, s⟩ none ⟨.stmt yes scope, fuel, s'⟩
  | elseNo {pos cond yes no scope fuel s v s'}
      (hcond : Eval.expr fuel cond scope s = (.value v, s')) (htruthy : v.truthy = false) :
      Runs ⟨.stmt (.ifElse pos cond yes no) scope, fuel + 1, s⟩ none ⟨.stmt no scope, fuel, s'⟩
  | loop {pos cond body scope fuel s} :
      Runs ⟨.stmt (.loop pos cond body) scope, fuel + 1, s⟩ none
        ⟨.loop cond body scope .empty, fuel, s⟩
  -- statements one after the other
  | skipped {st rest scope last fuel s} (hmissing : st.isMissing = true) :
      Runs ⟨.block (st :: rest) scope last, fuel + 1, s⟩ none ⟨.block rest scope last, fuel, s⟩
  | first {st rest scope last fuel s} (hmissing : st.isMissing = false) :
      Runs ⟨.block (st :: rest) scope last, fuel + 1, s⟩ none ⟨.stmt st scope, fuel, s⟩
  | others {st rest scope last fuel s v s'} (hmissing : st.isMissing = false)
      (hfirst : Eval.stmt fuel st scope s = (.value v, s')) :
      Runs ⟨.block (st :: rest) scope last, fuel + 1, s⟩ none ⟨.block rest scope v, fuel, s'⟩
  -- the rounds of a loop
  | condition {cond body scope last fuel s} :
      Runs ⟨.loop cond body scope last, fuel + 1, s⟩ none ⟨.expr cond scope, fuel, s⟩
  | round {cond body scope last fuel s v s'}
      (hcond : Eval.expr fuel cond scope s = (.value v, s')) (htruthy : v.truthy = true) :
      Runs ⟨.loop cond body scope last, fuel + 1, s⟩ none ⟨.stmt body scope, fuel, s'⟩
  | otherRounds {cond body scope last fuel s v w s' s''}
      (hcond : Eval.expr fuel cond scope s = (.value v, s')) (htruthy : v.truthy = true)
      (hround : Eval.stmt fuel body scope s' = (.value w, s'')) :
      Runs ⟨.loop cond body scope last, fuel + 1, s⟩ none ⟨.loop cond body scope w, fuel, s''⟩

/-- Running a part takes less of the budget than running the whole. -/
theorem Runs.fuel_lt {m m' : Moment} {called : Option Closure} (h : Runs m called m') :
    m'.fuel < m.fuel := by
  cases h <;> simp

/-- **What a run is made of finds the same calls active**, the same chunk and the same options,
calls apart. -/
theorem Runs.balanced {m m' : Moment} (h : Runs m none m') :
    m'.session.callStack = m.session.callStack ∧ m'.session.chunk = m.session.chunk ∧
      m'.session.options = m.session.options := by
  have hexpr {fuel e scope s r s'} (hx : Eval.expr fuel e scope s = (r, s')) :
      s'.callStack = s.callStack ∧ s'.chunk = s.chunk ∧ s'.options = s.options :=
    ((Eval.evalConfined fuel).expr e scope).balanced hx
  have hstmt {fuel st scope s r s'} (hx : Eval.stmt fuel st scope s = (r, s')) :
      s'.callStack = s.callStack ∧ s'.chunk = s.chunk ∧ s'.options = s.options :=
    ((Eval.evalConfined fuel).stmt st scope).balanced hx
  cases h with
  | right hleft => exact hexpr hleft
  | arguments hcallee => exact hexpr hcallee
  | otherArguments hargument => exact hexpr hargument
  | ifYes hcond _ | elseYes hcond _ | elseNo hcond _ | round hcond _ => exact hexpr hcond
  | others _ hfirst => exact hstmt hfirst
  | otherRounds hcond _ hround =>
      obtain ⟨hcalls, hchunk, hoptions⟩ := hexpr hcond
      obtain ⟨hcalls', hchunk', hoptions'⟩ := hstmt hround
      exact ⟨hcalls'.trans hcalls, hchunk'.trans hchunk, hoptions'.trans hoptions⟩
  | _ => exact ⟨rfl, rfl, rfl⟩

/-- **The body of a function finds one call more active**, that of the function, for which there
was a place; and the chunk that the function remembers, if that has a line table. -/
theorem Runs.balanced_called {m m' : Moment} {c : Closure} (h : Runs m (some c) m') :
    m.session.callStack.size < m.session.options.callDepth ∧
      m'.session.callStack = m.session.callStack.push c.name ∧
      m'.session.chunk = (if c.chunk.lines.isSome then c.chunk else m.session.chunk) ∧
      m'.session.options = m.session.options := by
  cases h with
  | @body _ _ _ _ fuel s _ _ _ s₁ s₂ s₃ hcallee harguments _ hprologue =>
      obtain ⟨hcalls₁, hchunk₁, hoptions₁⟩ :=
        ((Eval.evalConfined (fuel + 1)).expr _ _).balanced hcallee
      obtain ⟨hcalls₂, hchunk₂, hoptions₂⟩ :=
        ((Eval.evalConfined (fuel + 1)).args _ _).balanced harguments
      obtain ⟨hcalls₃, hchunk₃, hoptions₃⟩ :=
        (Eval.prologue_confined c _ _).balanced hprologue
      have hroom := Eval.room_of_prologue hprologue
      rw [hcalls₂, hcalls₁, hoptions₂, hoptions₁] at hroom
      refine ⟨hroom, ?_, ?_, hoptions₃.trans (hoptions₂.trans hoptions₁)⟩
      · show s₃.callStack.push c.name = _
        rw [hcalls₃, hcalls₂, hcalls₁]
      · show (if c.chunk.lines.isSome then c.chunk else s₃.chunk) = _
        rw [hchunk₃, hchunk₂, hchunk₁]

/-- **An error of a part is the error of the whole.** -/
theorem Runs.fails {m m' : Moment} {called : Option Closure} {d : Diagnostic}
    (h : Runs m called m') (hd : m'.Fails d) : m.Fails d := by
  cases h with
  | group | expression | loop | braces => exact hd
  | assigned | operand | left | callee | argument | returned | initial | ifCondition
  | elseCondition | condition =>
      obtain ⟨s', hs'⟩ := hd
      exact ⟨s', Run.bind_failed hs' _⟩
  | right hleft =>
      obtain ⟨s', hs'⟩ := hd
      exact ⟨s', (Run.bind_value hleft).trans (Run.bind_failed hs' _)⟩
  | arguments hcallee =>
      obtain ⟨s', hs'⟩ := hd
      exact ⟨s', (Run.bind_value hcallee).trans (Run.bind_failed hs' _)⟩
  | @body _ _ _ _ _ _ c _ _ _ _ s₃ hcallee harguments harity hprologue =>
      obtain ⟨s', hs'⟩ := hd
      -- a failure is no return, and it is not held up by leaving the call
      refine ⟨s'.leave s₃.chunk, (Eval.call_custom hcallee harguments harity).trans ?_⟩
      rw [Run.bind_value hprologue]
      exact Run.within_failed.mpr ⟨s', Run.catchReturn_failed.mpr hs', rfl⟩
  | otherArguments hargument =>
      obtain ⟨s', hs'⟩ := hd
      exact ⟨s', (Run.bind_value hargument).trans (Run.bind_failed hs' _)⟩
  | ifYes hcond htruthy | elseYes hcond htruthy =>
      obtain ⟨s', hs'⟩ := hd
      refine ⟨s', (Run.bind_value hcond).trans ?_⟩
      rw [if_pos htruthy]
      exact hs'
  | elseNo hcond htruthy =>
      obtain ⟨s', hs'⟩ := hd
      refine ⟨s', (Run.bind_value hcond).trans ?_⟩
      rw [if_neg (by simp [htruthy])]
      exact hs'
  | skipped hmissing =>
      obtain ⟨s', hs'⟩ := hd
      exact ⟨s', (congrFun (Eval.block_cons_missing hmissing _ _ _ _) _).trans hs'⟩
  | first hmissing =>
      obtain ⟨s', hs'⟩ := hd
      exact ⟨s', (congrFun (Eval.block_cons_present hmissing _ _ _ _) _).trans
        (Run.bind_failed hs' _)⟩
  | others hmissing hfirst =>
      obtain ⟨s', hs'⟩ := hd
      exact ⟨s', (congrFun (Eval.block_cons_present hmissing _ _ _ _) _).trans
        ((Run.bind_value hfirst).trans hs')⟩
  | round hcond htruthy =>
      obtain ⟨s', hs'⟩ := hd
      refine ⟨s', (Run.bind_value hcond).trans ?_⟩
      rw [if_pos htruthy]
      exact Run.bind_failed hs' _
  | otherRounds hcond htruthy hround =>
      obtain ⟨s', hs'⟩ := hd
      refine ⟨s', (Run.bind_value hcond).trans ?_⟩
      rw [if_pos htruthy]
      exact (Run.bind_value hround).trans hs'

/-! ## Where errors are raised -/

/-- **Raising.** The run ends in an error, and none of the runs that it is made of does. -/
def Raises (m : Moment) (d : Diagnostic) : Prop :=
  m.Fails d ∧ ∀ (called : Option Closure) (m' : Moment), Runs m called m' → ∀ d', ¬m'.Fails d'

/-- A run that raises an error is made of no run that fails. -/
theorem Raises.not_failed {m m' : Moment} {d : Diagnostic} (h : m.Raises d)
    {called : Option Closure} (hruns : Runs m called m') : ¬m'.Fails d :=
  h.2 called m' hruns d

section

variable {fuel : Nat} {scope : ScopeId} {s : Session} {d : Diagnostic}

/-- A call that has its function and its arguments raises an error at the call. -/
private theorem apply_raises {f : Callable} {vs : List Value} {pos : Int} {s' : Session}
    (h : Eval.apply fuel f vs pos s = (.failed d, s'))
    (hbody : ∀ c fuel' inner s₃ after, f = .custom c → fuel = fuel' + 1 →
      Eval.prologue c vs pos s = (.value inner, s₃) →
      Eval.block fuel' c.body inner .empty (s₃.enter c) ≠ (.failed d, after)) :
    ErrorAt scope pos s d := by
  cases fuel with
  | zero => cases h
  | succ fuel =>
      cases f with
      | unassigned => cases h
      | native n => exact Eval.native_raisesAt scope n vs pos s s' d h
      | custom c =>
          rw [Eval.apply_custom] at h
          rcases bind_eq_failed h with hd | ⟨inner, s₃, hprologue, hd⟩
          · exact Eval.prologue_raisesAt scope c vs pos s s' d hd
          · obtain ⟨after, hafter, -⟩ := within_failed.mp hd
            exact absurd (catchReturn_failed.mp hafter)
              (hbody c fuel inner s₃ after rfl rfl hprologue)

private theorem call_raises {pos : Int} {callee : Expr} {arguments : List Expr}
    (h : Raises ⟨.expr (.call pos callee arguments) scope, fuel + 1, s⟩ d) :
    ErrorAt scope pos s d := by
  obtain ⟨s', hfails⟩ := h.1
  change Eval.expr (fuel + 1) (.call pos callee arguments) scope s = _ at hfails
  rw [Eval.expr_call] at hfails
  have hcallee := (Eval.evalConfined fuel).expr callee scope
  have harguments := (Eval.evalConfined fuel).args arguments scope
  rcases bind_eq_failed hfails with hd | ⟨f, s₁, hf, hd⟩
  · exact absurd ⟨s', hd⟩ (h.not_failed .callee)
  · refine errorAt_after hcallee hf ?_
    rcases bind_eq_failed hd with hd | ⟨vs, s₂, hvs, hd⟩
    · exact absurd ⟨s', hd⟩ (h.not_failed (.arguments hf))
    · refine errorAt_after harguments hvs ?_
      rcases Eval.invoke_cases fuel f vs pos with ⟨p, hp, hne⟩ | ⟨g, rfl, hg, harity⟩
      · rw [hp] at hd
        exact RaisesAt.raise hne s₂ s' d hd
      · rw [hg] at hd
        refine apply_raises hd ?_
        rintro c fuel' inner s₃ after rfl rfl hprologue hafter
        exact h.not_failed (.body hf hvs (harity c rfl) hprologue) ⟨after, hafter⟩

private theorem expr_raises {e : Expr} (h : Raises ⟨.expr e scope, fuel, s⟩ d) :
    ErrorAt scope e.offset s d := by
  obtain ⟨s', hfails⟩ := h.1
  cases fuel with
  | zero => cases hfails
  | succ fuel =>
      cases e with
      | missing | num _ _ | str _ _ | bool _ _ => cases hfails
      | ident pos name | symbol pos name => exact RaisesAt.getName name s s' d hfails
      | group pos inner => exact absurd ⟨s', hfails⟩ (h.not_failed .group)
      | assign pos name value =>
          have hset (v : Value) :
              RaisesAt scope pos (setName scope name v pos >>= fun _ => (pure v : Run Value)) := by
            have hconfined : Confined ∅ (setName scope name v pos) := .setName scope name v pos
            exact .bind (.setName name v) hconfined fun _ => .pure v
          exact errorAt_of_bind_failed hfails ((Eval.evalConfined fuel).expr value scope)
            (fun s' hs' => h.not_failed .assigned ⟨s', hs'⟩) hset
      | unary pos op operand =>
          exact errorAt_of_bind_failed hfails ((Eval.evalConfined fuel).expr operand scope)
            (fun s' hs' => h.not_failed .operand ⟨s', hs'⟩) fun v =>
              .liftValue fun _ hp _ => Value.ne_scope_of_unary hp _
      | binary pos op left right =>
          rcases bind_eq_failed hfails with hd | ⟨l, s₁, hl, hd⟩
          · exact absurd ⟨s', hd⟩ (h.not_failed .left)
          · refine errorAt_after ((Eval.evalConfined fuel).expr left scope) hl ?_
            exact errorAt_of_bind_failed hd ((Eval.evalConfined fuel).expr right scope)
              (fun s' hs' => h.not_failed (.right hl) ⟨s', hs'⟩) fun r =>
                .liftValue fun _ hp _ => Value.ne_scope_of_binary hp _
      | call pos callee arguments => exact call_raises h

private theorem stmt_raises {st : Stmt} (h : Raises ⟨.stmt st scope, fuel, s⟩ d) :
    ErrorAt scope st.offset s d := by
  obtain ⟨s', hfails⟩ := h.1
  cases fuel with
  | zero => cases hfails
  | succ fuel =>
      have hdeclare (name : Text) (v : Value) (pos : Int) :
          RaisesAt scope pos
            (declareName scope name v pos >>= fun _ => (pure .empty : Run Value)) := by
        have hconfined : Confined {scope} (declareName scope name v pos) :=
          .declareName (Set.mem_singleton scope) name v pos
        exact .bind (.declareName scope name v) hconfined fun _ => .pure _
      cases st with
      | missing => cases hfails
      | expr pos e => exact absurd ⟨s', hfails⟩ (h.not_failed .expression)
      | ret pos value =>
          refine errorAt_of_bind_failed hfails ((Eval.evalConfined fuel).expr value scope)
            (fun s' hs' => h.not_failed .returned ⟨s', hs'⟩) fun v => .of_ne ?_
          intro s s' d hd
          rcases bind_eq_failed hd with hd | ⟨_, _, _, hd⟩
          · unfold echo at hd
            split at hd <;> cases hd
          · cases hd
      | block pos body => exact absurd ⟨s', hfails⟩ (h.not_failed .braces)
      | declare pos type name init =>
          refine errorAt_of_bind_failed hfails ((Eval.evalConfined fuel).expr init scope)
            (fun s' hs' => h.not_failed .initial ⟨s', hs'⟩) fun v => ?_
          split
          · exact hdeclare name v pos
          · exact .raise fun _ => Problem.noConfusion
      | ifThen pos cond yes =>
          rcases bind_eq_failed hfails with hd | ⟨c, s₁, hc, hd⟩
          · exact absurd ⟨s', hd⟩ (h.not_failed .ifCondition)
          · split at hd
            · next htruthy => exact absurd ⟨s', hd⟩ (h.not_failed (.ifYes hc htruthy))
            · cases hd
      | ifElse pos cond yes no =>
          rcases bind_eq_failed hfails with hd | ⟨c, s₁, hc, hd⟩
          · exact absurd ⟨s', hd⟩ (h.not_failed .elseCondition)
          · split at hd
            · next htruthy => exact absurd ⟨s', hd⟩ (h.not_failed (.elseYes hc htruthy))
            · next htruthy =>
              exact absurd ⟨s', hd⟩ (h.not_failed (.elseNo hc (Bool.eq_false_iff.mpr htruthy)))
      | loop pos cond body => exact absurd ⟨s', hfails⟩ (h.not_failed .loop)
      | fxn pos name params body => exact hdeclare name _ pos s s' d hfails

/-- Lists of arguments raise no errors of their own. -/
private theorem args_not_raises {es : List Expr} : ¬Raises ⟨.args es scope, fuel, s⟩ d := by
  intro h
  obtain ⟨s', hfails⟩ := h.1
  cases fuel with
  | zero => cases hfails
  | succ fuel =>
      cases es with
      | nil => cases hfails
      | cons e es =>
          rcases bind_eq_failed hfails with hd | ⟨v, s₁, hv, hd⟩
          · exact h.not_failed .argument ⟨s', hd⟩
          · rcases bind_eq_failed hd with hd | ⟨_, _, _, hd⟩
            · exact h.not_failed (.otherArguments hv) ⟨s', hd⟩
            · cases hd

/-- Statements one after the other raise no errors of their own. -/
private theorem block_not_raises {ss : List Stmt} {last : Value} :
    ¬Raises ⟨.block ss scope last, fuel, s⟩ d := by
  intro h
  obtain ⟨s', hfails⟩ := h.1
  cases fuel with
  | zero => cases hfails
  | succ fuel =>
      cases ss with
      | nil => cases hfails
      | cons st rest =>
          cases hmissing : st.isMissing with
          | true =>
              have hrest :=
                (congrFun (Eval.block_cons_missing hmissing _ _ _ _) s).symm.trans hfails
              exact h.not_failed (.skipped hmissing) ⟨s', hrest⟩
          | false =>
              have hboth :=
                (congrFun (Eval.block_cons_present hmissing _ _ _ _) s).symm.trans hfails
              rcases bind_eq_failed hboth with hd | ⟨v, s₁, hv, hd⟩
              · exact h.not_failed (.first hmissing) ⟨s', hd⟩
              · exact h.not_failed (.others hmissing hv) ⟨s', hd⟩

/-- The rounds of a loop raise no errors of their own. -/
private theorem loop_not_raises {cond : Expr} {body : Stmt} {last : Value} :
    ¬Raises ⟨.loop cond body scope last, fuel, s⟩ d := by
  intro h
  obtain ⟨s', hfails⟩ := h.1
  cases fuel with
  | zero => cases hfails
  | succ fuel =>
      rcases bind_eq_failed hfails with hd | ⟨c, s₁, hc, hd⟩
      · exact h.not_failed .condition ⟨s', hd⟩
      · split at hd
        · next htruthy =>
          rcases bind_eq_failed hd with hd | ⟨w, s₂, hw, hd⟩
          · exact h.not_failed (.round hc htruthy) ⟨s', hd⟩
          · exact h.not_failed (.otherRounds hc htruthy hw) ⟨s', hd⟩
        · cases hd

end

/-- **What error is raised, and where.** An error is raised by a statement or an expression. It is
a problem that can arise in the scope in which this runs, placed at its offset in the chunk that is
active when it starts to run. -/
theorem Raises.errorAt {m : Moment} {d : Diagnostic} (h : m.Raises d) :
    ∃ site, m.part.root? = some site ∧ ErrorAt m.part.scope site.offset m.session d := by
  obtain ⟨part, fuel, s⟩ := m
  cases part with
  | expr e scope => exact ⟨_, rfl, expr_raises h⟩
  | stmt st scope => exact ⟨_, rfl, stmt_raises h⟩
  | args es scope => exact absurd h args_not_raises
  | block ss scope last => exact absurd h block_not_raises
  | loop cond body scope last => exact absurd h loop_not_raises

/-- **Where an error is raised.** An error is raised by a statement or an expression, and it is
placed at the offset of this statement or expression in the chunk that is active when it starts to
run. -/
theorem Raises.eq_diagnose {m : Moment} {d : Diagnostic} (h : m.Raises d) :
    ∃ site p, m.part.root? = some site ∧ d = m.session.diagnose p site.offset := by
  obtain ⟨site, hroot, p, -, hd⟩ := h.errorAt
  exact ⟨site, p, hroot, hd⟩

/-! ## Moments that a run comes to -/

/-- **The moments that a run comes to**: itself, those that it is made of, those that these are made
of, and so on. -/
def Visits : Moment → Moment → Prop :=
  Relation.ReflTransGen fun m m' => ∃ called, Runs m called m'

variable {m m' : Moment} {d : Diagnostic}

/-- An error of a run on the way is the error of the whole run. -/
theorem Visits.fails (h : m.Visits m') (hd : m'.Fails d) : m.Fails d := by
  induction h with
  | refl => exact hd
  | tail _ hruns ih =>
      obtain ⟨called, hruns⟩ := hruns
      exact ih (hruns.fails hd)

/-- **Every error is raised at a moment that the run comes to.** -/
theorem Fails.exists_raises (hd : m.Fails d) : ∃ m', m.Visits m' ∧ m'.Raises d := by
  -- the budget bounds how far the error can be followed down
  induction hfuel : m.fuel using Nat.strong_induction_on generalizing m with
  | _ fuel ih =>
    by_cases hparts : ∃ called m₁ d₁, Runs m called m₁ ∧ m₁.Fails d₁
    · obtain ⟨called, m₁, d₁, hruns, hd₁⟩ := hparts
      obtain rfl : d = d₁ := hd.unique (hruns.fails hd₁)
      obtain ⟨m', hvisits, hraises⟩ := ih m₁.fuel (hfuel ▸ hruns.fuel_lt) hd₁ rfl
      exact ⟨m', .head ⟨called, hruns⟩ hvisits, hraises⟩
    · refine ⟨m, .refl, hd, fun called m₁ hruns d₁ hd₁ => hparts ?_⟩
      exact ⟨called, m₁, d₁, hruns, hd₁⟩

end Moment

end Badger
