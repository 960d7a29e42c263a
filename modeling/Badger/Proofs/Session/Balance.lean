import Badger.Proofs.Session.Provenance

/-!
# Calls are balanced

Every call that is entered is left, whether its body ends in a value, in a return or in an error.
The active calls are a stack of bounded height that is empty between the texts that a session
evaluates, and an error reports the stack as it was when the error was raised.

## Main definitions

* `Run.Balanced`: parts of a program after which the active calls and the active chunk are the same
* `Eval.Enters`: the moment at which a call starts to run the body of its function

## Main statements

* `Moment.Visits.stack_grows`: calls are only added on top of those that a run finds
* `Moment.Visits.height_le`: there are never more active calls than the session admits
* `Moment.Raises.stack_eq`: an error reports the active calls of the moment at which it is raised
* `Session.calls_balanced`: active calls and active chunk after, during and between runs

## Design notes

A run changes the active calls only where it enters the body of a function, and that is a moment of
its own. What holds of the active calls at every moment that a run comes to therefore holds all the
time.
-/

namespace Badger

namespace Moment

variable {m m' : Moment} {d : Diagnostic}

/-! ## The height of the stack -/

namespace Visits

/-- **Calls are only added on top** of those that a run finds, and the options stay. -/
theorem stack_grows (h : m.Visits m') :
    m.session.callStack.toList <+: m'.session.callStack.toList ∧
      m'.session.options = m.session.options := by
  induction h with
  | refl => exact ⟨List.prefix_rfl, rfl⟩
  | @tail m₁ m₂ _ hruns ih =>
      obtain ⟨called, hruns⟩ := hruns
      -- a step enters the body of a function, or it changes no active call
      cases called with
      | none =>
          obtain ⟨hcalls, -, hoptions⟩ := hruns.balanced
          rw [hcalls, hoptions]
          exact ih
      | some c =>
          obtain ⟨-, hcalls, -, hoptions⟩ := hruns.balanced_called
          rw [hcalls, hoptions, Array.toList_push]
          exact ⟨ih.1.trans (List.prefix_append _ _), ih.2⟩

/-- **There are never more active calls than the session admits**, or than the run found. -/
theorem height_le (h : m.Visits m') :
    m'.session.callStack.size ≤ max m.session.callStack.size m.session.options.callDepth := by
  induction h with
  | refl => exact le_max_left _ _
  | @tail m₁ m₂ hvisits hruns ih =>
      obtain ⟨called, hruns⟩ := hruns
      cases called with
      | none =>
          rw [hruns.balanced.1]
          exact ih
      | some c =>
          obtain ⟨hroom, hcalls, -, -⟩ := hruns.balanced_called
          have hoptions := (stack_grows hvisits).2
          rw [hcalls, Array.size_push, ← hoptions]
          exact le_trans hroom (le_max_right _ _)

end Visits

/-! ## The stack of an error -/

/-- **An error reports the active calls** of the moment at which it is raised, innermost first. -/
theorem Raises.stack_eq (h : m.Raises d) : d.stack = m.session.callStack.toList.reverse := by
  obtain ⟨site, p, -, rfl⟩ := h.eq_diagnose
  rfl

end Moment

/-! ## Calls -/

/-- A part of a program after which the active calls and the active chunk are what they were before,
however it ends. -/
def Run.Balanced {α : Type} (x : Run α) : Prop :=
  ∀ s, (x s).2.callStack = s.callStack ∧ (x s).2.chunk = s.chunk

theorem Run.Confined.isBalanced {α : Type} {own : Set ScopeId} {x : Run α} (h : Confined own x) :
    Balanced x :=
  fun s => ⟨(h s).balanced.1, (h s).balanced.2.1⟩

namespace Eval

variable {fuel : Nat} {c : Closure} {vs : List Value} {pos : Int} {s : Session}

/-- **The body of a function.** `Enters fuel c vs pos s m` says that a call of `c` at `pos` in the
session `s` gets to the body of the function, and that `m` is the moment at which that starts. -/
def Enters (fuel : Nat) (c : Closure) (vs : List Value) (pos : Int) (s : Session) (m : Moment) :
    Prop :=
  ∃ rest inner s₁, fuel = rest + 1 ∧ prologue c vs pos s = (.value inner, s₁) ∧
    m = ⟨.block c.body inner .empty, rest, s₁.enter c⟩

/-- The body of a function finds one call more active, for which there was a place. -/
theorem Enters.balanced {m : Moment} (h : Enters fuel c vs pos s m) :
    m.session.callStack = s.callStack.push c.name ∧
      m.session.callStack.size ≤ s.options.callDepth ∧ m.session.options = s.options := by
  obtain ⟨rest, inner, s₁, rfl, hprologue, rfl⟩ := h
  obtain ⟨hcalls, -, hoptions⟩ := (prologue_confined c vs pos).balanced hprologue
  have hstack : (s₁.enter c).callStack = s.callStack.push c.name := by
    show s₁.callStack.push c.name = _
    rw [hcalls]
  refine ⟨hstack, ?_, hoptions⟩
  rw [hstack, Array.size_push]
  exact room_of_prologue hprologue

/-- In the body of a function there are never more active calls than the session admits. -/
theorem Enters.height_le {m m' : Moment} (h : Enters fuel c vs pos s m) (hvisits : m.Visits m') :
    m'.session.callStack.size ≤ s.options.callDepth := by
  obtain ⟨-, hsize, hoptions⟩ := h.balanced
  have hheight := hvisits.height_le
  rwa [hoptions, max_eq_right hsize] at hheight

/-- **A call fails by itself or in the body of its function.** -/
theorem fails_of_apply {d : Diagnostic} {s' : Session}
    (h : apply fuel (.custom c) vs pos s = (.failed d, s')) :
    (∃ p, d = s.diagnose p pos) ∨ ∃ m, Enters fuel c vs pos s m ∧ m.Fails d := by
  cases fuel with
  | zero => cases h
  | succ fuel =>
      rw [apply_custom] at h
      rcases Run.bind_eq_failed h with hd | ⟨inner, s₁, hprologue, hd⟩
      · obtain ⟨p, -, hp⟩ := prologue_raisesAt c.scope c vs pos s s' d hd
        exact .inl ⟨p, hp⟩
      · obtain ⟨after, hafter, -⟩ := Run.within_failed.mp hd
        refine .inr ⟨_, ⟨fuel, inner, s₁, rfl, hprologue, rfl⟩, after, ?_⟩
        exact Run.catchReturn_failed.mp hafter

end Eval

/-! ## Sessions -/

namespace Session

/-- Nothing that is done with a session leaves a call active. -/
theorem callStack_step {s : Session} (h : s.callStack = #[]) (step : Step) :
    (s.step step).callStack = #[] ∧ (s.step step).options = s.options := by
  have hrun (fuel : Nat) (t : Session) (ht : t.callStack = #[]) (stmts : List Stmt) :
      (t.runProgram fuel stmts).2.callStack = #[] ∧
        (t.runProgram fuel stmts).2.options = t.options := by
    have hbalanced := ((Eval.evalConfined fuel).block stmts t.globals .empty t).balanced
    exact ⟨hbalanced.1.trans ht, hbalanced.2.2.1⟩
  cases step with
  | run fuel stmts => exact hrun fuel s h stmts
  | reset => exact ⟨rfl, rfl⟩
  | eval fuel file text =>
      show (s.eval fuel file text).2.callStack = #[] ∧ (s.eval fuel file text).2.options = s.options
      unfold eval
      split
      · exact ⟨h, rfl⟩
      · next stmts stream _ =>
        exact hrun fuel (s.setChunk (Chunk.ofStream file text stream)) h stmts

theorem callStack_after {s : Session} (h : s.callStack = #[]) (steps : List Step) :
    (s.after steps).callStack = #[] ∧ (s.after steps).options = s.options := by
  induction steps generalizing s with
  | nil => exact ⟨h, rfl⟩
  | cons step steps ih =>
      obtain ⟨hcalls, hoptions⟩ := callStack_step h step
      obtain ⟨hcalls', hoptions'⟩ := ih hcalls
      exact ⟨hcalls', hoptions'.trans hoptions⟩

/-- **Calls are balanced.** However a statement, statements one after the other, an expression or a
call end, the active calls and the active chunk are afterwards what they were before. While they
run, there are never more active calls than the session admits, or than there were before; and an
error that comes out of a run was raised at some moment of it, and reports the calls that were
active at that moment, innermost first. Between the steps of a session no call is active, whatever
went wrong before, so that all calls that the session admits are available; and a text that cannot
be read leaves the session as it was. -/
theorem calls_balanced (options : Options) :
    (∀ fuel : Nat,
      (∀ (st : Stmt) (scope : ScopeId), Run.Balanced (Eval.stmt fuel st scope)) ∧
      (∀ (ss : List Stmt) (scope : ScopeId) (last : Value),
        Run.Balanced (Eval.block fuel ss scope last)) ∧
      (∀ (e : Expr) (scope : ScopeId), Run.Balanced (Eval.expr fuel e scope)) ∧
      ∀ (f : Callable) (vs : List Value) (pos : Int), Run.Balanced (Eval.apply fuel f vs pos)) ∧
    (∀ m m' : Moment, m.Visits m' →
      m'.session.callStack.size ≤ max m.session.callStack.size m.session.options.callDepth ∧
      ∀ d, m'.Raises d → m.Fails d ∧ d.stack = m'.session.callStack.toList.reverse) ∧
    (∀ (m : Moment) (d : Diagnostic), m.Fails d → ∃ m', m.Visits m' ∧ m'.Raises d) ∧
    (∀ (fuel : Nat) (c : Closure) (vs : List Value) (pos : Int) (s : Session),
      (∀ m m', Eval.Enters fuel c vs pos s m → m.Visits m' →
        m'.session.callStack.size ≤ s.options.callDepth) ∧
      ∀ d s', Eval.apply fuel (.custom c) vs pos s = (.failed d, s') →
        d.stack = s.callStack.toList.reverse ∨
          ∃ m m', Eval.Enters fuel c vs pos s m ∧ m.Visits m' ∧ m'.Raises d) ∧
    ∀ steps : List Step,
      ((new options).after steps).callStack = #[] ∧
      ((new options).after steps).options = options ∧
      (∀ e start, ((new options).after steps).begin? e = some start → ∀ m, start.Visits m →
        m.session.callStack.size ≤ options.callDepth ∧
        ∀ d, m.Raises d → d.stack.length ≤ options.callDepth) ∧
      ∀ fuel file text failure, readChunk options.strict text = .error failure →
        ((new options).after steps).eval fuel file text =
          (.failure failure, (new options).after steps) := by
  refine ⟨fun fuel => ?_, fun m m' hvisits => ⟨hvisits.height_le, fun d hraises => ?_⟩,
    fun m d hd => hd.exists_raises, fun fuel c vs pos s => ⟨fun m m' => Eval.Enters.height_le, ?_⟩,
    fun steps => ?_⟩
  · have hconfined := Eval.evalConfined fuel
    exact ⟨fun st scope => (hconfined.stmt st scope).isBalanced,
      fun ss scope last => (hconfined.block ss scope last).isBalanced,
      fun e scope => (hconfined.expr e scope).isBalanced,
      fun f vs pos => (hconfined.apply f vs pos).isBalanced⟩
  · exact ⟨hvisits.fails hraises.1, hraises.stack_eq⟩
  · intro d s' h
    rcases Eval.fails_of_apply h with ⟨p, rfl⟩ | ⟨m, henters, hd⟩
    · exact .inl rfl
    · obtain ⟨m', hvisits, hraises⟩ := hd.exists_raises
      exact .inr ⟨m, m', henters, hvisits, hraises⟩
  · obtain ⟨hcalls, hoptions⟩ := callStack_after (s := new options) rfl steps
    have hoptions : ((new options).after steps).options = options := hoptions
    refine ⟨hcalls, hoptions, fun e start hstart m hvisits => ?_,
      fun fuel file text failure h => ?_⟩
    · have hheight := hvisits.height_le
      obtain ⟨-, rfl⟩ := begin?_eq_some hstart
      have hempty : (((new options).after steps).setChunk e.chunk).callStack.size = 0 :=
        congrArg Array.size hcalls
      have hlimit : (((new options).after steps).setChunk e.chunk).options = options := hoptions
      dsimp only at hheight
      rw [hempty, hlimit, Nat.zero_max] at hheight
      refine ⟨hheight, fun d hraises => ?_⟩
      rw [hraises.stack_eq, List.length_reverse, Array.length_toList]
      exact hheight
    · rw [eval, hoptions, h]

/-- Two calls are admitted. A function that calls itself fails at the third one, in one text and
then, with two calls available again, in another. -/
theorem calls_balanced_limit :
    let options : Options := { callDepth := 2 }
    let s := (new options).after
      [.eval 40 (utf8 "a") (utf8 "fxn f() \x7b return f(); \x7d\nf();")]
    let e : Evaluation := ⟨40, utf8 "b", utf8 "f();\n"⟩
    ∃ start d m, s.callStack = #[] ∧ s.begin? e = some start ∧
      (s.eval e.fuel e.file e.text).1 = .failure (.single d) ∧ d.problem = .callDepth ∧
      start.Visits m ∧ m.Raises d ∧ m.session.callStack.toList = [utf8 "f", utf8 "f"] := by
  intro options s e
  obtain ⟨-, hduring, hraised, -, hbetween⟩ := calls_balanced options
  have hstart : (s.begin? e).isSome = true := by decide +kernel
  obtain ⟨start, hbegin⟩ := Option.isSome_iff_exists.mp hstart
  have hfails : ((s.eval e.fuel e.file e.text).1.diagnostic?.map
      fun d => (d.problem, d.stack)) = some (.callDepth, [utf8 "f", utf8 "f"]) := by decide +kernel
  obtain ⟨d, hd, heq⟩ := Option.map_eq_some_iff.mp hfails
  have hd := Answer.eq_of_diagnostic? hd
  obtain ⟨m, hvisits, hraises⟩ := hraised start d (fails_of_begin?_eq_some hbegin hd)
  have hstack := ((hduring start m hvisits).2 d hraises).2
  rw [(Prod.mk.inj heq).2] at hstack
  refine ⟨start, d, m, (hbetween _).1, hbegin, hd, (Prod.mk.inj heq).1, hvisits, hraises, ?_⟩
  rw [← List.reverse_reverse m.session.callStack.toList, ← hstack]
  rfl

end Session

end Badger
