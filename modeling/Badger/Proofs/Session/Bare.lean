import Badger.Proofs.Session.Following

/-!
# Running does not depend on places

The offsets of a program and the texts that it came from are only ever reported. With all places
taken out of a session and of the program run in it, the run is the same, step for step, but for
the places in what comes out of it.

## Main definitions

* `Value.bare`, `Session.bare`: values and sessions without places, like `Stmt.bare`
* `Run.Erases`: a part of a program that does without places what another does with them

## Main statements

* `EvalErases`, `evalErases`: evaluation commutes with taking places out

## Design notes

Taking places out is a function, so that "the same but for places" is an equation between bare
things. A session without places is a variant of the session, and evaluation in variants has been
gone through already.
-/

namespace Badger

/-! ## Taking places out -/

/-- The closure without the places of its body. -/
def Closure.bare (c : Closure) : Closure :=
  { c with body := c.body.map Stmt.bare, chunk := {} }

/-- The function without places. -/
def Callable.bare : Callable → Callable
  | .unassigned => .unassigned
  | .native n => .native n
  | .custom c => .custom c.bare

/-- **The value without places**, which only functions have. -/
def Value.bare : Value → Value
  | .num x => .num x
  | .str s => .str s
  | .bool b => .bool b
  | .fxn f => .fxn f.bare

/-- Bindings without places. -/
def bareBindings (bs : List (Text × Value)) : List (Text × Value) :=
  bs.map fun b => (b.1, b.2.bare)

/-- The scope without places. -/
def Scope.bare (s : Scope) : Scope := { s with bindings := bareBindings s.bindings }

/-- The memory without places. -/
def Memory.bare (m : Memory) : Memory := ⟨m.scopes.map Scope.bare⟩

/-- **The session without places.** -/
def Session.bare (s : Session) : Session := { s with memory := s.memory.bare, chunk := {} }

/-- The outcome without places, given how they are taken out of a value. -/
def Outcome.bare {α β : Type} (g : α → β) : Outcome α → Outcome β
  | .value a => .value (g a)
  | .returned v => .returned v.bare
  | .failed d => .failed d.bare
  | .outOfFuel => .outOfFuel

/-- Moving a statement does not change what it is without places. -/
theorem Stmt.bare_mapPos (f : Int → Int) (s : Stmt) : (s.mapPos f).bare = s.bare :=
  s.mapPos_mapPos f _

@[simp] theorem Stmt.isMissing_bare (s : Stmt) : s.bare.isMissing = s.isMissing :=
  s.isMissing_mapPos _

@[simp] theorem Memory.scope?_bare (m : Memory) (id : ScopeId) :
    m.bare.scope? id = (m.scope? id).map Scope.bare :=
  Array.getElem?_map

/-! ## Places as a difference between sessions -/

namespace Variant

theorem value_bare : value { unplaced := true } = Value.bare := by
  funext v
  rcases v with _ | _ | _ | ⟨_ | _ | _⟩ <;> rfl

theorem callable_bare : (recast { unplaced := true }).callable = Callable.bare := by
  funext f
  cases f <;> rfl

theorem castScope_bare (s : Scope) : (recast { unplaced := true }).castScope s = s.bare := by
  have houter : s.outer.map (scope { unplaced := true }) = s.outer := by cases s.outer <;> rfl
  have hbindings : (recast { unplaced := true }).bindings s.bindings = bareBindings s.bindings :=
    List.map_congr_left fun b _ => congrArg (Prod.mk b.1) (congrFun value_bare b.2)
  rw [Recast.castScope, houter, hbindings]
  rfl

theorem session_bare (s : Session) : session { unplaced := true } s = s.bare := by
  rw [session, Recast.castMemory, funext castScope_bare]
  rfl

theorem outcome_bare {α β : Type} (g : α → β) :
    outcome { unplaced := true } g = Outcome.bare g := by
  funext o
  cases o with
  | returned v => exact congrArg Outcome.returned (congrFun value_bare v)
  | value _ | failed _ | outOfFuel => rfl

end Variant

/-! ## Parts of a program -/

namespace Run

variable {α β : Type} {g : α → β}

/-- **Erasure.** What `x` does to a session, `y` does to the session without places, and the
outcome is the same without places, if `g` takes them out of values. -/
def Erases (g : α → β) (x : Run α) (y : Run β) : Prop :=
  ∀ s : Session, y s.bare = ((x s).1.bare g, (x s).2.bare)

/-- What is followed where places are taken out is erased. -/
theorem Erases.of_follows {x : Run α} {y : Run β}
    (h : ({ unplaced := true } : Variant).Follows g x y) : Erases g x y := by
  intro s
  have hs : ({ unplaced := true } : Variant).InStep s s.bare := by
    rw [← Variant.session_bare]
    exact Variant.inStep_session s
  rcases h s s.bare hs with ⟨houtcome, hstep⟩ | hcut
  · rw [Variant.outcome_bare] at houtcome
    exact Prod.ext houtcome (hstep.eq_session.trans (Variant.session_bare _))
  · exact Bool.noConfusion hcut.wider

/-- Sessions that differ in places only are led to such sessions, with such outcomes. -/
theorem Erases.congr {x x' : Run α} {y : Run β} (h : Erases g x y) (h' : Erases g x' y)
    {s s' : Session} (hs : s'.bare = s.bare) :
    (x' s').1.bare g = (x s).1.bare g ∧ (x' s').2.bare = (x s).2.bare := by
  have heq := (h' s').symm.trans ((congrArg y hs).trans (h s))
  exact ⟨congrArg Prod.fst heq, congrArg Prod.snd heq⟩

end Run

/-! ## Evaluation -/

namespace Eval

open Run (Erases)

/-- **Evaluation commutes with taking places out**, within a budget. -/
structure EvalErases (fuel : Nat) : Prop where
  expr (e : Expr) (scope : ScopeId) :
    Erases Value.bare (expr fuel e scope) (expr fuel e.bare scope)
  args (es : List Expr) (scope : ScopeId) :
    Erases (List.map Value.bare) (args fuel es scope) (args fuel (es.map Expr.bare) scope)
  apply (f : Callable) (vs : List Value) (pos : Int) :
    Erases Value.bare (apply fuel f vs pos) (apply fuel f.bare (vs.map Value.bare) 0)
  stmt (st : Stmt) (scope : ScopeId) :
    Erases Value.bare (stmt fuel st scope) (stmt fuel st.bare scope)
  block (ss : List Stmt) (scope : ScopeId) (last : Value) :
    Erases Value.bare (block fuel ss scope last) (block fuel (ss.map Stmt.bare) scope last.bare)
  loop (cond : Expr) (body : Stmt) (scope : ScopeId) (last : Value) :
    Erases Value.bare (loop fuel cond body scope last)
      (loop fuel cond.bare body.bare scope last.bare)

/-- **Running does not depend on places.** -/
theorem evalErases (fuel : Nat) : EvalErases fuel := by
  have h := evalFollows { unplaced := true } fuel
  constructor
  all_goals
    intros
    rw [← Variant.value_bare]
  case expr e scope => exact .of_follows (h.expr e scope)
  case args es scope => exact .of_follows (h.args es scope)
  case apply f vs pos =>
      rw [← Variant.callable_bare]
      exact .of_follows (h.apply f vs pos)
  case stmt st scope => exact .of_follows (h.stmt st scope)
  case block ss scope last => exact .of_follows (h.block ss scope last)
  case loop cond body scope last => exact .of_follows (h.loop cond body scope last)

end Eval

end Badger
