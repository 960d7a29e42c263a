import Badger.Proofs.Scope.Binding
import Badger.Proofs.Session.Move

/-!
# How parts of a program end

What is known where a part of a program ends in a value, and which parts never end in a return.

## Main definitions

* `Run.Settles`: parts of a program that never end in a return

## Main statements

* `Eval.evalSettles`: **expressions and calls never end in a return**
* `Run.within_eq_value`: the value of a call is that of a return in its body, or else that of the
  body
* `Eval.bindParams_eq_value`: the session after the parameters of a call are bound
-/

namespace Badger

namespace Run

variable {α β : Type}

/-- A part of a program that never ends in a return. -/
def Settles (x : Run α) : Prop := ∀ s v, (x s).1 ≠ .returned v

namespace Settles

theorem bind {x : Run α} {f : α → Run β} (hx : Settles x) (hf : ∀ a, Settles (f a)) :
    Settles (x >>= f) := by
  intro s v h
  rw [bind_apply] at h
  have hfirst := hx s
  rcases hresult : x s with ⟨a | v' | d | _, s'⟩
  all_goals rw [hresult] at hfirst h
  · exact hf a s' v h
  · exact hfirst v' rfl
  · cases h
  · cases h

theorem pure (a : α) : Settles (Pure.pure a : Run α) := fun _ _ h => by cases h

theorem exhausted : Settles (Run.exhausted : Run α) := fun _ _ h => by cases h

theorem raise (p : Problem) (pos : Int) : Settles (Run.raise p pos : Run α) :=
  fun _ _ h => by cases h

theorem liftValue (pos : Int) (r : Except Problem Value) : Settles (Run.liftValue pos r) := by
  cases r with
  | ok v => exact .pure v
  | error p => exact .raise p pos

theorem getName (scope : ScopeId) (name : Text) (pos : Int) :
    Settles (Run.getName scope name pos) := by
  intro s v h
  unfold Run.getName at h
  split at h <;> cases h

theorem setName (scope : ScopeId) (name : Text) (w : Value) (pos : Int) :
    Settles (Run.setName scope name w pos) := by
  intro s v h
  unfold Run.setName at h
  split at h <;> cases h

theorem declareName (scope : ScopeId) (name : Text) (w : Value) (pos : Int) :
    Settles (Run.declareName scope name w pos) := by
  intro s v h
  unfold Run.declareName at h
  split at h <;> cases h

theorem guardCalls (pos : Int) : Settles (Run.guardCalls pos) := by
  intro s v h
  unfold Run.guardCalls at h
  split at h <;> cases h

theorem openScope (outer : ScopeId) : Settles (Run.openScope outer) := fun _ _ h => by cases h

theorem write (w : Write) : Settles (Run.write w) := fun _ _ h => by cases h

/-- A call ends in a value where its body ends in a return. -/
theorem within (c : Closure) (x : Run Value) : Settles (Run.within c (Run.catchReturn x)) := by
  intro s v h
  unfold Run.within Run.catchReturn at h
  rcases hresult : x (s.enter c) with ⟨a | v' | d | _, s'⟩
  all_goals simp only [hresult] at h
  all_goals cases h

end Settles

/-! ## Ending in a value -/

section

variable {s s' : Session} {v : Value}

theorem getName_eq_value {id : ScopeId} {name : Text} {pos : Int}
    (h : Run.getName id name pos s = (.value v, s')) : s.memory.get id name = .ok v ∧ s' = s := by
  unfold Run.getName at h
  split at h
  · next hget =>
    cases h
    exact ⟨hget, rfl⟩
  · cases h

theorem setName_eq_value {id : ScopeId} {name : Text} {pos : Int} {u : Unit}
    (h : Run.setName id name v pos s = (.value u, s')) :
    ∃ holder, s.memory.checkSet id name v = .ok holder ∧
      s' = s.updateMemory fun m => m.rebind holder name v := by
  unfold Run.setName at h
  split at h
  · next holder hset =>
    cases h
    exact ⟨holder, hset, rfl⟩
  · cases h

theorem liftValue_eq_value {pos : Int} {r : Except Problem Value}
    (h : Run.liftValue pos r s = (.value v, s')) : r = .ok v ∧ s' = s := by
  cases r with
  | ok v' =>
      cases h
      exact ⟨rfl, rfl⟩
  | error p => cases h

theorem declareName_eq_value {id : ScopeId} {name : Text} {pos : Int} {u : Unit}
    (h : Run.declareName id name v pos s = (.value u, s')) :
    s' = s.updateMemory fun m => m.bind id name v := by
  unfold Run.declareName at h
  split at h
  · cases h
    rfl
  · cases h

/-- A scope opened inside another one that exists. -/
theorem openScope_eq_value {outer id : ScopeId} {scope : Scope}
    (houter : s.memory.scope? outer = some scope) (h : Run.openScope outer s = (.value id, s')) :
    id = s.memory.scopes.size ∧ s'.globals = s.globals ∧ s'.options = s.options ∧
      s'.output = s.output ∧
      s'.memory = (s.memory.add { outer := some outer, limit := scope.limit }).2 := by
  have henclose : s.memory.enclose outer =
      s.memory.add { outer := some outer, limit := scope.limit } := by
    rw [Memory.enclose, houter]
  have hrun : Run.openScope outer s =
      (.value (s.memory.enclose outer).1, { s with memory := (s.memory.enclose outer).2 }) := rfl
  rw [hrun, henclose] at h
  cases h
  exact ⟨rfl, rfl, rfl, rfl, rfl⟩

/-- The value of a call: that of a return in its body, or else that of the body. -/
theorem within_eq_value {c : Closure} {x : Run Value}
    (h : Run.within c (Run.catchReturn x) s = (.value v, s')) :
    ∃ after, (x (s.enter c) = (.value v, after) ∨ x (s.enter c) = (.returned v, after)) ∧
      s' = after.leave s.chunk := by
  unfold Run.within Run.catchReturn at h
  rcases hresult : x (s.enter c) with ⟨a | a | d | _, after⟩
  all_goals
    simp only [hresult] at h
    cases h
  · exact ⟨after, .inl rfl, rfl⟩
  · exact ⟨after, .inr rfl, rfl⟩

end

end Run

namespace Eval

open Run (Settles)

/-- Expressions and calls never end in a return. -/
structure EvalSettles (fuel : Nat) : Prop where
  expr (e : Expr) (scope : ScopeId) : Settles (expr fuel e scope)
  args (es : List Expr) (scope : ScopeId) : Settles (args fuel es scope)
  apply (f : Callable) (vs : List Value) (pos : Int) : Settles (apply fuel f vs pos)

theorem bindParams_settles (scope : ScopeId) (pos : Int) (names : List Text) (vs : List Value) :
    Settles (bindParams scope pos names vs) := by
  induction names generalizing vs with
  | nil => exact .pure ()
  | cons name names ih =>
      cases vs with
      | nil => exact .pure ()
      | cons v vs => exact .bind (.declareName scope name v pos) fun _ => ih vs

theorem native_settles (n : Native) (vs : List Value) : Settles (native n vs) := by
  unfold native
  split
  · exact .bind (.write _) fun _ => .pure _
  · exact .bind (.write _) fun _ => .pure _
  · exact .pure _

theorem evalSettles (fuel : Nat) : EvalSettles fuel := by
  induction fuel with
  | zero => exact ⟨fun _ _ => .exhausted, fun _ _ => .exhausted, fun _ _ _ => .exhausted⟩
  | succ fuel ih =>
      refine ⟨fun e scope => ?_, fun es scope => ?_, fun f vs pos => ?_⟩
      · cases e with
        | missing | num _ _ | str _ _ | bool _ _ => exact .pure _
        | ident pos name | symbol pos name => exact .getName scope name pos
        | group _ inner => exact ih.expr inner scope
        | assign pos name value =>
            refine .bind (ih.expr value scope) fun v => ?_
            exact .bind (.setName scope name v pos) fun _ => .pure v
        | unary pos op operand => exact .bind (ih.expr operand scope) fun v => .liftValue pos _
        | binary pos op left right =>
            refine .bind (ih.expr left scope) fun l => ?_
            exact .bind (ih.expr right scope) fun r => .liftValue pos _
        | call pos callee arguments =>
            refine .bind (ih.expr callee scope) fun f => ?_
            refine .bind (ih.args arguments scope) fun vs => ?_
            cases f with
            | num _ | str _ | bool _ => exact .raise _ pos
            | fxn f =>
                simp only
                split
                · split
                  · exact ih.apply f vs pos
                  · exact .raise _ pos
                · exact ih.apply f vs pos
      · cases es with
        | nil => exact .pure []
        | cons e es =>
            refine .bind (ih.expr e scope) fun v => ?_
            exact .bind (ih.args es scope) fun vs => .pure (v :: vs)
      · cases f with
        | unassigned => exact .pure _
        | native n => exact native_settles n vs
        | custom c =>
            refine .bind (.guardCalls pos) fun _ => ?_
            refine .bind (.openScope c.scope) fun scope => ?_
            exact .bind (bindParams_settles scope pos c.params vs) fun _ => .within c _

/-- The session after the parameters of a call are bound. -/
theorem bindParams_eq_value {s s' : Session} {names : List Text} {vs : List Value} {id : ScopeId}
    {pos : Int} {u : Unit} (h : bindParams id pos names vs s = (.value u, s')) :
    s'.globals = s.globals ∧ s'.options = s.options ∧ s'.output = s.output ∧
      s'.memory.scopes.size = s.memory.scopes.size ∧
      (∀ id' ≠ id, s'.memory.scope? id' = s.memory.scope? id') ∧
      ∀ scope, s.memory.scope? id = some scope → s'.memory.scope? id =
        some { scope with bindings := (names.zip vs).reverse ++ scope.bindings } := by
  induction names generalizing vs s with
  | nil =>
      cases h
      exact ⟨rfl, rfl, rfl, rfl, fun _ _ => rfl, fun scope hscope => by simpa using hscope⟩
  | cons name names ih =>
      cases vs with
      | nil =>
          cases h
          exact ⟨rfl, rfl, rfl, rfl, fun _ _ => rfl, fun scope hscope => by simpa using hscope⟩
      | cons w vs =>
          obtain ⟨_, s₁, hdeclare, hrest⟩ := Run.bind_eq_value h
          obtain rfl := Run.declareName_eq_value hdeclare
          obtain ⟨hglobals, hoptions, houtput, hsize, hother, hself⟩ := ih hrest
          have hsize' : (s.memory.bind id name w).scopes.size = s.memory.scopes.size := by
            simp [Memory.bind, Memory.update]
          refine ⟨hglobals, hoptions, houtput, hsize.trans hsize', ?_, ?_⟩
          · intro id' hne
            rw [hother id' hne]
            show (s.memory.update id _).scope? id' = _
            rw [Memory.scope?_update, if_neg (Ne.symm hne)]
          · intro scope hscope
            rw [hself (scope.bind name w)]
            · simp [Scope.bind]
            · show (s.memory.update id _).scope? id = _
              rw [Memory.scope?_update, if_pos rfl, hscope]
              rfl

end Eval

end Badger
