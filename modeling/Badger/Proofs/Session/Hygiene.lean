import Badger.Proofs.Scope.Binding
import Badger.Proofs.Session.Move

/-!
# Scope hygiene

A scope declares what is declared in it and nothing else: running a statement leaves the names of
every other scope alone, and evaluating an expression leaves the names of every scope alone.

## Main statements

* `Session.Move.names_eq`, `Session.Later.names_eq`: moves leave the names alone of a scope in
  which they may not declare any
* `Session.declared_names_unchanged`: scope hygiene of statements, blocks and expressions
-/

namespace Badger.Session

theorem Move.names_eq {own : Set ScopeId} {s s' : Session} (h : Move own s s') {id : ScopeId}
    (hid : id < s.memory.scopes.size) (hown : id ∉ own) :
    s'.memory.names id = s.memory.names id := by
  cases h with
  | opened outer => exact Memory.names_enclose outer hid
  | declared v hdeclared _ =>
      refine Memory.names_bind ?_ _ v
      rintro rfl
      exact hown hdeclared
  | assigned _ => exact s.memory.names_rebind _ _ _ _
  | reset => exact Memory.names_add _ hid
  | wrote | entered | left | activated => rfl

theorem Later.names_eq {own : Set ScopeId} {s s' : Session} (h : Later own s s') {id : ScopeId}
    (hid : id < s.memory.scopes.size) (hown : id ∉ own) :
    s'.memory.names id = s.memory.names id := by
  induction h with
  | refl => rfl
  | tail hlater hmove ih =>
      rw [hmove.names_eq (hid.trans_le (size_le hlater)) hown, ih]

end Badger.Session

namespace Badger

open Session

/-- A confined part of a program leaves alone the names of every scope that it finds, if it is
not one of its own. -/
theorem Run.Confined.names_eq {α : Type} {own : Set ScopeId} {x : Run α} (h : Run.Confined own x)
    (s : Session) {id : ScopeId} (hid : id < s.memory.scopes.size) (hown : id ∉ own) :
    (x s).2.memory.names id = s.memory.names id :=
  (h s).later.names_eq hid (fun hmem => hmem.elim hown fun hle => absurd hid (Nat.not_lt.mpr hle))

/-- A statement in braces is confined to the scope that it opens. -/
theorem block_confined_empty (fuel : Nat) (pos : Int) (body : List Stmt) (scope : ScopeId) :
    Run.Confined ∅ (Eval.stmt fuel (.block pos body) scope) := by
  cases fuel with
  | zero => exact .exhausted
  | succ fuel => exact .openScope scope fun inner => (Eval.evalConfined fuel).block body inner _

/-- **Scope hygiene.** However it ends, running a statement loses no scope and leaves alone the
names of every scope that existed before, other than the one it runs in; a statement in braces
leaves alone the names of that one too; and so does evaluating an expression, whatever functions
it calls. -/
theorem Session.declared_names_unchanged (fuel : Nat) (scope id : ScopeId) (s : Session)
    (hid : id < s.memory.scopes.size) :
    (∀ st : Stmt, id ≠ scope →
      id < (Eval.stmt fuel st scope s).2.memory.scopes.size ∧
      (Eval.stmt fuel st scope s).2.memory.names id = s.memory.names id) ∧
    (∀ (pos : Int) (body : List Stmt),
      id < (Eval.stmt fuel (.block pos body) scope s).2.memory.scopes.size ∧
      (Eval.stmt fuel (.block pos body) scope s).2.memory.names id = s.memory.names id) ∧
    ∀ e : Expr,
      id < (Eval.expr fuel e scope s).2.memory.scopes.size ∧
      (Eval.expr fuel e scope s).2.memory.names id = s.memory.names id := by
  refine ⟨fun st hne => ?_, fun pos body => ?_, fun e => ?_⟩
  · have hconfined := (Eval.evalConfined fuel).stmt st scope
    exact ⟨hid.trans_le (hconfined s).later.size_le, hconfined.names_eq s hid hne⟩
  · have hconfined := block_confined_empty fuel pos body scope
    exact ⟨hid.trans_le (hconfined s).later.size_le, hconfined.names_eq s hid (Set.notMem_empty _)⟩
  · have hconfined := (Eval.evalConfined fuel).expr e scope
    exact ⟨hid.trans_le (hconfined s).later.size_le, hconfined.names_eq s hid (Set.notMem_empty _)⟩

/-- A call that stops in the middle of binding its parameters, in a session with a function whose
parameters share a name, and a declaration after it. -/
theorem Session.declared_names_unchanged_call :
    let s := (new {}).after [.eval 20 (utf8 "a") (utf8 "fxn f(x, y, x) \x7b num z = x; \x7d")]
    let call := Expr.call 1 (.ident 0 (utf8 "f")) [.num 2 1, .num 4 2, .num 6 3]
    let called := (Eval.expr 20 call 0 s).2
    let declared := (Eval.stmt 20 (.declare 4 .num (utf8 "z") (.num 8 1)) 0 called).2
    (∃ d, (Eval.expr 20 call 0 s).1 = .failed d ∧ d.problem = .scope (.redeclared (utf8 "x"))) ∧
      called.memory.names 0 = s.memory.names 0 ∧
      1 < called.memory.scopes.size ∧ declared.memory.names 1 = called.memory.names 1 := by
  intro s call called declared
  refine ⟨⟨_, rfl, rfl⟩, ?_, by decide, ?_⟩
  · exact ((declared_names_unchanged 20 0 0 s (by decide)).2.2 call).2
  · exact ((declared_names_unchanged 20 0 1 called (by decide)).1 _ (by decide)).2

end Badger
