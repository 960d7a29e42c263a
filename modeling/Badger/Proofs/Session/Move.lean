import Badger.Session.Run
import Mathlib.Logic.Relation
import Mathlib.Order.Interval.Set.Basic

/-!
# What running does to a session

Everything that running a program does to a session is made of a few primitive changes: scopes
are opened, names are declared and assigned to, something is written, calls are entered and
left. This module says so once, for every part of a program and however it ends; what the
changes preserve is then preserved by every run.

## Main definitions

* `Session.Effect`: what a part of a program does to a session, with the scopes in which it may
  declare names
* `Session.Move`, `Session.Later`: the primitive changes one by one, and sequences of them
* `Run.followed`: what one part comes to if another follows
* `Run.Confined`: parts of a program that declare names only in some of the scopes they find
* `Session.Step`, `Session.after`: what is done with a session from outside

## Main statements

* `EvalConfined`, `evalConfined`: an expression declares nothing in a scope that it finds, a
  statement nothing in a scope that it finds other than its own
* `Run.bind_eq_value`, `Run.bind_eq_failed`: how two parts one after the other can end
* `Session.Effect.balanced`: active calls and active chunk are the same before and after
* `Session.later_after`: whatever is done with a session is a sequence of moves

## Design notes

An effect has the calls that it makes as parts, from entering to leaving, and so what holds
between them is there to be read off; a sequence of moves is flat, and every session on the way
is one of its members.

A part of a program may declare names in any scope that it opens itself. Since scopes are
numbered in the order in which they are opened, those are the scopes from some number on; a
sequence of two parts is confined like its parts because the number only grows.
-/

namespace Badger

namespace Session

/-- **The primitive moves** of a session. Names are declared only in the scopes `own`. -/
inductive Move (own : Set ScopeId) : Session → Session → Prop where
  | opened (s : Session) (outer : ScopeId) : Move own s (s.openScope outer).2
  | declared (s : Session) {id : ScopeId} {name : Text} (v : Value) (hown : id ∈ own)
      (h : s.memory.checkDeclare id name = .ok ()) :
      Move own s (s.updateMemory fun m => m.bind id name v)
  | assigned (s : Session) {id holder : ScopeId} {name : Text} {v : Value}
      (h : s.memory.checkSet id name v = .ok holder) :
      Move own s (s.updateMemory fun m => m.rebind holder name v)
  | wrote (s : Session) (w : Write) : Move own s (s.write w)
  | entered (s : Session) (c : Closure) : Move own s (s.enter c)
  | left (s : Session) (caller : Chunk) : Move own s (s.leave caller)
  | activated (s : Session) (c : Chunk) : Move own s (s.setChunk c)
  | reset (s : Session) : Move own s s.reset

/-- **Later sessions.** Those that moves lead to. -/
def Later (own : Set ScopeId) : Session → Session → Prop := Relation.ReflTransGen (Move own)

/-- **Effects.** What a part of a program does to a session. Names are declared only in the
scopes `own`. -/
inductive Effect (own : Set ScopeId) : Session → Session → Prop where
  | refl (s : Session) : Effect own s s
  | trans {s s' s'' : Session} (h : Effect own s s') (h' : Effect own s' s'') : Effect own s s''
  | opened (s : Session) (outer : ScopeId) : Effect own s (s.openScope outer).2
  | declared (s : Session) {id : ScopeId} {name : Text} (v : Value) (hown : id ∈ own)
      (h : s.memory.checkDeclare id name = .ok ()) :
      Effect own s (s.updateMemory fun m => m.bind id name v)
  | assigned (s : Session) {id holder : ScopeId} {name : Text} {v : Value}
      (h : s.memory.checkSet id name v = .ok holder) :
      Effect own s (s.updateMemory fun m => m.rebind holder name v)
  | wrote (s : Session) (w : Write) : Effect own s (s.write w)
  | called {s s' : Session} (c : Closure) (h : Effect own (s.enter c) s') :
      Effect own s (s'.leave s.chunk)

/-! ## Moves never lose a scope -/

theorem size_enclose (m : Memory) (outer : ScopeId) :
    (m.enclose outer).1 = m.scopes.size ∧ (m.enclose outer).2.scopes.size = m.scopes.size + 1 := by
  unfold Memory.enclose
  split
  · exact ⟨rfl, Array.size_push _⟩
  · exact ⟨rfl, Array.size_push _⟩

theorem Move.size_le {own : Set ScopeId} {s s' : Session} (h : Move own s s') :
    s.memory.scopes.size ≤ s'.memory.scopes.size := by
  cases h with
  | opened outer =>
      have hsize := (size_enclose s.memory outer).2
      show s.memory.scopes.size ≤ (s.memory.enclose outer).2.scopes.size
      omega
  | declared v hown h => exact (Array.size_modify ..).ge
  | assigned h => exact (Array.size_modify ..).ge
  | reset => exact (Nat.le_succ _).trans (Array.size_push _).ge
  | wrote | entered | left | activated => exact le_rfl

namespace Later

variable {own own' : Set ScopeId} {s s' s'' : Session}

theorem refl (s : Session) : Later own s s := Relation.ReflTransGen.refl

theorem of_move (h : Move own s s') : Later own s s' := Relation.ReflTransGen.single h

theorem trans (h : Later own s s') (h' : Later own s' s'') : Later own s s'' :=
  Relation.ReflTransGen.trans h h'

theorem size_le (h : Later own s s') : s.memory.scopes.size ≤ s'.memory.scopes.size := by
  induction h with
  | refl => exact le_rfl
  | tail _ hmove ih => exact ih.trans hmove.size_le

theorem univ (h : Later own s s') : Later Set.univ s s' := by
  refine Relation.ReflTransGen.mono ?_ _ _ h
  intro s s' hmove
  cases hmove with
  | opened outer => exact .opened s outer
  | declared v _ h => exact .declared s v (Set.mem_univ _) h
  | assigned h => exact .assigned s h
  | wrote w => exact .wrote s w
  | entered c => exact .entered s c
  | left caller => exact .left s caller
  | activated c => exact .activated s c
  | reset => exact .reset s

end Later

/-! ## Effects -/

namespace Effect

variable {own own' : Set ScopeId} {s s' : Session}

theorem mono (hsub : own ⊆ own') (h : Effect own s s') : Effect own' s s' := by
  induction h with
  | refl s => exact .refl s
  | trans _ _ ih ih' => exact .trans ih ih'
  | opened s outer => exact .opened s outer
  | declared s v hown h => exact .declared s v (hsub hown) h
  | assigned s h => exact .assigned s h
  | wrote s w => exact .wrote s w
  | called c _ ih => exact .called c ih

/-- An effect is a sequence of moves. -/
theorem later (h : Effect own s s') : Later own s s' := by
  induction h with
  | refl s => exact .refl s
  | trans _ _ ih ih' => exact .trans ih ih'
  | opened s outer => exact .of_move (.opened s outer)
  | declared s v hown h => exact .of_move (.declared s v hown h)
  | assigned s h => exact .of_move (.assigned s h)
  | wrote s w => exact .of_move (.wrote s w)
  | called c _ ih => exact .trans (.of_move (.entered _ c)) (.trans ih (.of_move (.left _ _)))

/-- **Effects are balanced.** A part of a program leaves the active calls and the active chunk as
it found them, and the options and the global scope too. -/
theorem balanced (h : Effect own s s') :
    s'.callStack = s.callStack ∧ s'.chunk = s.chunk ∧ s'.options = s.options ∧
      s'.globals = s.globals := by
  induction h with
  | refl | opened | declared | assigned | wrote => exact ⟨rfl, rfl, rfl, rfl⟩
  | trans _ _ ih ih' =>
      exact ⟨ih'.1.trans ih.1, ih'.2.1.trans ih.2.1, ih'.2.2.1.trans ih.2.2.1,
        ih'.2.2.2.trans ih.2.2.2⟩
  | @called s s' c _ ih =>
      refine ⟨?_, rfl, ih.2.2.1, ih.2.2.2⟩
      show s'.callStack.pop = s.callStack
      rw [ih.1]
      exact Array.pop_push

end Effect

end Session

/-! ## Parts one after the other -/

namespace Run

variable {α β γ : Type}

/-- What a part that ended in the given way comes to if `f` is to follow. -/
def followed (f : α → Run β) : Outcome α × Session → Outcome β × Session
  | (.value a, s) => f a s
  | (.returned v, s) => (.returned v, s)
  | (.failed d, s) => (.failed d, s)
  | (.outOfFuel, s) => (.outOfFuel, s)

theorem bind_apply (x : Run α) (f : α → Run β) (s : Session) :
    (x >>= f) s = followed f (x s) := rfl

theorem bind_value {x : Run α} {f : α → Run β} {s s' : Session} {a : α}
    (h : x s = (.value a, s')) : (x >>= f) s = f a s' := by
  rw [bind_apply, h, followed]

theorem bind_failed {x : Run α} {s s' : Session} {d : Diagnostic} (h : x s = (.failed d, s'))
    (f : α → Run β) : (x >>= f) s = (.failed d, s') := by
  rw [bind_apply, h, followed]

/-- A sequence of two parts has a value only if both have one. -/
theorem bind_eq_value {x : Run α} {f : α → Run β} {s s'' : Session} {b : β}
    (h : (x >>= f) s = (.value b, s'')) :
    ∃ a s', x s = (.value a, s') ∧ f a s' = (.value b, s'') := by
  rw [bind_apply] at h
  rcases hx : x s with ⟨a | v | d | _, s'⟩
  all_goals rw [hx, followed] at h
  · exact ⟨a, s', rfl, h⟩
  all_goals cases h

/-- **A sequence of two parts fails** if the first does, or if the second does after it. -/
theorem bind_eq_failed {x : Run α} {f : α → Run β} {s s'' : Session} {d : Diagnostic}
    (h : (x >>= f) s = (.failed d, s'')) :
    x s = (.failed d, s'') ∨ ∃ a s', x s = (.value a, s') ∧ f a s' = (.failed d, s'') := by
  rw [bind_apply] at h
  rcases hx : x s with ⟨a | v | d' | _, s'⟩
  all_goals rw [hx, followed] at h
  · exact .inr ⟨a, s', rfl, h⟩
  · cases h
  · cases h
    exact .inl rfl
  · cases h

theorem bind_assoc (x : Run α) (f : α → Run β) (g : β → Run γ) :
    (x >>= f) >>= g = x >>= fun a => f a >>= g := by
  funext s
  rw [bind_apply, bind_apply, bind_apply]
  rcases x s with ⟨a | v | d | _, s'⟩ <;> rfl

theorem pure_bind (a : α) (f : α → Run β) : (pure a : Run α) >>= f = f a := rfl

end Run

/-! ## Confined parts of a program -/

namespace Run

open Session

variable {α β : Type}

/-- **Confinement.** A part of a program that declares names only in the scopes `own` and in
those that it opens itself, wherever it starts and however it ends. -/
def Confined (own : Set ScopeId) (x : Run α) : Prop :=
  ∀ s : Session, Effect (own ∪ Set.Ici s.memory.scopes.size) s (x s).2

namespace Confined

variable {own own' : Set ScopeId}

theorem mono {x : Run α} (hsub : own ⊆ own') (h : Confined own x) : Confined own' x :=
  fun s => (h s).mono (Set.union_subset_union_left _ hsub)

/-- A part that leaves the session as it is. -/
theorem of_eq {x : Run α} (h : ∀ s, (x s).2 = s) : Confined own x := by
  intro s
  rw [h s]
  exact .refl s

theorem pure (a : α) : Confined own (Pure.pure a : Run α) := of_eq fun _ => rfl

/-- **One part after another** is confined like both. -/
theorem bind {x : Run α} {f : α → Run β} (hx : Confined own x) (hf : ∀ a, Confined own (f a)) :
    Confined own (x >>= f) := by
  intro s
  have hfirst := hx s
  rw [bind_apply]
  rcases hresult : x s with ⟨a | v | d | _, s'⟩
  all_goals rw [hresult] at hfirst
  · -- what the second part opens lies beyond what the first one found
    have hsize : Set.Ici s'.memory.scopes.size ⊆ Set.Ici s.memory.scopes.size :=
      fun _ hid => hfirst.later.size_le.trans hid
    exact hfirst.trans ((hf a s').mono (Set.union_subset_union_right _ hsize))
  · exact hfirst
  · exact hfirst
  · exact hfirst

/-- After a confined part the active calls and the active chunk are what they were before, and so
are the options. -/
theorem balanced {x : Run α} {s s' : Session} {r : Outcome α} (h : Confined own x)
    (hx : x s = (r, s')) :
    s'.callStack = s.callStack ∧ s'.chunk = s.chunk ∧ s'.options = s.options := by
  have hbalanced := (h s).balanced
  rw [hx] at hbalanced
  exact ⟨hbalanced.1, hbalanced.2.1, hbalanced.2.2.1⟩

/-- After a confined part the session is later. -/
theorem later {x : Run α} (h : Confined own x) (s : Session) : Later Set.univ s (x s).2 :=
  (h s).later.univ

theorem later_of_eq {x : Run α} {s s' : Session} {r : Outcome α} (h : Confined own x)
    (hx : x s = (r, s')) : Later Set.univ s s' := by
  have hlater := h.later s
  rwa [hx] at hlater

theorem ite {p : Prop} [Decidable p] {x y : Run α} (hx : Confined own x)
    (hy : Confined own y) : Confined own (if p then x else y) := by
  split
  · exact hx
  · exact hy

theorem exhausted : Confined own (Run.exhausted : Run α) := of_eq fun _ => rfl

theorem returns (v : Value) : Confined own (Run.returns v : Run α) := of_eq fun _ => rfl

theorem raise (p : Problem) (pos : Int) : Confined own (Run.raise p pos : Run α) :=
  of_eq fun _ => rfl

theorem liftValue (pos : Int) (r : Except Problem Value) : Confined own (Run.liftValue pos r) := by
  cases r with
  | ok v => exact .pure v
  | error p => exact .raise p pos

theorem getName (scope : ScopeId) (name : Text) (pos : Int) :
    Confined own (Run.getName scope name pos) := by
  refine of_eq fun s => ?_
  unfold Run.getName
  split <;> rfl

theorem guardCalls (pos : Int) : Confined own (Run.guardCalls pos) := by
  refine of_eq fun s => ?_
  unfold Run.guardCalls
  split <;> rfl

theorem setName (scope : ScopeId) (name : Text) (v : Value) (pos : Int) :
    Confined own (Run.setName scope name v pos) := by
  intro s
  unfold Run.setName
  split
  · next holder h => exact .assigned s h
  · exact .refl s

/-- Declaring a name is confined to its scope. -/
theorem declareName {scope : ScopeId} (hown : scope ∈ own) (name : Text) (v : Value)
    (pos : Int) : Confined own (Run.declareName scope name v pos) := by
  intro s
  unfold Run.declareName
  split
  · next h => exact .declared s v (.inl hown) h
  · exact .refl s

/-- **A new scope** belongs to the part that opens it. -/
theorem openScope (outer : ScopeId) {f : ScopeId → Run β}
    (hf : ∀ inner, Confined {inner} (f inner)) :
    Confined own (Run.openScope outer >>= f) := by
  intro s
  show Effect _ s (f (s.openScope outer).1 (s.openScope outer).2).2
  have hsize := size_enclose s.memory outer
  refine Effect.trans (.opened s outer) ((hf _ _).mono ?_)
  rintro id (hid | hid)
  · have hinner : id = s.memory.scopes.size := hid.trans hsize.1
    exact .inr hinner.ge
  · have hbeyond : s.memory.scopes.size + 1 ≤ id := hsize.2 ▸ hid
    exact .inr (Nat.le_of_succ_le hbeyond)

theorem write (w : Write) : Confined own (Run.write w) :=
  fun s => .wrote s w

theorem echo (v : Value) : Confined own (Run.echo v) := by
  intro s
  unfold Run.echo
  split
  · exact .wrote s _
  · exact .refl s

theorem catchReturn {x : Run Value} (hx : Confined own x) : Confined own (Run.catchReturn x) := by
  intro s
  have hbody := hx s
  unfold Run.catchReturn
  split
  · next v s' hresult =>
    rw [hresult] at hbody
    exact hbody
  · exact hbody

theorem within {c : Closure} {x : Run Value} (hx : Confined own x) :
    Confined own (Run.within c x) :=
  fun s => .called c (hx (s.enter c))

end Confined

end Run

/-! ## Evaluation -/

namespace Eval

open Session Run

theorem native_confined {own : Set ScopeId} (n : Native) (vs : List Value) :
    Confined own (native n vs) := by
  unfold native
  split
  · exact .bind (.write _) fun _ => .pure _
  · exact .bind (.write _) fun _ => .pure _
  · exact .pure _

theorem bindParams_confined {own : Set ScopeId} {scope : ScopeId} (hown : scope ∈ own)
    (pos : Int) (names : List Text) (vs : List Value) :
    Confined own (bindParams scope pos names vs) := by
  induction names generalizing vs with
  | nil => exact .pure ()
  | cons name names ih =>
      cases vs with
      | nil => exact .pure ()
      | cons v vs => exact .bind (.declareName hown name v pos) fun _ => ih vs

/-- **Confinement of evaluation** within a budget. -/
structure EvalConfined (fuel : Nat) : Prop where
  expr (e : Expr) (scope : ScopeId) : Confined ∅ (expr fuel e scope)
  args (es : List Expr) (scope : ScopeId) : Confined ∅ (args fuel es scope)
  apply (f : Callable) (vs : List Value) (pos : Int) : Confined ∅ (apply fuel f vs pos)
  stmt (st : Stmt) (scope : ScopeId) : Confined {scope} (stmt fuel st scope)
  block (ss : List Stmt) (scope : ScopeId) (last : Value) :
    Confined {scope} (block fuel ss scope last)
  loop (cond : Expr) (body : Stmt) (scope : ScopeId) (last : Value) :
    Confined {scope} (loop fuel cond body scope last)

private theorem expr_confined {fuel : Nat} (ih : EvalConfined fuel) (e : Expr)
    (scope : ScopeId) : Confined ∅ (expr (fuel + 1) e scope) := by
  cases e with
  | missing | num _ _ | str _ _ | bool _ _ => exact .pure _
  | ident pos name | symbol pos name => exact .getName scope name pos
  | group _ inner => exact ih.expr inner scope
  | assign pos name value =>
      refine .bind (ih.expr value scope) fun v => ?_
      exact .bind (.setName scope name v pos) fun _ => .pure v
  | unary pos op operand => exact .bind (ih.expr operand scope) fun v => .liftValue pos _
  | binary pos op left right =>
      refine .bind (ih.expr left scope) fun l => ?_
      exact .bind (ih.expr right scope) fun r => .liftValue pos _
  | call pos callee arguments =>
      refine .bind (ih.expr callee scope) fun f => ?_
      refine .bind (ih.args arguments scope) fun vs => ?_
      cases f with
      | fxn f =>
          cases hn : f.arity? with
          | some n =>
              simp only [hn]
              exact .ite (ih.apply f vs pos) (.raise _ pos)
          | none =>
              simp only [hn]
              exact ih.apply f vs pos
      | num _ | str _ | bool _ => exact .raise _ pos

private theorem args_confined {fuel : Nat} (ih : EvalConfined fuel) (es : List Expr)
    (scope : ScopeId) : Confined ∅ (args (fuel + 1) es scope) := by
  cases es with
  | nil => exact .pure []
  | cons e es =>
      refine .bind (ih.expr e scope) fun v => ?_
      exact .bind (ih.args es scope) fun vs => .pure (v :: vs)

private theorem apply_confined {fuel : Nat} (ih : EvalConfined fuel) (f : Callable)
    (vs : List Value) (pos : Int) : Confined ∅ (apply (fuel + 1) f vs pos) := by
  cases f with
  | unassigned => exact .pure _
  | native n => exact native_confined n vs
  | custom c =>
      refine .bind (.guardCalls pos) fun _ => .openScope c.scope fun scope => ?_
      refine .bind (bindParams_confined (Set.mem_singleton scope) pos c.params vs) fun _ => ?_
      exact .within (.catchReturn (ih.block c.body scope _))

private theorem stmt_confined {fuel : Nat} (ih : EvalConfined fuel) (st : Stmt)
    (scope : ScopeId) : Confined {scope} (stmt (fuel + 1) st scope) := by
  have hexpr (e : Expr) : Confined {scope} (expr fuel e scope) :=
    (ih.expr e scope).mono (Set.empty_subset _)
  have hown : scope ∈ ({scope} : Set ScopeId) := Set.mem_singleton scope
  cases st with
  | missing => exact .pure _
  | expr _ e => exact hexpr e
  | ret _ value =>
      refine .bind (hexpr value) fun v => ?_
      exact .bind (.echo v) fun _ => .returns v
  | block _ body => exact .openScope scope fun inner => ih.block body inner _
  | declare pos type name init =>
      refine .bind (hexpr init) fun v => .ite ?_ (.raise _ pos)
      exact .bind (.declareName hown name v pos) fun _ => .pure _
  | ifThen _ cond yes => exact .bind (hexpr cond) fun c => .ite (ih.stmt yes scope) (.pure _)
  | ifElse _ cond yes no =>
      exact .bind (hexpr cond) fun c => .ite (ih.stmt yes scope) (ih.stmt no scope)
  | loop _ cond body => exact ih.loop cond body scope _
  | fxn pos name params body =>
      refine .bind (.of_eq fun _ => rfl) fun chunk => ?_
      exact .bind (.declareName hown name _ pos) fun _ => .pure _

private theorem block_confined {fuel : Nat} (ih : EvalConfined fuel) (ss : List Stmt)
    (scope : ScopeId) (last : Value) : Confined {scope} (block (fuel + 1) ss scope last) := by
  cases ss with
  | nil => exact .pure last
  | cons st rest =>
      rw [block]
      refine .ite (ih.block rest scope last) ?_
      exact .bind (ih.stmt st scope) fun v => ih.block rest scope v

private theorem loop_confined {fuel : Nat} (ih : EvalConfined fuel) (cond : Expr) (body : Stmt)
    (scope : ScopeId) (last : Value) :
    Confined {scope} (loop (fuel + 1) cond body scope last) := by
  rw [loop]
  refine .bind ((ih.expr cond scope).mono (Set.empty_subset _)) fun c => .ite ?_ (.pure last)
  exact .bind (ih.stmt body scope) fun v => ih.loop cond body scope v

/-- **Evaluation is confined**: an expression declares no name in a scope that it finds, and a
statement none in a scope that it finds other than its own. -/
theorem evalConfined (fuel : Nat) : EvalConfined fuel := by
  induction fuel with
  | zero =>
      exact ⟨fun _ _ => .exhausted, fun _ _ => .exhausted, fun _ _ _ => .exhausted,
        fun _ _ => .exhausted, fun _ _ _ => .exhausted, fun _ _ _ _ => .exhausted⟩
  | succ fuel ih =>
      exact ⟨expr_confined ih, args_confined ih, apply_confined ih, stmt_confined ih,
        block_confined ih, loop_confined ih⟩

end Eval

/-! ## What is done with a session -/

namespace Session

/-- **What can be done with a session**: a text is evaluated under the name of a file, statements
are run, or every declaration is forgotten. -/
inductive Step where
  | eval (fuel : Nat) (file text : Text)
  | run (fuel : Nat) (stmts : List Stmt)
  | reset

/-- The session after a step, whatever the answer was. -/
def step (s : Session) : Step → Session
  | .eval fuel file text => (s.eval fuel file text).2
  | .run fuel stmts => (s.runProgram fuel stmts).2
  | .reset => s.reset

/-- The session after some steps. -/
def after (s : Session) (steps : List Step) : Session := steps.foldl step s

@[simp] theorem after_nil (s : Session) : s.after [] = s := rfl

@[simp] theorem after_cons (s : Session) (step : Step) (steps : List Step) :
    s.after (step :: steps) = (s.step step).after steps := rfl

theorem after_append (s : Session) (steps steps' : List Step) :
    s.after (steps ++ steps') = (s.after steps).after steps' := List.foldl_append

theorem later_runProgram (fuel : Nat) (s : Session) (stmts : List Stmt) :
    Later Set.univ s (s.runProgram fuel stmts).2 :=
  ((Eval.evalConfined fuel).block stmts s.globals .empty s).later.univ

theorem later_eval (fuel : Nat) (s : Session) (file text : Text) :
    Later Set.univ s (s.eval fuel file text).2 := by
  unfold eval
  split
  · exact .refl s
  · exact .trans (.of_move (.activated s _)) (later_runProgram fuel _ _)

theorem later_step (s : Session) (step : Step) : Later Set.univ s (s.step step) := by
  cases step with
  | eval fuel file text => exact later_eval fuel s file text
  | run fuel stmts => exact later_runProgram fuel s stmts
  | reset => exact .of_move (.reset s)

/-- **Whatever is done with a session is a sequence of moves.** -/
theorem later_after (s : Session) (steps : List Step) : Later Set.univ s (s.after steps) := by
  induction steps generalizing s with
  | nil => exact .refl s
  | cons step steps ih => exact (later_step s step).trans (ih _)

end Session

end Badger
