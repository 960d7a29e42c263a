import Badger.Proofs.Session.Moment
import Badger.Proofs.Session.Variant

/-!
# Evaluation in variants of a session

Run in a variant of a session, a program does the same, step for step, unless the original runs
into one of its limits.

## Main definitions

* `Run.Grows`: parts of a program that add to what was written
* `Variant.Follows`: a part of a program does in every variant what another part does in the
  original

## Main statements

* `EvalFollows`, `evalFollows`: evaluation in a variant follows evaluation in the original

## Design notes

Where a wider limit lets the variant go on, nothing is known of it but what it had written so far,
and that nothing written is taken back. The rest of the program therefore has to grow the output,
whatever it is handed; `Run.Grows` is a class so that this is found for every rest.
-/

namespace Badger

/-- Whether a problem is that a limit is reached: too many active calls, or too many scopes around
the one in which a search for a name starts. -/
def Problem.isLimit (p : Problem) : Bool :=
  p = .callDepth || p.category? = some .depthExceeded

/-! ## Parts that add to the output -/

namespace Session

theorem Effect.writes_grow {own : Set ScopeId} {s s' : Session} (h : Effect own s s') :
    s.writes.toList <+: s'.writes.toList := by
  induction h with
  | refl | opened | declared | assigned => exact List.prefix_rfl
  | trans _ _ ih ih' => exact ih.trans ih'
  | wrote s w => exact ⟨[w], (Array.toList_push).symm⟩
  | called c _ ih => exact ih

end Session

namespace Run

variable {α β : Type}

/-- **Growth.** A part of a program takes back nothing that was written. -/
class Grows (x : Run α) : Prop where
  writes_grow : ∀ s, s.writes.toList <+: (x s).2.writes.toList

theorem Confined.grows {own : Set ScopeId} {x : Run α} (h : Confined own x) : Grows x :=
  ⟨fun s => (h s).writes_grow⟩

instance (a : α) : Grows (pure a : Run α) := (Confined.pure a : Confined ∅ _).grows

instance (v : Value) : Grows (Run.returns v : Run α) := (Confined.returns v : Confined ∅ _).grows

instance (p : Problem) (pos : Int) : Grows (Run.raise p pos : Run α) :=
  (Confined.raise p pos : Confined ∅ _).grows

instance (pos : Int) (r : Except Problem Value) : Grows (Run.liftValue pos r) :=
  (Confined.liftValue pos r : Confined ∅ _).grows

instance (scope : ScopeId) (name : Text) (v : Value) (pos : Int) :
    Grows (Run.setName scope name v pos) := (Confined.setName scope name v pos : Confined ∅ _).grows

instance (scope : ScopeId) (name : Text) (v : Value) (pos : Int) :
    Grows (Run.declareName scope name v pos) :=
  (Confined.declareName (Set.mem_singleton scope) name v pos).grows

instance (v : Value) : Grows (Run.echo v) := (Confined.echo v : Confined ∅ _).grows

instance (scope : ScopeId) (name : Text) (pos : Int) : Grows (Run.getName scope name pos) :=
  (Confined.getName scope name pos : Confined ∅ _).grows

instance (pos : Int) : Grows (Run.guardCalls pos) := (Confined.guardCalls pos : Confined ∅ _).grows

instance (outer : ScopeId) : Grows (Run.openScope outer) := ⟨fun _ => List.prefix_rfl⟩

theorem Grows.followed {f : α → Run β} [∀ a, Grows (f a)] (r : Outcome α × Session) :
    r.2.writes.toList <+: (followed f r).2.writes.toList := by
  rcases r with ⟨a | v | d | _, s⟩
  · exact writes_grow (x := f a) s
  all_goals exact List.prefix_rfl

instance {x : Run α} {f : α → Run β} [Grows x] [∀ a, Grows (f a)] : Grows (x >>= f) :=
  ⟨fun s => (Grows.writes_grow s).trans (Grows.followed (x s))⟩

instance {p : Prop} [Decidable p] {x y : Run α} [Grows x] [Grows y] :
    Grows (if p then x else y) := by
  split <;> infer_instance

end Run

namespace Eval

open Run (Grows)

variable (fuel : Nat) (scope : ScopeId)

instance (e : Expr) : Grows (expr fuel e scope) := ((evalConfined fuel).expr e scope).grows

instance (es : List Expr) : Grows (args fuel es scope) := ((evalConfined fuel).args es scope).grows

instance (st : Stmt) : Grows (stmt fuel st scope) := ((evalConfined fuel).stmt st scope).grows

instance (ss : List Stmt) (last : Value) : Grows (block fuel ss scope last) :=
  ((evalConfined fuel).block ss scope last).grows

instance (cond : Expr) (body : Stmt) (last : Value) : Grows (loop fuel cond body scope last) :=
  ((evalConfined fuel).loop cond body scope last).grows

instance (pos : Int) (names : List Text) (vs : List Value) :
    Grows (bindParams scope pos names vs) :=
  (bindParams_confined (Set.mem_singleton scope) pos names vs).grows

instance (c : Closure) (ss : List Stmt) (last : Value) :
    Grows (Run.within c (Run.catchReturn (block fuel ss scope last))) :=
  (Run.Confined.within (.catchReturn ((evalConfined fuel).block ss scope last))).grows

instance (f : Value) (vs : List Value) (pos : Int) : Grows (invoke fuel f vs pos) := by
  rcases invoke_cases fuel f vs pos with ⟨p, hp, -⟩ | ⟨g, -, hg, -⟩
  · rw [hp]
    infer_instance
  · rw [hg]
    exact ((evalConfined fuel).apply g vs pos).grows

end Eval

/-! ## Parts of a program -/

namespace Variant

open Run (Grows)

variable {α β γ δ : Type} (V : Variant)

/-- The outcome in the variant, given what becomes of values. -/
def outcome (g : α → β) : Outcome α → Outcome β
  | .value a => .value (g a)
  | .returned v => .returned (V.value v)
  | .failed d => .failed (V.diagnostic d)
  | .outOfFuel => .outOfFuel

/-- **A run that is cut short**: it runs into a limit where the variant, which may have a wider one,
goes on to the session `t`. -/
structure Cut (r : Outcome α × Session) (t : Session) : Prop where
  wider : V.wider = true
  failed : ∃ d, r.1 = .failed d ∧ d.problem.isLimit = true
  writes_grow : V.writes r.2.writes.toList <+: t.writes.toList

/-- **How a run ends in the variant**: alike, unless the original is cut short. -/
inductive Ends (g : α → β) (r : Outcome α × Session) (r' : Outcome β × Session) : Prop where
  | alike (houtcome : r'.1 = V.outcome g r.1) (hstep : V.InStep r.2 r'.2)
  | cut (hcut : V.Cut r r'.2)

/-- **Following.** What `x` does in a session, `y` does in every variant of it. -/
def Follows (g : α → β) (x : Run α) (y : Run β) : Prop :=
  ∀ s s' : Session, V.InStep s s' → V.Ends g (x s) (y s')

variable {V}

theorem Cut.followed {r : Outcome α × Session} {r' : Outcome β × Session} (h : V.Cut r r'.2)
    (f : α → Run γ) (f' : β → Run δ) [∀ b, Grows (f' b)] :
    V.Cut (Run.followed f r) (Run.followed f' r').2 := by
  obtain ⟨outcome, s⟩ := r
  obtain ⟨d, rfl, hd⟩ := h.failed
  exact ⟨h.wider, ⟨d, rfl, hd⟩, h.writes_grow.trans (Grows.followed r')⟩

/-- A part that fails because of a limit is cut short, whatever the variant does instead. -/
theorem InStep.cut {s s' : Session} (hs : V.InStep s s') (hwider : V.wider = true) {p : Problem}
    (hp : p.isLimit = true) (pos : Int) (y : Run β) [Grows y] :
    V.Cut ((.failed (s.diagnose p pos), s) : Outcome α × Session) (y s').2 := by
  refine ⟨hwider, ⟨_, rfl, hp⟩, ?_⟩
  rw [← hs.writes_eq]
  exact Grows.writes_grow s'

namespace Follows

variable {g : α → β} {h : γ → δ}

/-- **One part after another.** The second one matters only for values that the first one can
have. -/
theorem bind_of_value {x : Run α} {y : Run β} {f : α → Run γ} {f' : β → Run δ}
    [∀ b, Grows (f' b)] (hx : V.Follows g x y)
    (hf : ∀ a s t, x s = (.value a, t) → V.Follows h (f a) (f' (g a))) :
    V.Follows h (x >>= f) (y >>= f') := by
  intro s s' hs
  rw [Run.bind_apply, Run.bind_apply]
  have hends := hx s s' hs
  generalize y s' = r' at hends ⊢
  rcases hends with ⟨houtcome, hstep⟩ | hcut
  · obtain ⟨outcome', t'⟩ := r'
    rcases hresult : x s with ⟨a | v | d | _, t⟩
    all_goals
      rw [hresult] at houtcome hstep
      cases houtcome
    · exact hf a s t hresult t t' hstep
    all_goals exact .alike rfl hstep
  · exact .cut (hcut.followed f f')

theorem bind {x : Run α} {y : Run β} {f : α → Run γ} {f' : β → Run δ} [∀ b, Grows (f' b)]
    (hx : V.Follows g x y) (hf : ∀ a, V.Follows h (f a) (f' (g a))) :
    V.Follows h (x >>= f) (y >>= f') :=
  bind_of_value hx fun a _ _ _ => hf a

theorem ite {p q : Prop} [Decidable p] [Decidable q] (hpq : q ↔ p) {x x' : Run α} {y y' : Run β}
    (hyes : V.Follows g x y) (hno : V.Follows g x' y') :
    V.Follows g (if p then x else x') (if q then y else y') := by
  by_cases hp : p
  · rw [if_pos hp, if_pos (hpq.mpr hp)]
    exact hyes
  · rw [if_neg hp, if_neg (hpq.not.mpr hp)]
    exact hno

theorem pure (a : α) : V.Follows g (Pure.pure a) (Pure.pure (g a)) := fun _ _ hs => .alike rfl hs

theorem exhausted : V.Follows g Run.exhausted Run.exhausted := fun _ _ hs => .alike rfl hs

theorem returns (v : Value) : V.Follows g (Run.returns v) (Run.returns (V.value v)) :=
  fun _ _ hs => .alike rfl hs

theorem raise (p : Problem) (pos : Int) :
    V.Follows g (Run.raise p pos) (Run.raise p (V.pos pos)) :=
  fun _ _ hs => .alike (congrArg Outcome.failed (hs.diagnose_eq p pos)) hs

theorem liftValue (pos : Int) {r r' : Except Problem Value} (hr : r' = r.map V.value) :
    V.Follows V.value (Run.liftValue pos r) (Run.liftValue (V.pos pos) r') := by
  subst hr
  cases r with
  | ok v => exact .pure v
  | error p => exact .raise p pos

theorem getName (scope : ScopeId) (name : Text) (pos : Int) :
    V.Follows V.value (Run.getName scope name pos)
      (Run.getName (V.scope scope) name (V.pos pos)) := by
  intro s s' hs
  rcases hs.memory.get scope name with hget | ⟨hwider, hget⟩
  · unfold Run.getName
    rw [hget]
    cases s.memory.get scope name with
    | ok v => exact .alike rfl hs
    | error p => exact .alike (congrArg Outcome.failed (hs.diagnose_eq _ pos)) hs
  · rw [Run.getName, hget]
    exact .cut (hs.cut hwider rfl pos _)

theorem setName (scope : ScopeId) (name : Text) (v : Value) (pos : Int) :
    V.Follows id (Run.setName scope name v pos)
      (Run.setName (V.scope scope) name (V.value v) (V.pos pos)) := by
  intro s s' hs
  rcases hs.memory.checkSet scope name v with hset | ⟨hwider, hset⟩
  · unfold Run.setName
    rw [hset]
    cases s.memory.checkSet scope name v with
    | ok holder => exact .alike rfl (hs.rebind holder name v)
    | error p => exact .alike (congrArg Outcome.failed (hs.diagnose_eq _ pos)) hs
  · rw [Run.setName, hset]
    exact .cut (hs.cut hwider rfl pos _)

theorem declareName (scope : ScopeId) (name : Text) (v : Value) (pos : Int) :
    V.Follows id (Run.declareName scope name v pos)
      (Run.declareName (V.scope scope) name (V.value v) (V.pos pos)) := by
  intro s s' hs
  unfold Run.declareName
  rw [hs.memory.checkDeclare scope name]
  cases s.memory.checkDeclare scope name with
  | ok _ => exact .alike rfl (hs.bind scope name v)
  | error p => exact .alike (congrArg Outcome.failed (hs.diagnose_eq _ pos)) hs

theorem openScope (outer : ScopeId) :
    V.Follows V.scope (Run.openScope outer) (Run.openScope (V.scope outer)) := by
  intro s s' hs
  obtain ⟨hid, hmemory⟩ := hs.memory.enclose outer
  exact .alike (congrArg Outcome.value hid)
    ⟨{ hs.toOfSession with memory := hmemory }, hs.chunk_eq⟩

/-- A call that finds no place in the original may find one in the variant. -/
theorem guardCalls (pos : Int) :
    V.Follows id (Run.guardCalls pos) (Run.guardCalls (V.pos pos)) := by
  intro s s' hs
  rcases hs.callDepth with hdepth | ⟨hwider, hdepth⟩
  · unfold Run.guardCalls
    rw [hdepth, hs.callStack_eq, hs.diagnose_eq]
    split
    · exact .alike rfl hs
    · exact .alike rfl hs
  · rw [Run.guardCalls]
    split
    · exact .cut (hs.cut hwider rfl pos _)
    · next hroom =>
      have hroom' : ¬s'.options.callDepth ≤ s'.callStack.size := by
        rw [hs.callStack_eq]
        omega
      rw [Run.guardCalls, if_neg hroom']
      exact .alike rfl hs

theorem print (t : Text) :
    V.Follows id (Run.write (.printed t)) (Run.write (.printed t)) :=
  fun _ _ hs => .alike rfl (hs.write rfl)

theorem echo (v : Value) : V.Follows id (Run.echo v) (Run.echo (V.value v)) := by
  intro s s' hs
  unfold Run.echo
  rw [V.recast.text_value, hs.echo_eq]
  cases s.options.echoReturns with
  | false => exact .alike rfl hs
  | true =>
      cases hmuted : V.muted with
      | false => exact .alike rfl (hs.write (by rw [shows, hmuted]; rfl))
      | true => exact .alike rfl (hs.write_left (by rw [shows, hmuted]; rfl))

theorem activeChunk : V.Follows V.chunk Run.activeChunk Run.activeChunk :=
  fun _ _ hs => .alike (congrArg Outcome.value hs.chunk_eq) hs

theorem catchReturn {x y : Run Value} (hx : V.Follows V.value x y) :
    V.Follows V.value (Run.catchReturn x) (Run.catchReturn y) := by
  intro s s' hs
  unfold Run.catchReturn
  have hends := hx s s' hs
  generalize x s = r, y s' = r' at hends ⊢
  obtain ⟨outcome, t⟩ := r
  obtain ⟨outcome', t'⟩ := r'
  rcases hends with ⟨houtcome, hstep⟩ | ⟨hwider, ⟨d, hd, hlimit⟩, hwritten⟩
  · cases houtcome
    cases outcome <;> exact .alike rfl hstep
  · cases hd
    refine .cut ⟨hwider, ⟨d, rfl, hlimit⟩, ?_⟩
    cases outcome' <;> exact hwritten

theorem within (c : Closure) {x y : Run Value} (hx : V.Follows V.value x y) :
    V.Follows V.value (Run.within c x) (Run.within (V.recast.closure c) y) := by
  intro s s' hs
  unfold Run.within
  rw [hs.chunk_eq]
  rcases hx _ _ (hs.enter c) with ⟨houtcome, hstep⟩ | hcut
  · exact .alike houtcome (hstep.leave s.chunk)
  · exact .cut ⟨hcut.wider, hcut.failed, hcut.writes_grow⟩

end Follows

end Variant

/-! ## Evaluation -/

namespace Eval

open Variant (Follows)

variable {V : Variant}

theorem native_follows (n : Native) (vs : List Value) :
    V.Follows V.value (native n vs) (native n (vs.map V.value)) := by
  cases n with
  | inert name => exact .pure _
  | print =>
      cases vs with
      | nil => exact .pure _
      | cons v vs =>
          refine .bind (g := id) ?_ fun _ => .pure _
          rw [V.recast.text_value v]
          exact .print _
  | println =>
      cases vs with
      | nil => exact .pure _
      | cons v vs =>
          refine .bind (g := id) ?_ fun _ => .pure _
          rw [V.recast.text_value v]
          exact .print _

theorem bindParams_follows (scope : ScopeId) (pos : Int) (names : List Text) (vs : List Value) :
    V.Follows id (bindParams scope pos names vs)
      (bindParams (V.scope scope) (V.pos pos) names (vs.map V.value)) := by
  induction names generalizing vs with
  | nil => exact .pure ()
  | cons name names ih =>
      cases vs with
      | nil => exact .pure ()
      | cons v vs => exact .bind (.declareName scope name v pos) fun _ => ih vs

/-- A return never ends in a value. -/
theorem stmt_ne_value_of_isReturn {st : Stmt} (h : st.isReturn = true) {fuel : Nat}
    {scope : ScopeId} {s t : Session} {v : Value} : stmt fuel st scope s ≠ (.value v, t) := by
  cases st with
  | ret pos value =>
      intro hvalue
      cases fuel with
      | zero => cases hvalue
      | succ fuel =>
          obtain ⟨w, s₁, -, hrest⟩ := Run.bind_eq_value hvalue
          obtain ⟨_, s₂, -, hreturns⟩ := Run.bind_eq_value hrest
          cases hreturns
  | _ => cases h

/-- **Evaluation in a variant follows evaluation in the original**, within a budget. -/
structure EvalFollows (V : Variant) (fuel : Nat) : Prop where
  expr (e : Expr) (scope : ScopeId) :
    V.Follows V.value (expr fuel e scope) (expr fuel (V.expr e) (V.scope scope))
  args (es : List Expr) (scope : ScopeId) :
    V.Follows (List.map V.value) (args fuel es scope)
      (args fuel (es.map V.expr) (V.scope scope))
  apply (f : Callable) (vs : List Value) (pos : Int) :
    V.Follows V.value (apply fuel f vs pos)
      (apply fuel (V.recast.callable f) (vs.map V.value) (V.pos pos))
  stmt (st : Stmt) (scope : ScopeId) :
    V.Follows V.value (stmt fuel st scope) (stmt fuel (V.stmt st) (V.scope scope))
  block (ss : List Stmt) (scope : ScopeId) (last : Value) :
    V.Follows V.value (block fuel ss scope last)
      (block fuel (V.stmts ss) (V.scope scope) (V.value last))
  loop (cond : Expr) (body : Stmt) (scope : ScopeId) (last : Value) :
    V.Follows V.value (loop fuel cond body scope last)
      (loop fuel (V.expr cond) (V.stmt body) (V.scope scope) (V.value last))

section

variable {fuel : Nat} (ih : EvalFollows V fuel)

include ih

private theorem invoke_follows (f : Value) (vs : List Value) (pos : Int) :
    V.Follows V.value (invoke fuel f vs pos)
      (invoke fuel (V.value f) (vs.map V.value) (V.pos pos)) := by
  cases f with
  | num _ | str _ | bool _ => exact .raise _ pos
  | fxn f =>
      have happly := ih.apply f vs pos
      simp only [invoke, Recast.value, Recast.arity?_callable, List.length_map]
      cases f.arity? with
      | some n => exact .ite Iff.rfl happly (.raise _ pos)
      | none => exact happly

private theorem expr_follows (e : Expr) (scope : ScopeId) :
    V.Follows V.value (expr (fuel + 1) e scope)
      (expr (fuel + 1) (V.expr e) (V.scope scope)) := by
  cases e with
  | missing | num _ _ | str _ _ | bool _ _ => exact .pure _
  | ident pos name | symbol pos name => exact .getName scope name pos
  | group _ inner => exact ih.expr inner scope
  | assign pos name value =>
      refine .bind (ih.expr value scope) fun v => ?_
      exact .bind (.setName scope name v pos) fun _ => .pure v
  | unary pos op operand =>
      exact .bind (ih.expr operand scope) fun v => .liftValue pos (V.recast.unary_value op v)
  | binary pos op left right =>
      refine .bind (ih.expr left scope) fun l => ?_
      exact .bind (ih.expr right scope) fun r => .liftValue pos (V.recast.binary_value op l r)
  | call pos callee arguments =>
      rw [V.expr_call, expr_call, expr_call]
      refine .bind (ih.expr callee scope) fun f => ?_
      exact .bind (ih.args arguments scope) fun vs => invoke_follows ih f vs pos

private theorem args_follows (es : List Expr) (scope : ScopeId) :
    V.Follows (List.map V.value) (args (fuel + 1) es scope)
      (args (fuel + 1) (es.map V.expr) (V.scope scope)) := by
  cases es with
  | nil => exact .pure []
  | cons e es =>
      refine .bind (ih.expr e scope) fun v => ?_
      exact .bind (ih.args es scope) fun vs => .pure (v :: vs)

private theorem apply_follows (f : Callable) (vs : List Value) (pos : Int) :
    V.Follows V.value (apply (fuel + 1) f vs pos)
      (apply (fuel + 1) (V.recast.callable f) (vs.map V.value) (V.pos pos)) := by
  cases f with
  | unassigned => exact .pure _
  | native n => exact native_follows n vs
  | custom c =>
      refine .bind (.guardCalls pos) fun _ => ?_
      refine .bind (.openScope c.scope) fun scope => ?_
      refine .bind (bindParams_follows scope pos c.params vs) fun _ => ?_
      exact .within c (.catchReturn (ih.block c.body scope .empty))

private theorem stmt_follows (st : Stmt) (scope : ScopeId) :
    V.Follows V.value (stmt (fuel + 1) st scope) (stmt (fuel + 1) (V.stmt st) (V.scope scope)) := by
  cases st with
  | missing =>
      rw [V.stmt_leaf rfl]
      exact .pure _
  | expr _ e =>
      rw [V.stmt_leaf rfl]
      exact ih.expr e scope
  | ret _ value =>
      rw [V.stmt_leaf rfl]
      refine .bind (ih.expr value scope) fun v => ?_
      exact .bind (.echo v) fun _ => .returns v
  | block _ body =>
      rw [V.stmt_block]
      exact .bind (.openScope scope) fun inner => ih.block body inner .empty
  | declare pos type name init =>
      rw [V.stmt_leaf rfl]
      refine .bind (ih.expr init scope) fun v => .ite ?_ ?_ ?_
      · rw [V.recast.tag_value]
      · exact .bind (.declareName scope name v pos) fun _ => .pure _
      · rw [V.recast.tag_value]
        exact .raise _ pos
  | ifThen _ cond yes =>
      rw [V.stmt_ifThen]
      refine .bind (ih.expr cond scope) fun c => .ite ?_ (ih.stmt yes scope) (.pure _)
      rw [V.recast.truthy_value]
  | ifElse _ cond yes no =>
      rw [V.stmt_ifElse]
      refine .bind (ih.expr cond scope) fun c => .ite ?_ (ih.stmt yes scope) (ih.stmt no scope)
      rw [V.recast.truthy_value]
  | loop _ cond body =>
      rw [V.stmt_loop]
      exact ih.loop cond body scope .empty
  | fxn pos name params body =>
      rw [V.stmt_fxn]
      refine .bind .activeChunk fun chunk => ?_
      exact .bind
        (.declareName scope name (.fxn (.custom (.declared name params body scope chunk))) pos)
        fun _ => .pure _

/-- After a return the rest of a list is not run, whatever it is. -/
private theorem block_follows (ss : List Stmt) (scope : ScopeId) (last : Value) :
    V.Follows V.value (block (fuel + 1) ss scope last)
      (block (fuel + 1) (V.stmts ss) (V.scope scope) (V.value last)) := by
  cases ss with
  | nil =>
      rw [V.stmts_nil]
      exact .pure last
  | cons st rest =>
      rcases V.stmts_cons st rest with hcons | ⟨hreturn, hcons⟩
      · rw [hcons, block_cons, block_cons]
        refine .ite ?_ (ih.block rest scope last) ?_
        · rw [V.isMissing_stmt]
        · exact .bind (ih.stmt st scope) fun v => ih.block rest scope v
      · have hpresent : st.isMissing = false := by
          cases st with
          | ret _ _ => rfl
          | _ => cases hreturn
        rw [hcons, block_cons_present hpresent,
          block_cons_present (by rw [V.isMissing_stmt, hpresent])]
        exact .bind_of_value (ih.stmt st scope) fun a s t hvalue =>
          absurd hvalue (stmt_ne_value_of_isReturn hreturn)

private theorem loop_follows (cond : Expr) (body : Stmt) (scope : ScopeId) (last : Value) :
    V.Follows V.value (loop (fuel + 1) cond body scope last)
      (loop (fuel + 1) (V.expr cond) (V.stmt body) (V.scope scope) (V.value last)) := by
  rw [loop, loop]
  refine .bind (ih.expr cond scope) fun c => .ite ?_ ?_ (.pure last)
  · rw [V.recast.truthy_value]
  · exact .bind (ih.stmt body scope) fun v => ih.loop cond body scope v

end

/-- **Evaluation in a variant follows evaluation in the original.** -/
theorem evalFollows (V : Variant) (fuel : Nat) : EvalFollows V fuel := by
  induction fuel with
  | zero =>
      exact ⟨fun _ _ => .exhausted, fun _ _ => .exhausted, fun _ _ _ => .exhausted,
        fun _ _ => .exhausted, fun _ _ _ => .exhausted, fun _ _ _ _ => .exhausted⟩
  | succ fuel ih =>
      exact ⟨expr_follows ih, args_follows ih, apply_follows ih, stmt_follows ih,
        block_follows ih, loop_follows ih⟩

end Eval

end Badger
