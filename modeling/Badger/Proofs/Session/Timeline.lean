import Badger.Proofs.Scope.Depth
import Badger.Proofs.Session.Moment

/-!
# Moments in time

A run goes on from one session to the next: it comes to the moments that it is made of one after the
other, and when it ends they all have ended. The frame of a scope stays the same from the time when
the scope is opened, so that the scope lies at one depth at all moments of a run.

## Main definitions

* `Moment.after`: the session when the run has ended

## Main statements

* `Session.Later.frame_eq`, `Session.Later.depth_eq`: a scope keeps its frame and its depth
* `Session.Later.ordered`: every scope stays enclosed by an older one
* `Moment.Runs.later`, `Moment.Runs.later_after`: what a run is made of begins after it, and ends
  before it
* `Moment.Runs.scope_lt`, `Moment.Runs.encloses_called`: the scopes in which parts run
-/

namespace Badger

/-! ## Frames and depths over time -/

namespace Session

variable {own : Set ScopeId} {s s' : Session} {id : ScopeId}

theorem Move.frame_eq (h : Move own s s') (hid : id < s.memory.scopes.size) :
    s'.memory.frame id = s.memory.frame id := by
  cases h with
  | opened outer => exact Memory.frame_enclose_of_lt outer hid
  | declared v _ _ => exact s.memory.frame_bind _ _ _ v
  | assigned _ => exact s.memory.frame_rebind _ _ _ _
  | reset => exact Memory.frame_add_of_lt _ hid
  | wrote | entered | left | activated => rfl

/-- **A scope keeps its frame.** -/
theorem Later.frame_eq (h : Later own s s') (hid : id < s.memory.scopes.size) :
    s'.memory.frame id = s.memory.frame id := by
  induction h with
  | refl => rfl
  | tail hlater hmove ih => rw [hmove.frame_eq (hid.trans_le (size_le hlater)), ih]

/-- **A scope keeps its depth.** -/
theorem Later.depth_eq (h : Later own s s') (hid : id < s.memory.scopes.size) :
    s'.memory.depth id = s.memory.depth id :=
  Memory.depth_congr fun _ hle => h.frame_eq (hle.trans_lt hid)

theorem Later.limit_eq (h : Later own s s') (hid : id < s.memory.scopes.size) :
    s'.memory.limit id = s.memory.limit id := by
  obtain ⟨⟨around, limit⟩, hframe⟩ := Memory.exists_frame hid
  rw [Memory.limit_of_frame ((h.frame_eq hid).trans hframe), Memory.limit_of_frame hframe]

/-- A scope stays inside another. -/
theorem Later.encloses (h : Later own s s') {outer inner : ScopeId}
    (hs : s.memory.Encloses outer inner) : s'.memory.Encloses outer inner := by
  obtain ⟨around, limit, houter, hinner⟩ := hs
  exact ⟨around, limit, (h.frame_eq (Memory.lt_size_of_frame houter)).trans houter,
    (h.frame_eq (Memory.lt_size_of_frame hinner)).trans hinner⟩

theorem Move.ordered (h : Move own s s') (hs : s.memory.Ordered) : s'.memory.Ordered := by
  cases h with
  | opened outer => exact hs.enclose outer
  | declared v _ _ => exact hs.of_frame_eq fun id => s.memory.frame_bind _ id _ v
  | assigned _ => exact hs.of_frame_eq fun id => s.memory.frame_rebind _ id _ _
  | reset => exact hs.add fun _ h => by cases h
  | wrote | entered | left | activated => exact hs

/-- **Every scope stays enclosed by an older one.** -/
theorem Later.ordered (h : Later own s s') (hs : s.memory.Ordered) : s'.memory.Ordered := by
  induction h with
  | refl => exact hs
  | tail _ hmove ih => exact hmove.ordered ih

end Session

/-! ## Parts in time -/

namespace Run

open Session

variable {α β : Type} {own : Set ScopeId} {s s' : Session}

/-- The first of two parts ends before both have ended. -/
theorem later_bind {x : Run α} {f : α → Run β} (hf : ∀ a, Confined Set.univ (f a)) (s : Session) :
    Later Set.univ (x s).2 ((x >>= f) s).2 := by
  rw [bind_apply]
  rcases x s with ⟨a | v | d | _, s'⟩
  · exact (hf a).later s'
  all_goals exact .refl s'

theorem later_bind_value {x : Run α} {f : α → Run β} {a : α} {s'' : Session}
    (hx : x s = (.value a, s')) (h : Later Set.univ s'' (f a s').2) :
    Later Set.univ s'' ((x >>= f) s).2 := by
  rw [bind_value hx]
  exact h

/-- The body of a function ends before the call is left. -/
theorem later_within (c : Closure) (x : Run Value) (s : Session) :
    Later Set.univ (x (s.enter c)).2 (within c (catchReturn x) s).2 := by
  have hcaught : (catchReturn x (s.enter c)).2 = (x (s.enter c)).2 := by
    unfold catchReturn
    split
    · next hx => rw [hx]
    · rfl
  show Later _ _ ((catchReturn x (s.enter c)).2.leave s.chunk)
  rw [hcaught]
  exact .of_move (.left _ _)

end Run

namespace Eval

open Session Run

theorem invoke_confined (fuel : Nat) (f : Value) (vs : List Value) (pos : Int) :
    Confined ∅ (invoke fuel f vs pos) := by
  rcases invoke_cases fuel f vs pos with ⟨p, hp, -⟩ | ⟨g, -, hg, -⟩
  · rw [hp]
    exact .raise p pos
  · rw [hg]
    exact (evalConfined fuel).apply g vs pos

/-- **The scope of a call** is new, and it is opened in the scope of the function. -/
theorem later_of_prologue {c : Closure} {vs : List Value} {pos : Int} {s s' : Session}
    {inner : ScopeId} (h : prologue c vs pos s = (.value inner, s')) :
    inner = s.memory.scopes.size ∧ Later Set.univ (s.openScope c.scope).2 s' := by
  obtain ⟨_, s₁, hguard, hrest⟩ := bind_eq_value h
  obtain rfl : s = s₁ := by
    unfold guardCalls at hguard
    split at hguard
    · cases hguard
    · exact congrArg Prod.snd hguard
  -- what follows runs in the session in which the scope is open
  change (bindParams (s.openScope c.scope).1 pos c.params vs >>= fun _ =>
    pure (s.openScope c.scope).1) (s.openScope c.scope).2 = _ at hrest
  have hconfined :=
    bindParams_confined (Set.mem_singleton (s.openScope c.scope).1) pos c.params vs
  obtain ⟨_, s₂, hbind, hpure⟩ := bind_eq_value hrest
  cases hpure
  exact ⟨(size_enclose s.memory c.scope).1, hconfined.later_of_eq hbind⟩

end Eval

/-! ## Moments in time -/

namespace Moment

open Session Run

variable {m m' : Moment} {called : Option Closure} {c : Closure}

/-- **The session when the run has ended**, in whatever way. -/
def after (m : Moment) : Session :=
  match m.part with
  | .expr e scope => (Eval.expr m.fuel e scope m.session).2
  | .args es scope => (Eval.args m.fuel es scope m.session).2
  | .stmt st scope => (Eval.stmt m.fuel st scope m.session).2
  | .block ss scope last => (Eval.block m.fuel ss scope last m.session).2
  | .loop cond body scope last => (Eval.loop m.fuel cond body scope last m.session).2

/-- The effect of a run. -/
theorem effect_after (m : Moment) : Effect Set.univ m.session m.after := by
  obtain ⟨part, fuel, s⟩ := m
  have h := Eval.evalConfined fuel
  cases part with
  | expr e scope => exact (h.expr e scope s).mono (Set.subset_univ _)
  | args es scope => exact (h.args es scope s).mono (Set.subset_univ _)
  | stmt st scope => exact (h.stmt st scope s).mono (Set.subset_univ _)
  | block ss scope last => exact (h.block ss scope last s).mono (Set.subset_univ _)
  | loop cond body scope last => exact (h.loop cond body scope last s).mono (Set.subset_univ _)

/-- **What a run is made of begins after it.** -/
theorem Runs.later (h : Runs m called m') : Later Set.univ m.session m'.session := by
  have hexpr {fuel e scope s r s'} (hx : Eval.expr fuel e scope s = (r, s')) :
      Later Set.univ s s' := ((Eval.evalConfined fuel).expr e scope).later_of_eq hx
  have hargs {fuel es scope s r s'} (hx : Eval.args fuel es scope s = (r, s')) :
      Later Set.univ s s' := ((Eval.evalConfined fuel).args es scope).later_of_eq hx
  have hstmt {fuel st scope s r s'} (hx : Eval.stmt fuel st scope s = (r, s')) :
      Later Set.univ s s' := ((Eval.evalConfined fuel).stmt st scope).later_of_eq hx
  cases h with
  | right hleft => exact hexpr hleft
  | arguments hcallee => exact hexpr hcallee
  | otherArguments hargument => exact hexpr hargument
  | ifYes hcond _ | elseYes hcond _ | elseNo hcond _ | round hcond _ => exact hexpr hcond
  | others _ hfirst => exact hstmt hfirst
  | otherRounds hcond _ hround => exact (hexpr hcond).trans (hstmt hround)
  | braces => exact .of_move (.opened _ _)
  | body hcallee harguments _ hprologue =>
      have hbody := (Eval.prologue_confined _ _ _).later_of_eq hprologue
      exact ((hexpr hcallee).trans (hargs harguments)).trans (hbody.trans (.of_move (.entered _ _)))
  | _ => exact .refl _

/-- **The scope of a part exists** if that of the whole does. -/
theorem Runs.scope_lt (h : Runs m called m')
    (hm : m.part.scope < m.session.memory.scopes.size) :
    m'.part.scope < m'.session.memory.scopes.size := by
  have hsize := h.later.size_le
  cases h with
  | @braces _ _ scope _ s =>
      obtain ⟨hnew, hmore⟩ := size_enclose s.memory scope
      show (s.memory.enclose scope).1 < (s.memory.enclose scope).2.scopes.size
      rw [hnew, hmore]
      exact Nat.lt_succ_self _
  | @body _ _ _ _ _ _ c _ _ _ s₂ s₃ _ _ _ hprologue =>
      obtain ⟨rfl, hlater⟩ := Eval.later_of_prologue hprologue
      have hopen : (s₂.memory.enclose c.scope).2.scopes.size ≤ s₃.memory.scopes.size :=
        hlater.size_le
      rw [(size_enclose s₂.memory c.scope).2] at hopen
      exact hopen
  | _ => exact Nat.lt_of_lt_of_le hm hsize

/-- **The scope of a call** lies inside the scope of the function, if that exists. -/
theorem Runs.encloses_called (h : Runs m (some c) m') (hc : c.scope < m'.part.scope) :
    m'.session.memory.Encloses c.scope m'.part.scope := by
  cases h with
  | body _ _ _ hprologue =>
      obtain ⟨rfl, hlater⟩ := Eval.later_of_prologue hprologue
      exact (hlater.trans (.of_move (.entered _ c))).encloses (Memory.encloses_enclose hc)

/-- **What a run is made of ends before it.** -/
theorem Runs.later_after (h : Runs m called m') : Later Set.univ m'.after m.after := by
  have hexpr (fuel : Nat) (e : Expr) (scope : ScopeId) :
      Confined Set.univ (Eval.expr fuel e scope) :=
    ((Eval.evalConfined fuel).expr e scope).mono (Set.subset_univ _)
  have hargs (fuel : Nat) (es : List Expr) (scope : ScopeId) :
      Confined Set.univ (Eval.args fuel es scope) :=
    ((Eval.evalConfined fuel).args es scope).mono (Set.subset_univ _)
  have hstmt (fuel : Nat) (st : Stmt) (scope : ScopeId) :
      Confined Set.univ (Eval.stmt fuel st scope) :=
    ((Eval.evalConfined fuel).stmt st scope).mono (Set.subset_univ _)
  have hblock (fuel : Nat) (ss : List Stmt) (scope : ScopeId) (last : Value) :
      Confined Set.univ (Eval.block fuel ss scope last) :=
    ((Eval.evalConfined fuel).block ss scope last).mono (Set.subset_univ _)
  have hloop (fuel : Nat) (cond : Expr) (body : Stmt) (scope : ScopeId) (last : Value) :
      Confined Set.univ (Eval.loop fuel cond body scope last) :=
    ((Eval.evalConfined fuel).loop cond body scope last).mono (Set.subset_univ _)
  have hinvoke (fuel : Nat) (f : Value) (vs : List Value) (pos : Int) :
      Confined Set.univ (Eval.invoke fuel f vs pos) :=
    (Eval.invoke_confined fuel f vs pos).mono (Set.subset_univ _)
  cases h with
  | group | expression | loop | braces => exact .refl _
  -- the parts that are run first
  | assigned => exact later_bind (fun v => .bind (.setName _ _ v _) fun _ => .pure v) _
  | operand => exact later_bind (fun _ => .liftValue _ _) _
  | left => exact later_bind (fun _ => .bind (hexpr _ _ _) fun _ => .liftValue _ _) _
  | callee => exact later_bind (fun _ => .bind (hargs _ _ _) fun _ => hinvoke _ _ _ _) _
  | argument => exact later_bind (fun v => .bind (hargs _ _ _) fun vs => .pure (v :: vs)) _
  | returned => exact later_bind (fun v => .bind (.echo v) fun _ => .returns v) _
  | initial =>
      refine later_bind (fun v => .ite ?_ (.raise _ _)) _
      exact .bind (.declareName (Set.mem_univ _) _ v _) fun _ => .pure _
  | ifCondition => exact later_bind (fun _ => .ite (hstmt _ _ _) (.pure _)) _
  | elseCondition => exact later_bind (fun _ => .ite (hstmt _ _ _) (hstmt _ _ _)) _
  | condition =>
      exact later_bind (fun _ => .ite (.bind (hstmt _ _ _) fun _ => hloop _ _ _ _ _) (.pure _)) _
  | @first st rest scope last fuel s hmissing =>
      show Later _ _ (Eval.block (fuel + 1) (st :: rest) scope last s).2
      rw [Eval.block_cons_present hmissing]
      exact later_bind (fun _ => hblock _ _ _ _) _
  -- the parts that are run after others
  | right hleft => exact later_bind_value hleft (later_bind (fun _ => .liftValue _ _) _)
  | arguments hcallee =>
      exact later_bind_value hcallee (later_bind (fun _ => hinvoke _ _ _ _) _)
  | @body pos callee arguments scope fuel s c _ _ _ _ _ hcallee harguments harity hprologue =>
      show Later _ _ (Eval.expr (fuel + 2) (.call pos callee arguments) scope s).2
      rw [Eval.call_custom hcallee harguments harity]
      exact later_bind_value hprologue (later_within c _ _)
  | otherArguments hargument =>
      exact later_bind_value hargument (later_bind (fun vs => .pure (_ :: vs)) _)
  | ifYes hcond htruthy | elseYes hcond htruthy =>
      refine later_bind_value hcond ?_
      rw [if_pos htruthy]
      exact .refl _
  | elseNo hcond htruthy =>
      refine later_bind_value hcond ?_
      rw [if_neg (by simp [htruthy])]
      exact .refl _
  | @skipped st rest scope last fuel s hmissing =>
      show Later _ _ (Eval.block (fuel + 1) (st :: rest) scope last s).2
      rw [Eval.block_cons_missing hmissing]
      exact .refl _
  | @others st rest scope last fuel s _ _ hmissing hfirst =>
      show Later _ _ (Eval.block (fuel + 1) (st :: rest) scope last s).2
      rw [Eval.block_cons_present hmissing]
      exact later_bind_value hfirst (.refl _)
  | round hcond htruthy =>
      refine later_bind_value hcond ?_
      rw [if_pos htruthy]
      exact later_bind (fun _ => hloop _ _ _ _ _) _
  | otherRounds hcond htruthy hround =>
      refine later_bind_value hcond ?_
      rw [if_pos htruthy]
      exact later_bind_value hround (.refl _)

end Moment

end Badger
