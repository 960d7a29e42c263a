import Badger.Proofs.Listing.Arrival
import Badger.Proofs.Session.Hygiene
import Badger.Proofs.Session.Outcome
import Badger.Proofs.Session.Persistence

/-!
# Expressions and calls on the machine

The instructions of an expression leave its value in an operand, and a call comes back with its
value, if both do so within a smaller step budget.

## Main definitions

* `Machine.Simulates`: what the machine does within a step budget of the session

## Main statements

* `Machine.simulates_expr`: **expressions**, one lemma for each kind
* `Machine.simulates_apply`: **calls**, which enter a function and leave it again

## Design notes

A callee that is a name is looked up after the arguments, and by the session before them. Between
the two the name cannot come to denote something else: arguments declare nothing, and a function
cannot be assigned to.
-/

namespace Badger.Machine

open Relation (ReflTransGen)

variable {code : List Instr} {g b : ScopeId} {n m : Nat} {s s' s'' : Session} {σ σ' σ'' : State}
  {o : Operand} {v w : Value}

/-- **What the machine does** while the session runs within a step budget. -/
structure Simulates (code : List Instr) (g : ScopeId) (fuel : Nat) : Prop where
  expr {e : Expr} {k k' : Fresh} {o : Operand} {c : List Instr} {b id : ScopeId} {s s' : Session}
    {σ : State} {v : Value} (hlower : Lower.expr e k = .ok (o, c, k'))
    (hholds : Holds code σ.line c) (hrelated : Related code g b s σ)
    (hreach : Reaches s.memory g b id) (heval : Eval.expr fuel e id s = (.value v, s')) :
    ∃ σ', Computed code g b k.temp (σ.line + c.length) s s' σ σ' ∧ Has code g σ' o v ∧
      (e.emits = true → Similar code g v σ'.frame.last)
  args {es : List Expr} {k k' : Fresh} {os : List Operand} {c : List Instr} {b id : ScopeId}
    {s s' : Session} {σ : State} {vs : List Value} (hlower : Lower.args es k = .ok (os, c, k'))
    (hholds : Holds code σ.line c) (hrelated : Related code g b s σ)
    (hreach : Reaches s.memory g b id) (heval : Eval.args fuel es id s = (.value vs, s')) :
    ∃ σ', Computed code g b k.temp (σ.line + c.length) s s' σ σ' ∧
      List.Forall₂ (Has code g σ') os vs
  apply {f : Callable} {vs ws : List Value} {w : Value} {pos : Int} {b : ScopeId} {s s' : Session}
    {σ : State} {v : Value} (dest : Nat) (hf : Similar code g (.fxn f) w)
    (hvs : List.Forall₂ (Similar code g) vs ws) (harity : ∀ n, f.arity? = some n → vs.length = n)
    (hrelated : Related code g b s σ) (heval : Eval.apply fuel f vs pos s = (.value v, s')) :
    ∃ σ₁ σ₂ r, σ.call dest w ws = some σ₁ ∧ Steps code σ₁ σ₂ ∧ Similar code g v r ∧
      Related code g b s' σ₂ ∧ Spares g b s.memory s'.memory ∧ σ₂.line = σ.line + 1 ∧
      σ₂.params = σ.params ∧ σ₂.callers = σ.callers ∧ σ₂.frame = (σ.produce dest r).frame
  stmt {st : Stmt} {inside inBlock : Bool} {k k' : Fresh} {c : List Instr} {b id : ScopeId}
    {s : Session} {σ : State} (hlower : Lower.stmt inside st k = .ok ((), c, k'))
    (hflat : st.isFlat inBlock = true) (hbodies : ∀ body ∈ st.fxnBodies, Stmt.areValued body = true)
    (hbase : inBlock = false → id = b) (hroot : inside = false → b = g)
    (hholds : Holds code σ.line c) (hrelated : Related code g b s σ)
    (hreach : Reaches s.memory g b id) (hround : σ.frame.round = none) :
    Arrives code g b (σ.line + c.length)
      (st.isValued = true ∧ (st.emits = true ∨ σ.frame.last = .empty)) s σ
      (Eval.stmt fuel st id s)
  block {ss : List Stmt} {inside inBlock : Bool} {k k' : Fresh} {c : List Instr} {b id : ScopeId}
    {s : Session} {σ : State} (last : Value) (hlower : Lower.stmts inside ss k = .ok ((), c, k'))
    (hflat : Stmt.areFlat inBlock ss = true)
    (hbodies : ∀ body ∈ Stmt.listFxnBodies ss, Stmt.areValued body = true)
    (hbase : inBlock = false → id = b) (hroot : inside = false → b = g)
    (hholds : Holds code σ.line c) (hrelated : Related code g b s σ)
    (hreach : Reaches s.memory g b id) (hround : σ.frame.round = none) :
    Arrives code g b (σ.line + c.length)
      (Stmt.areValued ss = true ∧ (ss = [] → Similar code g last σ.frame.last)) s σ
      (Eval.block fuel ss id last s)
  loop {cond : Expr} {body : Stmt} {inside inBlock : Bool} {k k₁ k' : Fresh} {o : Operand}
    {c c' : List Instr} {top after : Nat} {b id : ScopeId} {s : Session} {σ : State} (last : Value)
    (hcond : Lower.expr cond k = .ok (o, c, k₁))
    (hbody : Lower.stmt inside body k₁ = .ok ((), c', k'))
    (hflat : body.isFlat inBlock = true)
    (hbodies : ∀ ss ∈ body.fxnBodies, Stmt.areValued ss = true)
    (hbase : inBlock = false → id = b) (hroot : inside = false → b = g)
    (hholds : Holds code σ.line (.label top :: (c ++ (.jumpUnless o after ::
      (c' ++ [.jump top, .label after])))))
    (hrelated : Related code g b s σ) (hreach : Reaches s.memory g b id) :
    Arrives code g b (σ.line + (c.length + c'.length + 4))
      (body.isValued = true ∧ Similar code g last (σ.frame.round.getD .empty)) s σ
      (Eval.loop fuel cond body id last s)

/-! ## Expressions -/
/-- Reading a variable into a temporary. -/
theorem simulates_load {k : Fresh} {id : ScopeId} {name : Text} {pos : Int}
    (hholds : Holds code σ.line [.load k.temp name]) (hrelated : Related code g b s σ)
    (hreach : Reaches s.memory g b id) (heval : Run.getName id name pos s = (.value v, s')) :
    ∃ σ', Computed code g b k.temp (σ.line + 1) s s' σ σ' ∧ Has code g σ' (.temp k.temp) v ∧
      Similar code g v σ'.frame.last := by
  obtain ⟨hget, rfl⟩ := Run.getName_eq_value heval
  obtain ⟨w, hw, hsimilar⟩ := hrelated.lookup hreach hget
  have hstep : Step code σ (σ.produce k.temp w).next :=
    .of_exec hholds.1 (by simp [exec, hw])
  exact ⟨_, ⟨(Reached.refl hrelated _).produce (Nat.le_refl _) hstep, rfl, rfl⟩,
    has_produce hsimilar, hsimilar⟩

/-- Passing arguments. -/
theorem steps_params {os : List Operand} {vs : List Value}
    (hholds : Holds code σ.line (os.map .param)) (hhas : List.Forall₂ (Has code g σ) os vs) :
    ∃ ws, List.Forall₂ (Similar code g) vs ws ∧ ws.length = os.length ∧
      Steps code σ { σ with line := σ.line + os.length, params := ws.reverse ++ σ.params } := by
  induction os generalizing σ vs with
  | nil =>
      cases hhas
      exact ⟨[], .nil, rfl, .refl⟩
  | cons o os ih =>
      obtain _ | ⟨hhead, htail⟩ := hhas
      next v vs =>
      obtain ⟨w, hw, hsimilar⟩ := hhead
      let σ₁ : State := State.next { σ with params := w :: σ.params }
      have hstep : Step code σ σ₁ := .of_exec hholds.1 (by simp [exec, hw, σ₁])
      have htail' : List.Forall₂ (Has code g σ₁) os vs := by
        refine htail.imp fun o v hv => ?_
        obtain ⟨w, hw, hsimilar⟩ := hv
        exact ⟨w, by cases o <;> exact hw, hsimilar⟩
      obtain ⟨ws, hws, hlength, hsteps⟩ := ih (σ := σ₁) hholds.2 htail'
      refine ⟨w :: ws, .cons hsimilar hws, by simp [hlength], .head hstep ?_⟩
      have heq : { σ₁ with line := σ₁.line + os.length, params := ws.reverse ++ σ₁.params } =
          { σ with line := σ.line + (os.length + 1), params := (w :: ws).reverse ++ σ.params } := by
        simp [σ₁, State.next, Nat.add_comm, Nat.add_left_comm]
      exact heq ▸ hsteps

/-- A name that denotes a function denotes it for ever. -/
theorem Related.lookup_fxn {own : Set ScopeId} {id : ScopeId} {name : Text} {f : Callable}
    (h : Related code g b s σ) (hreach : Reaches s.memory g b id)
    (hget : s.memory.get id name = .ok (.fxn f)) (hlater : Session.Later own s s') (hown : b ∉ own)
    (h' : Related code g b s' σ') :
    ∃ w, σ'.lookup name = some w ∧ Similar code g (.fxn f) w := by
  unfold Memory.get at hget
  cases hr : s.memory.resolve id name with
  | error p =>
      rw [hr] at hget
      cases hget
  | ok r =>
      obtain ⟨holder, v⟩ := r
      rw [hr] at hget
      obtain rfl : v = .fxn f := Except.ok.inj hget
      refine h'.lookup_eq ?_
      rcases h.resolve hreach hr with ⟨-, hbound⟩ | ⟨hne, hnone, -, hbound⟩
      · exact .inl (hlater.bound_fxn hbound)
      · refine .inr ⟨hne, ?_, hlater.bound_fxn hbound⟩
        obtain ⟨scope, hscope⟩ := h.exists_base
        have hnames := hlater.names_eq (lt_size_of_scope? hscope) hown
        rw [Memory.bound_eq_none_iff] at hnone ⊢
        rwa [hnames]

section

variable {fuel : Nat} (ih : Simulates code g fuel)

include ih

/-- An assignment. -/
theorem simulates_assign {name : Text} {e : Expr} {pos : Int} {k k' : Fresh} {c : List Instr}
    {id : ScopeId} (hlower : Lower.expr (.assign pos name e) k = .ok (o, c, k'))
    (hholds : Holds code σ.line c) (hrelated : Related code g b s σ)
    (hreach : Reaches s.memory g b id)
    (heval : Eval.expr (fuel + 1) (.assign pos name e) id s = (.value v, s')) :
    ∃ σ', Computed code g b k.temp (σ.line + c.length) s s' σ σ' ∧ Has code g σ' o v ∧
      Similar code g v σ'.frame.last := by
  obtain ⟨c, hc, rfl⟩ := Lower.expr_assign hlower
  obtain ⟨hholds, hstore, -⟩ := holds_append.mp hholds
  obtain ⟨v', s₁, hvalue, heval⟩ := Run.bind_eq_value heval
  obtain ⟨_, s₂, hname, heval⟩ := Run.bind_eq_value heval
  cases heval
  obtain ⟨holder, hset, rfl⟩ := Run.setName_eq_value hname
  obtain ⟨σ₁, hfirst, ⟨w, hw, hsimilar⟩, -⟩ := ih.expr hc hholds hrelated hreach hvalue
  obtain ⟨hspares, globals, locals, hassign, hrelated'⟩ :=
    hfirst.related.assign (hfirst.reaches hreach) hset hsimilar
  rw [← hfirst.line] at hstore
  have hstep : Step code σ₁ (State.next { σ₁ with
      globals := globals, frame := { σ₁.frame with locals := locals, last := w } }) :=
    .of_exec hstore (by simp [exec, hw, hassign])
  refine ⟨_, ⟨⟨ReflTransGen.tail hfirst.steps hstep, hrelated'.congr rfl rfl rfl,
    hfirst.spares.trans hspares, hfirst.temps, hfirst.params, hfirst.callers⟩, ?_, hfirst.round⟩,
    ⟨w, ?_, hsimilar⟩, hsimilar⟩
  · simp [State.next, hfirst.line, Nat.add_assoc]
  · cases o <;> exact hw

/-- A unary operator. -/
theorem simulates_unary {op : UnaryOp} {e : Expr} {pos : Int} {k k' : Fresh} {c : List Instr}
    {id : ScopeId} (hlower : Lower.expr (.unary pos op e) k = .ok (o, c, k'))
    (hholds : Holds code σ.line c) (hrelated : Related code g b s σ)
    (hreach : Reaches s.memory g b id)
    (heval : Eval.expr (fuel + 1) (.unary pos op e) id s = (.value v, s')) :
    ∃ σ', Computed code g b k.temp (σ.line + c.length) s s' σ σ' ∧ Has code g σ' o v ∧
      Similar code g v σ'.frame.last := by
  obtain ⟨v', c, k₁, hc, -, rfl, rfl, rfl⟩ := Lower.expr_unary hlower
  obtain ⟨hholds, hunary, -⟩ := holds_append.mp hholds
  obtain ⟨x, s₁, hvalue, heval⟩ := Run.bind_eq_value heval
  obtain ⟨hr, rfl⟩ := Run.liftValue_eq_value heval
  obtain ⟨σ₁, hfirst, ⟨w, hw, hsimilar⟩, -⟩ := ih.expr hc hholds hrelated hreach hvalue
  obtain ⟨hr, hself⟩ := hsimilar.unary hr
  rw [← hfirst.line] at hunary
  have hstep : Step code σ₁ (σ₁.produce k₁.temp v).next :=
    .of_exec hunary (by simp [exec, hw, hr, Except.toOption])
  refine ⟨_, ⟨hfirst.toReached.produce (Lower.expr_computes e hc).temps hstep, ?_, hfirst.round⟩,
    has_produce hself, hself⟩
  simp [State.next, State.produce, hfirst.line, Nat.add_assoc]

/-- A binary operator. -/
theorem simulates_binary {op : BinaryOp} {e e' : Expr} {pos : Int} {k k' : Fresh}
    {c : List Instr} {id : ScopeId} (hlower : Lower.expr (.binary pos op e e') k = .ok (o, c, k'))
    (hholds : Holds code σ.line c) (hrelated : Related code g b s σ)
    (hreach : Reaches s.memory g b id)
    (heval : Eval.expr (fuel + 1) (.binary pos op e e') id s = (.value v, s')) :
    ∃ σ', Computed code g b k.temp (σ.line + c.length) s s' σ σ' ∧ Has code g σ' o v ∧
      Similar code g v σ'.frame.last := by
  obtain ⟨l, c, k₁, r, c', k₂, hc, hc', -, rfl, rfl, rfl⟩ := Lower.expr_binary hlower
  rw [List.append_assoc] at hholds
  obtain ⟨hholds, hholds'⟩ := holds_append.mp hholds
  obtain ⟨x, s₁, hleft, heval⟩ := Run.bind_eq_value heval
  obtain ⟨y, s₂, hright, heval⟩ := Run.bind_eq_value heval
  obtain ⟨hr, rfl⟩ := Run.liftValue_eq_value heval
  have hcomputes := Lower.expr_computes e hc
  have hcomputes' := Lower.expr_computes e' hc'
  obtain ⟨σ₁, hfirst, hhas, -⟩ := ih.expr hc hholds hrelated hreach hleft
  rw [← hfirst.line] at hholds'
  obtain ⟨hholds', hbinary, -⟩ := holds_append.mp hholds'
  obtain ⟨σ₂, hsecond, ⟨w', hw', hsimilar'⟩, -⟩ :=
    ih.expr hc' hholds' hfirst.related (hfirst.reaches hreach) hright
  -- the left operand is still there after the right one was computed
  obtain ⟨w, hw, hsimilar⟩ := hsecond.has (hcomputes.below l (by simp)) hhas
  obtain ⟨hr, hself⟩ := hsimilar.binary hsimilar' hr
  rw [← hsecond.line] at hbinary
  have hstep : Step code σ₂ (σ₂.produce k₂.temp v).next :=
    .of_exec hbinary (by simp [exec, hw, hw', hr, Except.toOption])
  have hboth := hfirst.toReached.trans hsecond.toReached hcomputes.temps
  refine ⟨_, ⟨hboth.produce (hcomputes.temps.trans hcomputes'.temps) hstep, ?_,
    hsecond.round.trans hfirst.round⟩, has_produce hself, hself⟩
  simp [State.next, State.produce, hsecond.line, hfirst.line, Nat.add_assoc]

/-- A callee and its arguments. -/
theorem simulates_callee {callee : Expr} {es : List Expr} {k k₁ k₂ : Fresh} {target : Target}
    {c c' : List Instr} {os : List Operand} {id : ScopeId} {f : Callable} {vs : List Value}
    (hcallee : Lower.Calls k callee target c k₁) (hargs : Lower.args es k₁ = .ok (os, c', k₂))
    (hholds : Holds code σ.line (c ++ c')) (hrelated : Related code g b s σ)
    (hreach : Reaches s.memory g b id) (hf : Eval.expr fuel callee id s = (.value (.fxn f), s'))
    (hvs : Eval.args fuel es id s' = (.value vs, s'')) :
    ∃ σ' w, Computed code g b k.temp (σ.line + (c.length + c'.length)) s s'' σ σ' ∧
      σ'.callee target = some w ∧ Similar code g (.fxn f) w ∧
      List.Forall₂ (Has code g σ') os vs := by
  obtain ⟨hholds, hholds'⟩ := holds_append.mp hholds
  cases hcallee with
  | named pos name =>
      cases fuel with
      | zero => cases hf
      | succ fuel =>
          obtain ⟨hget, rfl⟩ := Run.getName_eq_value hf
          obtain ⟨σ', hcomputed, hhas⟩ := ih.args hargs hholds' hrelated hreach hvs
          have hconfined := (Eval.evalConfined (fuel + 1)).args es id s'
          rw [hvs] at hconfined
          have hown : b ∉ (∅ ∪ Set.Ici s'.memory.scopes.size : Set ScopeId) := by
            obtain ⟨scope, hscope⟩ := hrelated.exists_base
            simpa using lt_size_of_scope? hscope
          obtain ⟨w, hw, hsimilar⟩ :=
            hrelated.lookup_fxn hreach hget hconfined.later hown hcomputed.related
          refine ⟨σ', w, ?_, hw, hsimilar, hhas⟩
          simpa using hcomputed
  | @computed e o c k' hc =>
      have hcomputes := Lower.expr_computes callee hc
      obtain ⟨σ₁, hfirst, hhas₁, -⟩ := ih.expr hc hholds hrelated hreach hf
      rw [← hfirst.line] at hholds'
      obtain ⟨σ', hsecond, hhas⟩ := ih.args hargs hholds' hfirst.related (hfirst.reaches hreach) hvs
      obtain ⟨w, hw, hsimilar⟩ := hsecond.has (hcomputes.below o (by simp)) hhas₁
      have hboth := hfirst.toReached.trans hsecond.toReached hcomputes.temps
      refine ⟨σ', w, ⟨hboth, ?_, hsecond.round.trans hfirst.round⟩, hw, hsimilar, hhas⟩
      rw [hsecond.line, hfirst.line, Nat.add_assoc]

/-- A call. -/
theorem simulates_call {callee : Expr} {es : List Expr} {pos : Int} {k k' : Fresh} {c : List Instr}
    {id : ScopeId} (hlower : Lower.expr (.call pos callee es) k = .ok (o, c, k'))
    (hholds : Holds code σ.line c) (hrelated : Related code g b s σ)
    (hreach : Reaches s.memory g b id)
    (heval : Eval.expr (fuel + 1) (.call pos callee es) id s = (.value v, s')) :
    ∃ σ', Computed code g b k.temp (σ.line + c.length) s s' σ σ' ∧ Has code g σ' o v ∧
      Similar code g v σ'.frame.last := by
  obtain ⟨target, c, k₁, os, c', k₂, hcallee, hargs, rfl, rfl, rfl⟩ := Lower.expr_call hlower
  rw [← List.append_assoc] at hholds
  obtain ⟨hholds, hholds'⟩ := holds_append.mp hholds
  obtain ⟨x, s₁, hf, heval⟩ := Run.bind_eq_value heval
  obtain ⟨vs, s₂, hvs, heval⟩ := Run.bind_eq_value heval
  obtain ⟨f, rfl, harity, happly⟩ : ∃ f, x = .fxn f ∧ (∀ n, f.arity? = some n → vs.length = n) ∧
      Eval.apply fuel f vs pos s₂ = (.value v, s') := by
    cases x with
    | num _ | str _ | bool _ => cases heval
    | fxn f =>
        refine ⟨f, rfl, ?_⟩
        cases hn : f.arity? with
        | none =>
            simp only [hn] at heval
            exact ⟨by simp, heval⟩
        | some n =>
            simp only [hn] at heval
            split at heval
            · next hlength =>
              exact ⟨by simpa using hlength, heval⟩
            · cases heval
  obtain ⟨σ₁, w, hcomputed, hw, hsimilar, hhas⟩ :=
    simulates_callee ih hcallee hargs hholds hrelated hreach hf hvs
  rw [List.length_append, ← hcomputed.line] at hholds'
  obtain ⟨hparams, hcall, -⟩ := holds_append.mp hholds'
  obtain ⟨ws, hws, hlength, hsteps⟩ := steps_params hparams hhas
  let σ₂ : State := { σ₁ with line := σ₁.line + os.length }
  obtain ⟨σ₃, σ₄, r, hentered, hran, hr, hrelated', hspares, hline, hparams', hcallers, hframe⟩ :=
    ih.apply (σ := σ₂) k₂.temp hsimilar hws harity (hcomputed.related.congr rfl rfl rfl) happly
  have hstep : Step code { σ₂ with params := ws.reverse ++ σ₁.params } σ₃ := by
    have hcallee : State.callee { σ₂ with params := ws.reverse ++ σ₁.params } target = some w := by
      cases target with
      | named name => exact hw
      | computed o => cases o <;> exact hw
    have hlength' : ws.reverse.length = os.length := by simp [hlength]
    refine .of_exec (by simpa using hcall) ?_
    rw [exec, hcallee]
    simp only [bind, Option.bind_some]
    rw [if_neg (by simp [hlength']), List.take_left' hlength', List.drop_left' hlength',
      List.reverse_reverse]
    exact hentered
  have htemps : k.temp ≤ k₂.temp := by
    have hargs' := (Lower.args_computes es hargs).temps
    cases hcallee with
    | named => exact hargs'
    | computed hc => exact (Lower.expr_computes callee hc).temps.trans hargs'
  refine ⟨σ₄, ⟨⟨?_, hrelated', hcomputed.spares.trans hspares, ?_, hparams'.trans hcomputed.params,
    hcallers.trans hcomputed.callers⟩, ?_, ?_⟩, ⟨r, ?_, hr⟩, ?_⟩
  · exact ReflTransGen.trans hcomputed.steps (ReflTransGen.trans hsteps (.head hstep hran))
  · intro t ht
    rw [hframe, ← hcomputed.temps t ht]
    simp [State.produce, Nat.ne_of_lt (ht.trans_le htemps), σ₂]
  · rw [hline]
    simp [σ₂, hcomputed.line, Nat.add_assoc]
  · rw [hframe]
    exact hcomputed.round
  · simp [State.value, hframe, State.produce]
  · rw [hframe]
    exact hr

/-- Arguments, from left to right. -/
theorem simulates_args {es : List Expr} {k k' : Fresh} {os : List Operand} {c : List Instr}
    {id : ScopeId} {vs : List Value} (hlower : Lower.args es k = .ok (os, c, k'))
    (hholds : Holds code σ.line c) (hrelated : Related code g b s σ)
    (hreach : Reaches s.memory g b id) (heval : Eval.args (fuel + 1) es id s = (.value vs, s')) :
    ∃ σ', Computed code g b k.temp (σ.line + c.length) s s' σ σ' ∧
      List.Forall₂ (Has code g σ') os vs := by
  cases es with
  | nil =>
      cases hlower
      cases heval
      exact ⟨σ, ⟨.refl hrelated _, rfl, rfl⟩, .nil⟩
  | cons e es =>
      obtain ⟨o, c, k₁, os', c', hc, hc', rfl, rfl⟩ := Lower.args_cons hlower
      obtain ⟨hholds, hholds'⟩ := holds_append.mp hholds
      obtain ⟨v, s₁, hfirst, heval⟩ := Run.bind_eq_value heval
      obtain ⟨vs', s₂, hrest, heval⟩ := Run.bind_eq_value heval
      cases heval
      have hcomputes := Lower.expr_computes e hc
      obtain ⟨σ₁, hreached, hhas, -⟩ := ih.expr hc hholds hrelated hreach hfirst
      rw [← hreached.line] at hholds'
      obtain ⟨σ₂, hreached', hhas'⟩ :=
        ih.args hc' hholds' hreached.related (hreached.reaches hreach) hrest
      have hboth := hreached.toReached.trans hreached'.toReached hcomputes.temps
      refine ⟨σ₂, ⟨hboth, ?_, hreached'.round.trans hreached.round⟩,
        .cons (hreached'.has (hcomputes.below o (by simp)) hhas) hhas'⟩
      rw [hreached'.line, hreached.line, List.length_append, Nat.add_assoc]

/-- **Expressions.** -/
theorem simulates_expr {e : Expr} {k k' : Fresh} {c : List Instr} {id : ScopeId}
    (hlower : Lower.expr e k = .ok (o, c, k')) (hholds : Holds code σ.line c)
    (hrelated : Related code g b s σ) (hreach : Reaches s.memory g b id)
    (heval : Eval.expr (fuel + 1) e id s = (.value v, s')) :
    ∃ σ', Computed code g b k.temp (σ.line + c.length) s s' σ σ' ∧ Has code g σ' o v ∧
      (e.emits = true → Similar code g v σ'.frame.last) := by
  cases e with
  | missing => cases hlower
  | num _ _ | str _ _ | bool _ _ =>
      cases hlower
      cases heval
      exact ⟨σ, ⟨.refl hrelated _, rfl, rfl⟩, ⟨_, rfl, .refl rfl⟩, fun h => by cases h⟩
  | ident _ name | symbol _ name =>
      cases hlower
      obtain ⟨σ', hcomputed, hhas, hlast⟩ := simulates_load hholds hrelated hreach heval
      exact ⟨σ', hcomputed, hhas, fun _ => hlast⟩
  | group _ inner => exact ih.expr (e := inner) hlower hholds hrelated hreach heval
  | assign _ name value =>
      obtain ⟨σ', hcomputed, hhas, hlast⟩ := simulates_assign ih hlower hholds hrelated hreach heval
      exact ⟨σ', hcomputed, hhas, fun _ => hlast⟩
  | unary _ op operand =>
      obtain ⟨σ', hcomputed, hhas, hlast⟩ := simulates_unary ih hlower hholds hrelated hreach heval
      exact ⟨σ', hcomputed, hhas, fun _ => hlast⟩
  | binary _ op left right =>
      obtain ⟨σ', hcomputed, hhas, hlast⟩ := simulates_binary ih hlower hholds hrelated hreach heval
      exact ⟨σ', hcomputed, hhas, fun _ => hlast⟩
  | call _ callee arguments =>
      obtain ⟨σ', hcomputed, hhas, hlast⟩ := simulates_call ih hlower hholds hrelated hreach heval
      exact ⟨σ', hcomputed, hhas, fun _ => hlast⟩

end

/-! ## Calls -/

theorem output_write (s : Session) (t : Write) : (s.write t).output = s.output ++ t.text := by
  simp [Session.write, Session.output]

/-- A write on both sides. -/
theorem Related.write (h : Related code g b s σ) (t : Write) :
    Related code g b (s.write t) (σ.write t.text) :=
  { h with output := by rw [output_write, ← h.output]; rfl }

/-- The native functions do the same on both sides. -/
theorem Related.native {n : Native} {vs ws : List Value} (h : Related code g b s σ)
    (hvs : List.Forall₂ (Similar code g) vs ws) (heval : Eval.native n vs s = (.value v, s')) :
    v = .empty ∧ s'.memory = s.memory ∧ Related code g b s' (σ.native n ws) := by
  cases hvs with
  | nil =>
      cases n <;> cases heval <;> exact ⟨rfl, rfl, h⟩
  | cons hx hrest =>
      cases n with
      | inert _ =>
          cases heval
          exact ⟨rfl, rfl, h⟩
      | print =>
          cases heval
          refine ⟨rfl, rfl, ?_⟩
          rw [State.native, hx.text_eq]
          exact h.write (.printed _)
      | println =>
          cases heval
          refine ⟨rfl, rfl, ?_⟩
          rw [State.native, hx.text_eq]
          exact h.write (.printed _)

theorem native_unchanged (σ : State) (n : Native) (ws : List Value) :
    (σ.native n ws).line = σ.line ∧ (σ.native n ws).params = σ.params ∧
      (σ.native n ws).callers = σ.callers ∧ (σ.native n ws).frame = σ.frame := by
  unfold State.native
  split <;> exact ⟨rfl, rfl, rfl, rfl⟩

/-- Parameters on both sides. -/
theorem matches_params {names : List Text} {vs ws : List Value}
    (h : List.Forall₂ (Similar code g) vs ws) :
    Matches code g (names.zip vs).reverse
      ((names.zip ws).reverse.map fun p => (p.1, some p.2)) := by
  rw [List.map_reverse]
  refine List.rel_reverse ?_
  induction h generalizing names with
  | nil => simp
  | cons hx _ ih =>
      cases names with
      | nil => simp
      | cons name names => exact .cons ⟨rfl, _, rfl, hx⟩ ih

/-- **Entering a function** on both sides. -/
theorem Related.enter {c : Closure} {id : ScopeId} {pos : Int} {vs ws : List Value} {u : Unit}
    (h : Related code g b s σ) (hopen : Run.openScope g s = (.value id, s'))
    (hbind : Eval.bindParams id pos c.params vs s' = (.value u, s''))
    (hvs : List.Forall₂ (Similar code g) vs ws) (dest line : Nat) :
    Related code g id (s''.enter c) (σ.enter dest (.declared c.name c.params [] line {}) ws) ∧
      s.memory.scopes.size ≤ id ∧ s.memory.scopes.size ≤ s''.memory.scopes.size ∧
      ∀ id' < s.memory.scopes.size, s''.memory.scope? id' = s.memory.scope? id' := by
  obtain ⟨root, hroot, houter, hglobals⟩ := h.root
  obtain ⟨rfl, hg, ho, hw, hmemory⟩ := Run.openScope_eq_value hroot hopen
  obtain ⟨hg', ho', hw', hsize, hother, hself⟩ := Eval.bindParams_eq_value hbind
  have hsize' : s'.memory.scopes.size = s.memory.scopes.size + 1 := by
    rw [hmemory]
    exact Array.size_push _
  have hnew := hself { outer := some g, limit := root.limit } (by
    rw [hmemory, Memory.scope?_add, if_pos rfl])
  have hbefore : ∀ id' < s.memory.scopes.size, s''.memory.scope? id' = s.memory.scope? id' := by
    intro id' hid'
    rw [hother id' (Nat.ne_of_lt hid'), hmemory, Memory.scope?_add, if_neg (Nat.ne_of_lt hid')]
  have hlt := lt_size_of_scope? hroot
  refine ⟨⟨?_, ?_, ?_, ⟨root, ?_, houter, hglobals⟩,
    .inr ⟨Nat.ne_of_gt hlt, _, _, hnew, rfl, rfl, ?_⟩⟩, Nat.le_refl _, by omega, hbefore⟩
  · exact hg'.trans (hg.trans h.globals)
  · show s''.options.echoReturns = true
    rw [ho', ho, h.echoes]
  · show σ.output = s''.output
    rw [hw', hw, h.output]
  · exact (hbefore g hlt).trans hroot
  · simpa using matches_params hvs

/-- **Leaving a function** on both sides. -/
theorem Related.leave {id : ScopeId} {after : Session} {σ₁ : State}
    (h : Related code g b s σ) (hid : s.memory.scopes.size ≤ id)
    (hbefore : ∀ id' < s.memory.scopes.size, s'.memory.scope? id' = s.memory.scope? id')
    (hsize : s.memory.scopes.size ≤ s'.memory.scopes.size) (hrelated : Related code g id after σ₁)
    (hspares : Spares g id s'.memory after.memory) (chunk : Chunk) (line dest : Nat)
    (callers : List Caller) (r : Value) :
    Related code g b (after.leave chunk)
        (State.produce { σ₁ with line := line, frame := σ.frame, callers := callers } dest r) ∧
      Spares g b s.memory (after.leave chunk).memory := by
  have hkept : ∀ id' < s.memory.scopes.size, id' ≠ g →
      after.memory.scope? id' = s.memory.scope? id' := by
    intro id' hid' hne
    rw [hspares.scope id' (hid'.trans_le hsize) hne (Nat.ne_of_lt (hid'.trans_le hid)),
      hbefore id' hid']
  refine ⟨⟨hrelated.globals, hrelated.echoes, hrelated.output, hrelated.root, ?_⟩,
    ⟨hsize.trans hspares.size, fun id' hid' hg _ => hkept id' hid' hg⟩⟩
  rcases h.own with ⟨heq, hlocals⟩ | ⟨hne, scope, vars, hscope, hrest⟩
  · exact .inl ⟨heq, hlocals⟩
  · exact .inr ⟨hne, scope, vars, (hkept b (lt_size_of_scope? hscope) hne).trans hscope, hrest⟩

section

variable {fuel : Nat} (ih : Simulates code g fuel)

include ih

/-- **Calls.** -/
theorem simulates_apply {f : Callable} {vs ws : List Value} {pos : Int} (dest : Nat)
    (hf : Similar code g (.fxn f) w) (hvs : List.Forall₂ (Similar code g) vs ws)
    (harity : ∀ n, f.arity? = some n → vs.length = n) (hrelated : Related code g b s σ)
    (heval : Eval.apply (fuel + 1) f vs pos s = (.value v, s')) :
    ∃ σ₁ σ₂ r, σ.call dest w ws = some σ₁ ∧ Steps code σ₁ σ₂ ∧ Similar code g v r ∧
      Related code g b s' σ₂ ∧ Spares g b s.memory s'.memory ∧ σ₂.line = σ.line + 1 ∧
      σ₂.params = σ.params ∧ σ₂.callers = σ.callers ∧ σ₂.frame = (σ.produce dest r).frame := by
  have hlength := hvs.length_eq
  cases f with
  | unassigned =>
      obtain rfl : w = .fxn .unassigned := by cases hf; rfl
      cases heval
      exact ⟨_, _, .empty, rfl, .refl, .refl rfl, hrelated.congr rfl rfl rfl, .refl _, rfl, rfl,
        rfl, rfl⟩
  | native n =>
      obtain rfl : w = .fxn (.native n) := by cases hf; rfl
      obtain ⟨rfl, hmemory, hrelated'⟩ := hrelated.native hvs heval
      obtain ⟨hline, hparams, hcallers, hframe⟩ := native_unchanged σ n ws
      refine ⟨_, _, .empty, if_pos ?_, .refl, .refl rfl, hrelated'.congr rfl rfl rfl, ?_, ?_,
        hparams, hcallers, ?_⟩
      · rw [← hlength, harity n.arity rfl]
      · rw [hmemory]
        exact .refl _
      · simp [State.next, State.produce, hline]
      · simp [State.next, State.produce, hframe]
  | custom c =>
      obtain ⟨line, hinstalled, rfl⟩ : ∃ line, Installed code g c line ∧
          w = function c.name c.params line := by
        cases hf with
        | refl h => cases h
        | custom h => exact ⟨_, h, rfl⟩
      obtain ⟨_, s₀, hguard, hguarded⟩ := Run.bind_eq_value heval
      obtain rfl : s₀ = s := by
        unfold Run.guardCalls at hguard
        split at hguard <;> cases hguard
        rfl
      obtain ⟨id, s₁, hopen, hopened⟩ := Run.bind_eq_value hguarded
      obtain ⟨_, s₂, hbind, hbound⟩ := Run.bind_eq_value hopened
      obtain ⟨after, hbody, rfl⟩ := Run.within_eq_value hbound
      rw [hinstalled.scope] at hopen
      obtain ⟨part, k, k', hlower, hholds⟩ := hinstalled.placed
      obtain ⟨hholds, hend, -⟩ := holds_append.mp hholds
      obtain ⟨hentered, hid, hsize, hbefore⟩ := hrelated.enter hopen hbind hvs dest line
      let σ₁ := σ.enter dest (.declared c.name c.params [] line {}) ws
      have hcall : σ.call dest (function c.name c.params line) ws = some σ₁ :=
        if_pos (by rw [← hlength, harity _ rfl]; exact hinstalled.arity.symm)
      have harrives := ih.block (σ := σ₁) .empty hlower hinstalled.flat
        (fun body hbody => hinstalled.valued body (List.mem_cons_of_mem _ hbody)) (fun _ => rfl)
        (fun h => by cases h) hholds hentered .base rfl
      -- however the body ends, the machine goes back with the value of the call
      obtain ⟨σ₂, r, hreached, hr, hstep⟩ : ∃ σ₂ r, Reached code g id 0 (s₂.enter c) after σ₁ σ₂ ∧
          Similar code g v r ∧ step code σ₂ = σ₂.leave r := by
        rcases hbody with hbody | hbody
        · rw [hbody] at harrives
          obtain ⟨σ₂, hreached, hline, -, hvalued⟩ := harrives
          refine ⟨σ₂, σ₂.frame.last, hreached, hvalued ⟨?_, fun _ => .refl rfl⟩, ?_⟩
          · exact hinstalled.valued _ List.mem_cons_self
          · rw [step, hline]
            show (code[line + part.length]?).bind _ = _
            rw [hend]
            rfl
        · rw [hbody] at harrives
          obtain ⟨σ₂, o, hreached, hret, ⟨r, hr, hsimilar⟩⟩ := harrives
          refine ⟨σ₂, r, hreached, hsimilar, ?_⟩
          rw [step, hret, Option.bind_some, exec, hr]
          rfl
      have hcallers : σ₂.callers = ⟨σ.line + 1, dest, σ.frame⟩ :: σ.callers := hreached.callers
      obtain ⟨hrelated', hspares⟩ := hrelated.leave hid hbefore hsize hreached.related
        hreached.spares s₂.chunk (σ.line + 1) dest σ.callers r
      refine ⟨σ₁, _, r, hcall, ReflTransGen.tail hreached.steps ?_, hr, hrelated', hspares, rfl,
        hreached.params, rfl, rfl⟩
      unfold Step
      rw [hstep, State.leave, hcallers]

end

end Badger.Machine
