import Mathlib.Data.Set.BooleanAlgebra
import Mathlib.Order.CompletePartialOrder
import Badger.Proofs.Session.Timeline

/-!
# The functions that a program can get hold of

Every function that a program can get hold of comes from a declaration that was run, and the scope
of that declaration exists: running a part of a program leaves only such functions behind, in
memory, in its value and in what it returns, if it finds only such functions.

## Main definitions

* `Value.Known`, `Memory.Known`: that all functions in sight belong to a set
* `Session.inSight`: the functions that may be in sight in a session
* `Leaves`: what a run leaves behind
* `Moment.Declares`: that a function is declared at a moment
* `Moment.Fits`: that the scope of a run exists, and that it finds only functions of the set
* `Moment.Sound`: that a run leaves only functions of the set behind

## Main statements

* `Moment.Runs.fits`: what a run is made of fits if the run does
* `Moment.Fits.sound`: a run is sound if the runs that it is made of are, and if it declares a
  function of the set
* `Moment.Runs.called_mem`: a function that is called was in sight before

## Design notes

The functions that may be in sight depend on how many scopes there are, and grow with them. A
function whose scope does not exist yet is therefore never in sight.
-/

namespace Badger

/-! ## Functions in sight -/

/-- A value that, if it is a function with a declaration, is one of the given ones. -/
def Value.Known (declared : Set Closure) (v : Value) : Prop :=
  ∀ c, v = .fxn (.custom c) → c ∈ declared

namespace Value

variable {declared : Set Closure}

theorem Known.mono {declared' : Set Closure} {v : Value} (h : v.Known declared)
    (hsub : declared ⊆ declared') : v.Known declared' :=
  fun c hc => hsub (h c hc)

theorem known_of_tag_ne {v : Value} (h : v.tag ≠ .fxn) : v.Known declared := by
  rintro c rfl
  exact absurd rfl h

theorem known_empty : Value.empty.Known declared := known_of_tag_ne (by decide)

theorem tag_unary {op : UnaryOp} {v w : Value} (h : Value.unary op v = .ok w) :
    w.tag ≠ .fxn := by
  unfold Value.unary at h
  split at h
  all_goals cases h
  all_goals simp [tag]

theorem known_unary {op : UnaryOp} {v w : Value} (h : Value.unary op v = .ok w) :
    w.Known declared := known_of_tag_ne (tag_unary h)

theorem tag_repeated {s : Packed} {x : Float} {v : Value} (h : repeated s x = .ok v) :
    v.tag = .str := by
  unfold repeated at h
  split at h
  · cases h
  · split at h
    · cases h
      rfl
    · split at h
      · cases h
      · cases h
        rfl

/-- No operator gives a function. -/
theorem tag_binary {op : BinaryOp} {l r w : Value} (h : Value.binary op l r = .ok w) :
    w.tag ≠ .fxn := by
  unfold binary at h
  obtain hnone | ⟨result, hsome⟩ := Option.eq_none_or_eq_some (binary? op l r)
  · rw [hnone] at h
    cases h
  · rw [hsome] at h
    have hok : result = .ok w := h
    subst hok
    unfold binary? at hsome
    split at hsome
    all_goals simp only [comparison, Option.map_eq_some_iff, Option.some.injEq, reduceCtorEq,
      Except.ok.injEq] at hsome
    all_goals first
      | rw [tag_repeated hsome]; decide
      | obtain ⟨_, ⟨_, _, rfl⟩, rfl⟩ := hsome; exact Tag.noConfusion
      | obtain ⟨_, _, rfl⟩ := hsome; exact Tag.noConfusion

theorem known_binary {op : BinaryOp} {l r w : Value} (h : Value.binary op l r = .ok w) :
    w.Known declared := known_of_tag_ne (tag_binary h)

end Value

/-- All functions in the memory are among the given ones. -/
def Memory.Known (declared : Set Closure) (m : Memory) : Prop :=
  ∀ (id : ScopeId) (name : Text) (v : Value), m.bound id name = some v → v.Known declared

namespace Memory

variable {declared : Set Closure} {m : Memory}

theorem Known.mono {declared' : Set Closure} (h : m.Known declared) (hsub : declared ⊆ declared') :
    m.Known declared' :=
  fun id name v hv => (h id name v hv).mono hsub

theorem known_add (h : m.Known declared) {s : Scope}
    (hs : ∀ name v, s.lookup name = some v → v.Known declared) : (m.add s).2.Known declared :=
  holds_add h hs

theorem known_enclose (h : m.Known declared) (outer : ScopeId) :
    (m.enclose outer).2.Known declared :=
  holds_enclose h outer

theorem known_bind (h : m.Known declared) {v : Value} (hv : v.Known declared) (id : ScopeId)
    (name : Text) : (m.bind id name v).Known declared :=
  holds_bind h hv id name

theorem known_rebind (h : m.Known declared) {v : Value} (hv : v.Known declared) (id : ScopeId)
    (name : Text) : (m.rebind id name v).Known declared :=
  holds_rebind h hv id name

theorem known_get (h : m.Known declared) {id : ScopeId} {name : Text} {v : Value}
    (hv : m.get id name = .ok v) : v.Known declared :=
  Holds.get h hv

end Memory

/-! ## What a run leaves behind -/

/-- The functions that may be in sight in a session, by the number of its scopes. -/
def Session.inSight (declared : Nat → Set Closure) (s : Session) : Set Closure :=
  declared s.memory.scopes.size

/-- What was in sight stays in sight. -/
theorem Session.inSight_mono {declared : Nat → Set Closure} (hgrows : Monotone declared)
    {s s' : Session} (h : s.memory.scopes.size ≤ s'.memory.scopes.size) :
    s.inSight declared ⊆ s'.inSight declared := hgrows h

/-- **What a run leaves behind** that starts in a session: no fewer scopes, and only functions that
may then be in sight, in memory, in its value and in what it returns. -/
structure Leaves {α : Type} (declared : Nat → Set Closure) (known : Set Closure → α → Prop)
    (s : Session) (r : Outcome α × Session) : Prop where
  size_le : s.memory.scopes.size ≤ r.2.memory.scopes.size
  memory : r.2.memory.Known (r.2.inSight declared)
  outcome :
    match r.1 with
    | .value a => known (r.2.inSight declared) a
    | .returned v => v.Known (r.2.inSight declared)
    | .failed _ => True
    | .outOfFuel => True

namespace Leaves

open Run

variable {α β : Type} {declared : Nat → Set Closure} {known : Set Closure → α → Prop}
  {known' : Set Closure → β → Prop} {s s' : Session}

theorem memory_of_eq {r : Outcome α × Session} {o : Outcome α} (h : Leaves declared known s r)
    (hr : r = (o, s')) : s'.memory.Known (s'.inSight declared) := by
  rw [hr] at h
  exact h.memory

theorem value_of_eq {r : Outcome α × Session} {a : α} (h : Leaves declared known s r)
    (hr : r = (.value a, s')) : known (s'.inSight declared) a := by
  rw [hr] at h
  exact h.outcome

theorem size_le_of_eq {r : Outcome α × Session} {o : Outcome α} (h : Leaves declared known s r)
    (hr : r = (o, s')) : s.memory.scopes.size ≤ s'.memory.scopes.size := by
  rw [hr] at h
  exact h.size_le

theorem bind {x : Run α} {f : α → Run β} (hx : Leaves declared known s (x s))
    (hf : ∀ a s', x s = (.value a, s') → known (s'.inSight declared) a →
      s'.memory.Known (s'.inSight declared) → Leaves declared known' s' (f a s')) :
    Leaves declared known' s ((x >>= f) s) := by
  rw [bind_apply]
  rcases hresult : x s with ⟨a | v | d | _, s'⟩
  all_goals rw [hresult] at hx
  · have hrest := hf a s' hresult hx.outcome hx.memory
    exact ⟨hx.size_le.trans hrest.size_le, hrest.memory, hrest.outcome⟩
  all_goals exact ⟨hx.size_le, hx.memory, hx.outcome⟩

/-- A run that opens no scope. -/
theorem of_size_eq (hsize : s'.memory.scopes.size = s.memory.scopes.size)
    (hmemory : s'.memory.Known (s.inSight declared)) :
    Leaves declared (fun _ _ => True) s (.value (), s') := by
  refine ⟨hsize.ge, ?_, trivial⟩
  show s'.memory.Known (declared s'.memory.scopes.size)
  rw [hsize]
  exact hmemory

section

variable (hs : s.memory.Known (s.inSight declared))
include hs

theorem getName (scope : ScopeId) (name : Text) (pos : Int) :
    Leaves declared Value.Known s (Run.getName scope name pos s) := by
  unfold Run.getName
  split
  · next hget => exact ⟨le_rfl, hs, Memory.known_get hs hget⟩
  · exact ⟨le_rfl, hs, trivial⟩

theorem setName {v : Value} (hv : v.Known (s.inSight declared)) (scope : ScopeId) (name : Text)
    (pos : Int) : Leaves declared (fun _ _ => True) s (Run.setName scope name v pos s) := by
  unfold Run.setName
  split
  · exact of_size_eq (Array.size_modify ..) (Memory.known_rebind hs hv _ name)
  · exact ⟨le_rfl, hs, trivial⟩

/-- A declaration that fails leaves nothing behind. -/
theorem declareName_of_value {v : Value} (scope : ScopeId) (name : Text) (pos : Int)
    (hv : ∀ s', Run.declareName scope name v pos s = (.value (), s') →
      v.Known (s.inSight declared)) :
    Leaves declared (fun _ _ => True) s (Run.declareName scope name v pos s) := by
  unfold Run.declareName at hv ⊢
  split
  · next hcheck =>
    rw [hcheck] at hv
    exact of_size_eq (Array.size_modify ..) (Memory.known_bind hs (hv _ rfl) scope name)
  · exact ⟨le_rfl, hs, trivial⟩

theorem declareName {v : Value} (hv : v.Known (s.inSight declared)) (scope : ScopeId)
    (name : Text) (pos : Int) :
    Leaves declared (fun _ _ => True) s (Run.declareName scope name v pos s) :=
  declareName_of_value hs scope name pos fun _ _ => hv

theorem liftValue {r : Except Problem Value} (pos : Int)
    (hr : ∀ v, r = .ok v → v.Known (s.inSight declared)) :
    Leaves declared Value.Known s (Run.liftValue pos r s) := by
  cases r with
  | ok v => exact ⟨le_rfl, hs, hr v rfl⟩
  | error p => exact ⟨le_rfl, hs, trivial⟩

theorem native (n : Native) (vs : List Value) :
    Leaves declared Value.Known s (Eval.native n vs s) := by
  unfold Eval.native
  split
  all_goals exact ⟨le_rfl, hs, Value.known_empty⟩

end

section

variable (hgrows : Monotone declared)
include hgrows

theorem openScope (hs : s.memory.Known (s.inSight declared)) (outer : ScopeId) :
    Leaves declared (fun _ _ => True) s (Run.openScope outer s) := by
  have hsize : s.memory.scopes.size ≤ (s.memory.enclose outer).2.scopes.size := by
    rw [(Session.size_enclose s.memory outer).2]
    exact Nat.le_succ _
  exact ⟨hsize, (Memory.known_enclose hs outer).mono (Session.inSight_mono hgrows hsize), trivial⟩

theorem bindParams (hs : s.memory.Known (s.inSight declared)) (scope : ScopeId) (pos : Int)
    (names : List Text) {vs : List Value} (hvs : ∀ v ∈ vs, v.Known (s.inSight declared)) :
    Leaves declared (fun _ _ => True) s (Eval.bindParams scope pos names vs s) := by
  induction names generalizing vs s with
  | nil => exact ⟨le_rfl, hs, trivial⟩
  | cons name names ih =>
      cases vs with
      | nil => exact ⟨le_rfl, hs, trivial⟩
      | cons v vs =>
          rw [List.forall_mem_cons] at hvs
          have hfirst := declareName hs hvs.1 scope name pos
          refine bind hfirst fun _ s' hs' _ hknown => ih hknown fun w hw => ?_
          exact (hvs.2 w hw).mono (Session.inSight_mono hgrows (hfirst.size_le_of_eq hs'))

theorem prologue (hs : s.memory.Known (s.inSight declared)) (c : Closure) {vs : List Value}
    (hvs : ∀ v ∈ vs, v.Known (s.inSight declared)) (pos : Int) :
    Leaves declared (fun _ _ => True) s (Eval.prologue c vs pos s) := by
  have hguard : Leaves declared (fun _ _ => True) s (Run.guardCalls pos s) := by
    unfold Run.guardCalls
    split <;> exact ⟨le_rfl, hs, trivial⟩
  refine bind hguard fun _ s₁ h₁ _ hs₁ => ?_
  have hopen := openScope hgrows hs₁ c.scope
  refine bind hopen fun inner s₂ h₂ _ hs₂ => ?_
  have hle := (hguard.size_le_of_eq h₁).trans (hopen.size_le_of_eq h₂)
  have hvs₂ : ∀ v ∈ vs, v.Known (s₂.inSight declared) :=
    fun v hv => (hvs v hv).mono (Session.inSight_mono hgrows hle)
  exact bind (bindParams hgrows hs₂ inner pos c.params hvs₂) fun _ _ _ _ hs₃ =>
    ⟨le_rfl, hs₃, trivial⟩

end

/-- The value that the body of a function returns is that of the call. -/
theorem within {c : Closure} {x : Run Value}
    (hx : Leaves declared Value.Known (s.enter c) (x (s.enter c))) :
    Leaves declared Value.Known s (Run.within c (Run.catchReturn x) s) := by
  have hcaught : Leaves declared Value.Known (s.enter c) (Run.catchReturn x (s.enter c)) := by
    unfold Run.catchReturn
    split
    · next hresult =>
      rw [hresult] at hx
      exact ⟨hx.size_le, hx.memory, hx.outcome⟩
    · exact hx
  exact ⟨hcaught.size_le, hcaught.memory, hcaught.outcome⟩

end Leaves

/-! ## Declarations and what they leave behind -/

/-- The value so far. -/
def Part.last : Part → Value
  | .block _ _ last | .loop _ _ _ last => last
  | _ => .empty

namespace Moment

open Run

variable {declared : Nat → Set Closure}

/-- **Declarations.** `Declares m c` says that `m` runs the declaration of a function, that the
name is free, and that `c` is the function: it remembers the scope and the chunk that are active. -/
inductive Declares : Moment → Closure → Prop where
  | intro {pos name params body scope fuel s s'}
      (h : declareName scope name (.fxn (.custom (.declared name params body scope s.chunk))) pos
        s = (.value (), s')) :
      Declares ⟨.stmt (.fxn pos name params body) scope, fuel + 1, s⟩
        (.declared name params body scope s.chunk)

/-- A function remembers the scope in which it is declared. -/
theorem Declares.scope_eq {m : Moment} {c : Closure} (h : m.Declares c) :
    c.scope = m.part.scope := by
  cases h
  rfl

/-- **A run fits** if its scope exists, and if it finds only functions that may be in sight. -/
structure Fits (declared : Nat → Set Closure) (m : Moment) : Prop where
  scope : m.part.scope < m.session.memory.scopes.size
  memory : m.session.memory.Known (m.session.inSight declared)
  last : m.part.last.Known (m.session.inSight declared)

/-- **A run is sound** if it leaves only functions behind that may then be in sight. -/
def Sound (declared : Nat → Set Closure) (m : Moment) : Prop :=
  match m.part with
  | .expr e scope => Leaves declared Value.Known m.session (Eval.expr m.fuel e scope m.session)
  | .args es scope =>
      Leaves declared (fun known vs => ∀ v ∈ vs, v.Known known) m.session
        (Eval.args m.fuel es scope m.session)
  | .stmt st scope => Leaves declared Value.Known m.session (Eval.stmt m.fuel st scope m.session)
  | .block ss scope last =>
      Leaves declared Value.Known m.session (Eval.block m.fuel ss scope last m.session)
  | .loop cond body scope last =>
      Leaves declared Value.Known m.session (Eval.loop m.fuel cond body scope last m.session)

variable {m m' : Moment}

/-- What a run is made of fits if it finds only functions that may be in sight. -/
theorem Fits.of_runs {called : Option Closure} (hm : m.Fits declared) (h : Runs m called m')
    (hmemory : m'.session.memory.Known (m'.session.inSight declared))
    (hlast : m'.part.last.Known (m'.session.inSight declared)) : m'.Fits declared :=
  ⟨h.scope_lt hm.scope, hmemory, hlast⟩

/-- What a run is made of first fits. -/
theorem Fits.of_eq {called : Option Closure} (hm : m.Fits declared) (h : Runs m called m')
    (hsession : m'.session = m.session) (hlast : m'.part.last = .empty) : m'.Fits declared := by
  refine hm.of_runs h ?_ ?_
  · rw [hsession]
    exact hm.memory
  · rw [hlast]
    exact Value.known_empty

/-- The function and the arguments of a call are evaluated soundly. -/
theorem Fits.call_leaves {pos : Int} {callee : Expr} {arguments : List Expr} {scope : ScopeId}
    {fuel : Nat} {s s₁ : Session} {f : Value}
    (hm : Fits declared ⟨.expr (.call pos callee arguments) scope, fuel + 1, s⟩)
    (hsound : ∀ m₁, Runs ⟨.expr (.call pos callee arguments) scope, fuel + 1, s⟩ none m₁ →
      m₁.Fits declared → m₁.Sound declared)
    (hcallee : Eval.expr fuel callee scope s = (.value f, s₁)) :
    Leaves declared Value.Known s (Eval.expr fuel callee scope s) ∧
      Leaves declared (fun known vs => ∀ v ∈ vs, v.Known known) s₁
        (Eval.args fuel arguments scope s₁) := by
  have hf := hsound _ .callee (hm.of_eq .callee rfl rfl)
  have harguments := hm.of_runs (.arguments hcallee) (hf.memory_of_eq hcallee) Value.known_empty
  exact ⟨hf, hsound _ (.arguments hcallee) harguments⟩

/-- **What a run is made of fits if the run does**, provided that what is run before it is
sound. -/
theorem Runs.fits {called : Option Closure} (hgrows : Monotone declared) (h : Runs m called m')
    (hm : m.Fits declared)
    (hsound : ∀ m₁, Runs m none m₁ → m₁.Fits declared → m₁.Sound declared) :
    m'.Fits declared := by
  have hempty := @Value.known_empty (m'.session.inSight declared)
  have hruns := h
  cases h with
  | group | assigned | operand | left | callee | argument | expression | returned | initial
  | ifCondition | elseCondition | loop | first | condition => exact hm.of_eq hruns rfl rfl
  | right hleft =>
      have hl := hsound _ .left (hm.of_eq .left rfl rfl)
      exact hm.of_runs hruns (hl.memory_of_eq hleft) hempty
  | arguments hcallee =>
      have hf := hsound _ .callee (hm.of_eq .callee rfl rfl)
      exact hm.of_runs hruns (hf.memory_of_eq hcallee) hempty
  | @body pos _ _ _ _ _ c vs inner _ _ s₃ hcallee harguments _ hprologue =>
      obtain ⟨-, hvs⟩ := hm.call_leaves hsound hcallee
      have hs₂ := hvs.memory_of_eq harguments
      have hs₃ : s₃.memory.Known (s₃.inSight declared) :=
        (Leaves.prologue hgrows hs₂ c (hvs.value_of_eq harguments) pos).memory_of_eq hprologue
      exact hm.of_runs hruns hs₃ hempty
  | otherArguments hargument =>
      have hv := hsound _ .argument (hm.of_eq .argument rfl rfl)
      exact hm.of_runs hruns (hv.memory_of_eq hargument) hempty
  | @braces _ _ scope _ s =>
      exact hm.of_runs hruns (Leaves.openScope hgrows hm.memory scope).memory hempty
  | ifYes hcond _ =>
      have hc := hsound _ .ifCondition (hm.of_eq .ifCondition rfl rfl)
      exact hm.of_runs hruns (hc.memory_of_eq hcond) hempty
  | elseYes hcond _ | elseNo hcond _ =>
      have hc := hsound _ .elseCondition (hm.of_eq .elseCondition rfl rfl)
      exact hm.of_runs hruns (hc.memory_of_eq hcond) hempty
  | skipped _ => exact hm.of_runs hruns hm.memory hm.last
  | others hmissing hfirst =>
      have hv := hsound _ (.first hmissing) (hm.of_eq (.first hmissing) rfl rfl)
      exact hm.of_runs hruns (hv.memory_of_eq hfirst) (hv.value_of_eq hfirst)
  | round hcond _ =>
      have hc := hsound _ .condition (hm.of_eq .condition rfl rfl)
      exact hm.of_runs hruns (hc.memory_of_eq hcond) hempty
  | otherRounds hcond htruthy hround =>
      have hc := hsound _ .condition (hm.of_eq .condition rfl rfl)
      have hfirst := hm.of_runs (.round hcond htruthy) (hc.memory_of_eq hcond) Value.known_empty
      have hw := hsound _ (.round hcond htruthy) hfirst
      exact hm.of_runs hruns (hw.memory_of_eq hround) (hw.value_of_eq hround)

/-- **A function that is called** was in sight when the scope of the call was opened. -/
theorem Runs.called_mem {c : Closure} (hgrows : Monotone declared) (h : Runs m (some c) m')
    (hm : m.Fits declared)
    (hsound : ∀ m₁, Runs m none m₁ → m₁.Fits declared → m₁.Sound declared) :
    c ∈ declared m'.part.scope := by
  cases h with
  | body hcallee harguments _ hprologue =>
      obtain ⟨hf, hvs⟩ := hm.call_leaves hsound hcallee
      obtain ⟨rfl, -⟩ := Eval.later_of_prologue hprologue
      exact hgrows (hvs.size_le_of_eq harguments) (hf.value_of_eq hcallee c rfl)

/-! ## Soundness -/

section

variable {fuel : Nat} {scope : ScopeId} {s : Session}

private theorem block_sound {ss : List Stmt} {last : Value}
    (hm : Fits declared ⟨.block ss scope last, fuel, s⟩)
    (hparts : ∀ called m', Runs ⟨.block ss scope last, fuel, s⟩ called m' → m'.Sound declared) :
    Leaves declared Value.Known s (Eval.block fuel ss scope last s) := by
  cases fuel with
  | zero => exact ⟨le_rfl, hm.memory, trivial⟩
  | succ fuel =>
      cases ss with
      | nil => exact ⟨le_rfl, hm.memory, hm.last⟩
      | cons st rest =>
          cases hmissing : st.isMissing with
          | true =>
              rw [Eval.block_cons_missing hmissing]
              exact hparts none _ (.skipped hmissing)
          | false =>
              rw [Eval.block_cons_present hmissing]
              refine .bind (hparts none _ (.first hmissing)) fun v s₁ hv _ _ => ?_
              exact hparts none _ (.others hmissing hv)

variable (hgrows : Monotone declared)
include hgrows

private theorem apply_sound {f : Callable} {vs : List Value} {pos : Int}
    (hs : s.memory.Known (s.inSight declared)) (hvs : ∀ v ∈ vs, v.Known (s.inSight declared))
    (hbody : ∀ c fuel' inner s₃, f = .custom c → fuel = fuel' + 1 →
      Eval.prologue c vs pos s = (.value inner, s₃) →
      Leaves declared Value.Known (s₃.enter c)
        (Eval.block fuel' c.body inner .empty (s₃.enter c))) :
    Leaves declared Value.Known s (Eval.apply fuel f vs pos s) := by
  cases fuel with
  | zero => exact ⟨le_rfl, hs, trivial⟩
  | succ fuel =>
      cases f with
      | unassigned => exact ⟨le_rfl, hs, Value.known_empty⟩
      | native n => exact .native hs n vs
      | custom c =>
          rw [Eval.apply_custom]
          refine .bind (.prologue hgrows hs c hvs pos) fun inner s₃ hprologue _ _ => ?_
          exact .within (hbody c fuel inner s₃ rfl rfl hprologue)

private theorem call_sound {pos : Int} {callee : Expr} {arguments : List Expr}
    (hparts : ∀ called m', Runs ⟨.expr (.call pos callee arguments) scope, fuel + 1, s⟩ called m' →
      m'.Sound declared) :
    Leaves declared Value.Known s (Eval.expr (fuel + 1) (.call pos callee arguments) scope s) := by
  rw [Eval.expr_call]
  refine .bind (hparts none _ .callee) fun f s₁ hf _ _ => ?_
  refine .bind (hparts none _ (.arguments hf)) fun vs s₂ hvs hknown hs₂ => ?_
  rcases Eval.invoke_cases fuel f vs pos with ⟨p, hp, -⟩ | ⟨g, rfl, hg, harity⟩
  · rw [hp]
    exact ⟨le_rfl, hs₂, trivial⟩
  · rw [hg]
    refine apply_sound hgrows hs₂ hknown ?_
    rintro c fuel' inner s₃ rfl rfl hprologue
    exact hparts (some c) _ (.body hf hvs (harity c rfl) hprologue)

private theorem expr_sound {e : Expr} (hm : Fits declared ⟨.expr e scope, fuel, s⟩)
    (hparts : ∀ called m', Runs ⟨.expr e scope, fuel, s⟩ called m' → m'.Sound declared) :
    Leaves declared Value.Known s (Eval.expr fuel e scope s) := by
  have hs : s.memory.Known (s.inSight declared) := hm.memory
  cases fuel with
  | zero => exact ⟨le_rfl, hs, trivial⟩
  | succ fuel =>
      cases e with
      | missing => exact ⟨le_rfl, hs, Value.known_empty⟩
      | num _ _ | str _ _ | bool _ _ =>
          exact ⟨le_rfl, hs, Value.known_of_tag_ne Tag.noConfusion⟩
      | ident pos name | symbol pos name => exact .getName hs scope name pos
      | group pos inner => exact hparts none _ .group
      | assign pos name value =>
          refine .bind (hparts none _ .assigned) fun v s₁ _ hv hs₁ => ?_
          have hset := Leaves.setName hs₁ hv scope name pos
          refine hset.bind fun _ s₂ h₂ _ hs₂ => ⟨le_rfl, hs₂, ?_⟩
          exact hv.mono (Session.inSight_mono hgrows (hset.size_le_of_eq h₂))
      | unary pos op operand =>
          refine .bind (hparts none _ .operand) fun v s₁ _ _ hs₁ => ?_
          exact .liftValue hs₁ pos fun _ => Value.known_unary
      | binary pos op left right =>
          refine .bind (hparts none _ .left) fun l s₁ hl _ _ => ?_
          refine .bind (hparts none _ (.right hl)) fun r s₂ _ _ hs₂ => ?_
          exact .liftValue hs₂ pos fun _ => Value.known_binary
      | call pos callee arguments => exact call_sound hgrows hparts

private theorem args_sound {es : List Expr} (hm : Fits declared ⟨.args es scope, fuel, s⟩)
    (hparts : ∀ called m', Runs ⟨.args es scope, fuel, s⟩ called m' → m'.Sound declared) :
    Leaves declared (fun known vs => ∀ v ∈ vs, v.Known known) s (Eval.args fuel es scope s) := by
  cases fuel with
  | zero => exact ⟨le_rfl, hm.memory, trivial⟩
  | succ fuel =>
      cases es with
      | nil => exact ⟨le_rfl, hm.memory, List.forall_mem_nil _⟩
      | cons e es =>
          refine .bind (hparts none _ .argument) fun v s₁ hv hknown _ => ?_
          have hothers := hparts none _ (.otherArguments hv)
          refine hothers.bind fun vs s₂ h₂ hvs hs₂ => ⟨le_rfl, hs₂, ?_⟩
          have hsize := hothers.size_le_of_eq h₂
          exact List.forall_mem_cons.mpr ⟨hknown.mono (Session.inSight_mono hgrows hsize), hvs⟩

private theorem stmt_sound {st : Stmt} (hm : Fits declared ⟨.stmt st scope, fuel, s⟩)
    (hparts : ∀ called m', Runs ⟨.stmt st scope, fuel, s⟩ called m' → m'.Sound declared)
    (hdeclares : ∀ c, Declares ⟨.stmt st scope, fuel, s⟩ c → c ∈ s.inSight declared) :
    Leaves declared Value.Known s (Eval.stmt fuel st scope s) := by
  have hs : s.memory.Known (s.inSight declared) := hm.memory
  cases fuel with
  | zero => exact ⟨le_rfl, hs, trivial⟩
  | succ fuel =>
      cases st with
      | missing => exact ⟨le_rfl, hs, Value.known_empty⟩
      | expr pos e => exact hparts none _ .expression
      | ret pos value =>
          refine .bind (hparts none _ .returned) fun v s₁ _ hv hs₁ => ?_
          have hecho : Leaves declared (fun known _ => v.Known known) s₁ (Run.echo v s₁) := by
            unfold Run.echo
            split <;> exact ⟨le_rfl, hs₁, hv⟩
          exact hecho.bind fun _ _ _ hv₂ hs₂ => ⟨le_rfl, hs₂, hv₂⟩
      | block pos body =>
          refine .bind (.openScope hgrows hs scope) fun inner s₁ hopen _ _ => ?_
          cases hopen
          exact hparts none _ .braces
      | declare pos type name init =>
          refine .bind (hparts none _ .initial) fun v s₁ _ hv hs₁ => ?_
          split
          · exact .bind (.declareName hs₁ hv scope name pos) fun _ _ _ _ hs₂ =>
              ⟨le_rfl, hs₂, Value.known_empty⟩
          · exact ⟨le_rfl, hs₁, trivial⟩
      | ifThen pos cond yes =>
          refine .bind (hparts none _ .ifCondition) fun c s₁ hc _ hs₁ => ?_
          split
          · next htruthy => exact hparts none _ (.ifYes hc htruthy)
          · exact ⟨le_rfl, hs₁, Value.known_empty⟩
      | ifElse pos cond yes no =>
          refine .bind (hparts none _ .elseCondition) fun c s₁ hc _ _ => ?_
          split
          · next htruthy => exact hparts none _ (.elseYes hc htruthy)
          · next htruthy => exact hparts none _ (.elseNo hc (Bool.eq_false_iff.mpr htruthy))
      | loop pos cond body => exact hparts none _ .loop
      | fxn pos name params body =>
          -- the function comes into sight only if its name was free
          have hactive : Leaves declared (fun _ _ => True) s (activeChunk s) :=
            ⟨le_rfl, hs, trivial⟩
          refine .bind hactive fun chunk s₁ hchunk _ _ => ?_
          cases hchunk
          refine .bind (.declareName_of_value hs scope name pos fun s' hs' => ?_) fun _ _ _ _ hs₂ =>
            ⟨le_rfl, hs₂, Value.known_empty⟩
          rintro _ ⟨⟩
          exact hdeclares _ (.intro hs')

private theorem loop_sound {cond : Expr} {body : Stmt} {last : Value}
    (hm : Fits declared ⟨.loop cond body scope last, fuel, s⟩)
    (hparts : ∀ called m', Runs ⟨.loop cond body scope last, fuel, s⟩ called m' →
      m'.Sound declared) :
    Leaves declared Value.Known s (Eval.loop fuel cond body scope last s) := by
  cases fuel with
  | zero => exact ⟨le_rfl, hm.memory, trivial⟩
  | succ fuel =>
      have hcond := hparts none _ .condition
      refine hcond.bind fun c s₁ hc _ hs₁ => ?_
      split
      · next htruthy =>
        refine .bind (hparts none _ (.round hc htruthy)) fun w s₂ hw _ _ => ?_
        exact hparts none _ (.otherRounds hc htruthy hw)
      · exact ⟨le_rfl, hs₁, hm.last.mono (Session.inSight_mono hgrows (hcond.size_le_of_eq hc))⟩

/-- **A run is sound if the runs that it is made of are**, and if it declares only functions that
may be in sight. -/
theorem Fits.sound {m : Moment} (hm : m.Fits declared)
    (hparts : ∀ called m', Runs m called m' → m'.Sound declared)
    (hdeclares : ∀ c, m.Declares c → c ∈ m.session.inSight declared) : m.Sound declared := by
  obtain ⟨part, fuel, s⟩ := m
  cases part with
  | expr e scope => exact expr_sound hgrows hm hparts
  | args es scope => exact args_sound hgrows hm hparts
  | stmt st scope => exact stmt_sound hgrows hm hparts hdeclares
  | block ss scope last => exact block_sound hm hparts
  | loop cond body scope last => exact loop_sound hgrows hm hparts

end

end Moment

end Badger
