import Badger.Proofs.Session.Provenance
import Badger.Proofs.Session.WellFormed

/-!
# Calls that go ahead

A call goes ahead once its callee is a function and it has as many arguments as the function takes.
In a session that started new, such a function is one that can be called: there is always an
argument for each parameter, the scope of the function exists, and the callable that is none is
never called.

## Main definitions

* `Moment.WellPlaced`: a moment in a well-formed session, in a scope that exists
* `Moment.Kept`: that a run keeps the session well formed
* `Moment.Dispatches`: a call that goes ahead, with its function and its arguments

## Main statements

* `Moment.Runs.wellPlaced`: what a run is made of is well placed if the run is
* `Moment.Dispatches.expr_eq`, `Moment.dispatches_or_raises`: what a call comes to
* `Moment.WellPlaced.dispatches`: a call that goes ahead is in order
* `Session.memory_wellFormed`: **calls and searches cannot go wrong** in a session
-/

namespace Badger

namespace Moment

open Session Run

variable {options : Options} {m m' : Moment}

/-! ## Moments in well-formed sessions -/

/-- **A well-placed moment**: the session is well formed, and the scope exists. -/
structure WellPlaced (options : Options) (m : Moment) : Prop where
  session : m.session.WellFormed options
  scope : m.part.scope < m.session.memory.scopes.size
  last : m.part.last.Sound m.session.memory.scopes.size

/-- **The run keeps the session well formed**, at every moment and however it ends, and comes to
values that can be called if they are functions. -/
def Kept (options : Options) (m : Moment) : Prop :=
  match m.part with
  | .expr e scope =>
      Session.Kept options Value.Sound m.session (Eval.expr m.fuel e scope m.session)
  | .args es scope =>
      Session.Kept options (fun scopes vs => ∀ v ∈ vs, v.Sound scopes) m.session
        (Eval.args m.fuel es scope m.session)
  | .stmt st scope =>
      Session.Kept options Value.Sound m.session (Eval.stmt m.fuel st scope m.session)
  | .block ss scope last =>
      Session.Kept options Value.Sound m.session (Eval.block m.fuel ss scope last m.session)
  | .loop cond body scope last =>
      Session.Kept options Value.Sound m.session (Eval.loop m.fuel cond body scope last m.session)

theorem WellPlaced.kept (hm : m.WellPlaced options) : m.Kept options := by
  obtain ⟨part, fuel, s⟩ := m
  obtain ⟨hs, hscope, hlast⟩ := hm
  have h := Eval.evalKeeps options fuel
  cases part with
  | expr e scope => exact h.expr e hscope s hs le_rfl
  | args es scope => exact h.args es hscope s hs le_rfl
  | stmt st scope => exact h.stmt st hscope s hs le_rfl
  | block ss scope last => exact h.block ss hscope hlast s hs le_rfl
  | loop cond body scope last => exact h.loop cond body hscope hlast s hs le_rfl

section

variable {fuel : Nat} {scope : ScopeId} {s s' : Session}

private theorem wellFormed_expr {e : Expr} {v : Value} (hs : s.WellFormed options)
    (hscope : scope < s.memory.scopes.size) (h : Eval.expr fuel e scope s = (.value v, s')) :
    s'.WellFormed options ∧ v.Sound s'.memory.scopes.size :=
  ((Eval.evalKeeps options fuel).expr e hscope).of_value hs le_rfl h

private theorem wellFormed_stmt {st : Stmt} {v : Value} (hs : s.WellFormed options)
    (hscope : scope < s.memory.scopes.size) (h : Eval.stmt fuel st scope s = (.value v, s')) :
    s'.WellFormed options ∧ v.Sound s'.memory.scopes.size :=
  ((Eval.evalKeeps options fuel).stmt st hscope).of_value hs le_rfl h

/-- The function and the arguments of a call. -/
private theorem wellFormed_call {callee : Expr} {arguments : List Expr} {f : Value}
    {vs : List Value} {s'' : Session} (hs : s.WellFormed options)
    (hscope : scope < s.memory.scopes.size)
    (hcallee : Eval.expr fuel callee scope s = (.value f, s'))
    (harguments : Eval.args fuel arguments scope s' = (.value vs, s'')) :
    s''.WellFormed options ∧ f.Sound s''.memory.scopes.size ∧
      ∀ v ∈ vs, v.Sound s''.memory.scopes.size := by
  obtain ⟨hs', hf⟩ := wellFormed_expr hs hscope hcallee
  have hle := (((Eval.evalConfined fuel).expr callee scope).later_of_eq hcallee).size_le
  have hle' := (((Eval.evalConfined fuel).args arguments scope).later_of_eq harguments).size_le
  have hkeeps := (Eval.evalKeeps options fuel).args arguments (hscope.trans_le hle)
  obtain ⟨hs'', hvs⟩ := hkeeps.of_value hs' le_rfl harguments
  exact ⟨hs'', hf.mono hle', hvs⟩

end

/-- **What a run is made of is well placed if the run is.** -/
theorem Runs.wellPlaced {called : Option Closure} (h : Runs m called m')
    (hm : m.WellPlaced options) : m'.WellPlaced options := by
  obtain ⟨hs, hscope, hlast⟩ := hm
  suffices hafter : m'.session.WellFormed options ∧
      m'.part.last.Sound m'.session.memory.scopes.size from
    ⟨hafter.1, h.scope_lt hscope, hafter.2⟩
  cases h with
  | group | assigned | operand | left | callee | argument | expression | returned | initial
  | ifCondition | elseCondition | loop | first | condition => exact ⟨hs, Value.sound_empty⟩
  | skipped => exact ⟨hs, hlast⟩
  | right hrun | arguments hrun | otherArguments hrun | ifYes hrun _ | elseYes hrun _
  | elseNo hrun _ | round hrun _ => exact ⟨(wellFormed_expr hs hscope hrun).1, Value.sound_empty⟩
  | others _ hfirst => exact wellFormed_stmt hs hscope hfirst
  | otherRounds hcond _ hround =>
      have hle := (((Eval.evalConfined _).expr _ _).later_of_eq hcond).size_le
      exact wellFormed_stmt (wellFormed_expr hs hscope hcond).1 (hscope.trans_le hle) hround
  | braces => exact ⟨hs.openScope hscope, Value.sound_empty⟩
  | @body pos _ _ _ _ _ c _ _ _ _ s₃ hcallee harguments _ hprologue =>
      obtain ⟨hs₂, hf, hvs⟩ := wellFormed_call hs hscope hcallee harguments
      rcases hf _ rfl with ⟨n, hn, -⟩ | ⟨c', hc, -, hclosure⟩
      · cases hn
      · cases hc
        obtain ⟨hs₃, -⟩ := (Eval.prologue_keeps hclosure hvs pos).of_value hs₂ le_rfl hprologue
        exact ⟨hs₃.congr rfl rfl rfl, Value.sound_empty⟩

theorem Visits.wellPlaced (h : m.Visits m') (hm : m.WellPlaced options) :
    m'.WellPlaced options := by
  induction h with
  | refl => exact hm
  | tail _ hruns ih =>
      obtain ⟨called, hruns⟩ := hruns
      exact hruns.wellPlaced ih

/-! ## Calls that go ahead -/

/-- **A call goes ahead**: its callee is a function, its arguments have values, and they are as many
as the function takes, if it is one that takes a number of them. -/
inductive Dispatches : Moment → Callable → List Value → Session → Prop where
  | intro {pos callee arguments scope fuel s s₁ s₂ f vs}
      (hcallee : Eval.expr fuel callee scope s = (.value (.fxn f), s₁))
      (harguments : Eval.args fuel arguments scope s₁ = (.value vs, s₂))
      (harity : ∀ n, f.arity? = some n → vs.length = n) :
      Dispatches ⟨.expr (.call pos callee arguments) scope, fuel + 1, s⟩ f vs s₂

section

variable {f : Callable} {vs : List Value} {s s₁ s₂ : Session} {pos : Int} {callee : Expr}
  {arguments : List Expr} {scope : ScopeId} {fuel : Nat}

/-- A function that gets as many arguments as it takes is applied to them. -/
private theorem invoke_eq_apply (harity : ∀ n, f.arity? = some n → vs.length = n) :
    Eval.invoke fuel (.fxn f) vs pos = Eval.apply fuel f vs pos := by
  unfold Eval.invoke
  dsimp only
  split
  · next n hn => rw [if_pos (harity n hn)]
  · rfl

/-- A call that goes ahead comes to what its function does with the arguments. -/
theorem Dispatches.expr_eq
    (h : Dispatches ⟨.expr (.call pos callee arguments) scope, fuel + 1, s⟩ f vs s₂) :
    Eval.expr (fuel + 1) (.call pos callee arguments) scope s = Eval.apply fuel f vs pos s₂ := by
  cases h with
  | intro hcallee harguments harity =>
      rw [Eval.expr_call, bind_value hcallee, bind_value harguments, invoke_eq_apply harity]

/-- A call that has its callee and its arguments is refused or goes ahead. -/
theorem dispatches_or_raises {v : Value}
    (hcallee : Eval.expr fuel callee scope s = (.value v, s₁))
    (harguments : Eval.args fuel arguments scope s₁ = (.value vs, s₂)) :
    (∃ p, Eval.expr (fuel + 1) (.call pos callee arguments) scope s = Run.raise p pos s₂) ∨
      ∃ f, v = .fxn f ∧
        Dispatches ⟨.expr (.call pos callee arguments) scope, fuel + 1, s⟩ f vs s₂ := by
  rw [Eval.expr_call, bind_value hcallee, bind_value harguments]
  cases v with
  | num _ | str _ | bool _ => exact .inl ⟨_, rfl⟩
  | fxn f =>
      by_cases harity : ∀ n, f.arity? = some n → vs.length = n
      · exact .inr ⟨f, rfl, hcallee, harguments, harity⟩
      · obtain ⟨n, hne⟩ := not_forall.mp harity
        obtain ⟨hn, hne⟩ := Classical.not_imp.mp hne
        refine .inl ⟨.arity n vs.length, ?_⟩
        unfold Eval.invoke
        simp only [hn, if_neg hne]

/-- **A call that goes ahead is in order.** It is no call of the callable that is none; a provided
function gets its one argument; a declared function gets an argument for each parameter, and its
scope exists. -/
theorem WellPlaced.dispatches (hm : m.WellPlaced options) (h : m.Dispatches f vs s₂) :
    s₂.WellFormed options ∧ f ≠ .unassigned ∧ (∀ n, f = .native n → ∃ v, vs = [v]) ∧
      ∀ c, f = .custom c → vs.length = c.params.length ∧ c.scope < s₂.memory.scopes.size := by
  cases h with
  | intro hcallee harguments harity =>
      obtain ⟨hs₂, hf, -⟩ := wellFormed_call hm.session hm.scope hcallee harguments
      rcases hf f rfl with ⟨n, rfl, hn⟩ | ⟨c, rfl, hc, hscope⟩
      · refine ⟨hs₂, nofun, fun _ _ => List.length_eq_one_iff.mp (harity 1 hn), nofun⟩
      · refine ⟨hs₂, nofun, nofun, ?_⟩
        rintro _ ⟨⟩
        exact ⟨harity _ hc, hscope⟩

end

end Moment

/-! ## Sessions -/

namespace Session

/-- **Calls and searches cannot go wrong.** A session that started new goes through well-formed
sessions only, whatever is done with it. In a well-formed session the way out of a scope is finite,
each scope on it older than the one before, and a search that may visit as many scopes as there are
gets to the end. Whatever an evaluation comes to is run in a well-formed session and keeps it so,
and comes to values that can be called if they are functions; and every call that goes ahead is in
order. -/
theorem memory_wellFormed (options : Options) (steps : List Step) :
    let s := (new options).after steps
    (new options).WellFormed options ∧ Onward options (new options) s ∧
    (∀ s' : Session, s'.WellFormed options →
      WellFounded s'.memory.Around ∧ (∀ outer id, s'.memory.Around outer id → outer < id) ∧
      ∀ id < s'.memory.scopes.size, ∀ (name : Text) (limit limit' : Nat),
        s'.memory.search limit name s'.memory.scopes.size (some id) ≠ .error (.tooDeep limit')) ∧
    ∀ (e : Evaluation) (start m : Moment), s.begin? e = some start → start.Visits m →
      m.session.WellFormed options ∧ m.Kept options ∧
      ∀ (f : Callable) (vs : List Value) (s₂ : Session), m.Dispatches f vs s₂ →
        s₂.WellFormed options ∧ f ≠ .unassigned ∧ (∀ n, f = .native n → ∃ v, vs = [v]) ∧
        ∀ c, f = .custom c → vs.length = c.params.length ∧ c.scope < s₂.memory.scopes.size := by
  intro s
  have hnew := wellFormed_new options
  have honward := onward_after hnew steps
  refine ⟨hnew, honward, fun s' hs' => ?_, fun e start m hstart hvisits => ?_⟩
  · have hordered := hs'.memory.ordered
    exact ⟨hordered.wellFounded_around, fun _ _ => hordered.lt_of_around,
      fun _ hid => hordered.search_ne_tooDeep_size hid⟩
  · have hs : s.WellFormed options := honward.wellFormed hnew
    obtain ⟨-, rfl⟩ := begin?_eq_some hstart
    have hplaced : Moment.WellPlaced options
        ⟨.block e.program.stmts s.globals .empty, e.fuel, s.setChunk e.chunk⟩ :=
      ⟨hs.congr rfl rfl rfl, hs.globals, Value.sound_empty⟩
    have hm := hvisits.wellPlaced hplaced
    exact ⟨hm.session, hm.kept, fun f vs s₂ => hm.dispatches⟩

/-- A function that is declared in one text and called from the next. -/
theorem memory_wellFormed_call :
    let a : Evaluation := ⟨60, utf8 "a", utf8 "fxn f(x) \x7b print(x); \x7d"⟩
    let b : Evaluation := ⟨60, utf8 "b", utf8 "f(1);"⟩
    let s := (new {}).after [a.step]
    ∃ start m c s₂, s.begin? b = some start ∧ start.Visits m ∧
      m.Dispatches (.custom c) [.num 1] s₂ ∧ m.Kept {} ∧ s₂.WellFormed {} ∧
      WellFounded s₂.memory.Around ∧ c.params.length = 1 ∧
      c.scope < s₂.memory.scopes.size := by
  intro a b s
  obtain ⟨-, -, hways, hruns⟩ := memory_wellFormed {} [a.step]
  obtain ⟨start, hstart⟩ := Option.isSome_iff_exists.mp
    (show (s.begin? b).isSome = true by decide +kernel)
  obtain ⟨-, rfl⟩ := begin?_eq_some hstart
  have hstmts : b.program.stmts = [.expr 0 (.call 1 (.ident 0 (utf8 "f")) [.num 2 1])] := by rfl
  have hglobals : s.globals = 0 := by decide +kernel
  -- the name denotes a declared function of one parameter
  have hdeclared : (s.memory.get 0 (utf8 "f")).toOption.map (fun v => (v.isCustom,
      v.casesOn (fun _ => none) (fun _ => none) (fun _ => none) Callable.arity?)) =
      some (true, some 1) := by decide +kernel
  obtain ⟨v, hv, hkind⟩ := Option.map_eq_some_iff.mp hdeclared
  obtain ⟨hcustom, harity⟩ := Prod.mk.inj hkind
  obtain ⟨c, rfl⟩ : ∃ c, v = .fxn (.custom c) := by
    unfold Value.isCustom at hcustom
    split at hcustom
    · exact ⟨_, rfl⟩
    · cases hcustom
  have hone : c.arity = 1 := Option.some.inj harity
  have hget : s.memory.get 0 (utf8 "f") = .ok (.fxn (.custom c)) := by
    cases hresult : s.memory.get 0 (utf8 "f") with
    | error p =>
        rw [hresult] at hv
        cases hv
    | ok w =>
        rw [hresult] at hv
        cases hv
        rfl
  rw [hstmts, hglobals] at hstart
  have hkeeps (s : Session) (chunk : Chunk) : (s.setChunk chunk).memory = s.memory := rfl
  have hmemory := hkeeps s b.chunk
  generalize s.setChunk b.chunk = s₂ at hstart hmemory
  let e : Expr := .call 1 (.ident 0 (utf8 "f")) [.num 2 1]
  have hfirst : Moment.Runs ⟨.block [.expr 0 e] 0 .empty, 60, s₂⟩ none
      ⟨.stmt (.expr 0 e) 0, 59, s₂⟩ := .first rfl
  have hcall : Moment.Runs ⟨.stmt (.expr 0 e) 0, 59, s₂⟩ none ⟨.expr e 0, 58, s₂⟩ := .expression
  have hvisits : Moment.Visits ⟨.block [.expr 0 e] 0 .empty, 60, s₂⟩ ⟨.expr e 0, 58, s₂⟩ :=
    .head ⟨none, hfirst⟩ (.single ⟨none, hcall⟩)
  have hcallee : Eval.expr 57 (.ident 0 (utf8 "f")) 0 s₂ = (.value (.fxn (.custom c)), s₂) := by
    show Run.getName 0 (utf8 "f") 0 s₂ = _
    unfold Run.getName
    rw [hmemory, hget]
  have hdispatches : Moment.Dispatches ⟨.expr e 0, 58, s₂⟩ (.custom c) [.num 1] s₂ :=
    .intro hcallee rfl fun n hn => hone.symm.trans (Option.some.inj hn)
  obtain ⟨-, hkept, hcalls⟩ := hruns b _ _ hstart hvisits
  obtain ⟨hs₂, -, -, hcustom⟩ := hcalls _ _ _ hdispatches
  obtain ⟨hparams, hscope⟩ := hcustom c rfl
  exact ⟨_, _, c, s₂, hstart, hvisits, hdispatches, hkept, hs₂, (hways s₂ hs₂).1, hparams.symm,
    hscope⟩

end Session

end Badger
