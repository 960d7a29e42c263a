import Badger.Proofs.Scope.WellFormed
import Badger.Proofs.Session.Declared

/-!
# Well-formed sessions

Whatever is done with a session, its memory stays well formed at every moment, also on the way and
also where a run fails: scopes are enclosed by older ones and have the limit of the session, and
every function that is stored or comes out of an evaluation can be called.

## Main definitions

* `Session.WellFormed`: a session whose memory is well formed and whose global scope exists
* `Session.Onward`: sequences of moves through well-formed sessions
* `Session.Kept`: a run that goes onward and comes to values that can be called
* `Run.Keeps`: a part of a program whose runs do so

## Main statements

* `Run.Keeps.bind`: parts one after the other
* `Eval.evalKeeps`: evaluation keeps sessions well formed, at every budget
* `Session.onward_after`: **a session stays well formed**

## Design notes

What a part of a program needs of a session it still has in every later one, since scopes only
become more. A part is therefore judged by a number of scopes from which on it keeps sessions well
formed, and the parts that follow it by a greater one.
-/

namespace Badger

/-! ## Well-formed sessions -/

namespace Session

variable {options : Options} {s s' s'' : Session}

/-- **A well-formed session** with the given options. -/
structure WellFormed (options : Options) (s : Session) : Prop where
  options_eq : s.options = options
  memory : s.memory.WellFormed options.scopeDepth
  globals : s.globals < s.memory.scopes.size

namespace WellFormed

/-- What is active and what was written does not matter. -/
theorem congr (hs : s.WellFormed options) (hoptions : s'.options = s.options)
    (hmemory : s'.memory = s.memory) (hglobals : s'.globals = s.globals) :
    s'.WellFormed options := by
  refine ⟨hoptions.trans hs.options_eq, ?_, ?_⟩
  · rw [hmemory]
    exact hs.memory
  · rw [hmemory, hglobals]
    exact hs.globals

/-- A memory with no fewer scopes. -/
theorem updateMemory (hs : s.WellFormed options) {f : Memory → Memory}
    (hmemory : (f s.memory).WellFormed options.scopeDepth)
    (hsize : s.memory.scopes.size ≤ (f s.memory).scopes.size) :
    (s.updateMemory f).WellFormed options :=
  ⟨hs.options_eq, hmemory, hs.globals.trans_le hsize⟩

theorem openScope (hs : s.WellFormed options) {outer : ScopeId}
    (houter : outer < s.memory.scopes.size) : (s.openScope outer).2.WellFormed options :=
  ⟨hs.options_eq, hs.memory.enclose houter,
    hs.globals.trans_le ((Nat.le_succ _).trans (size_enclose s.memory outer).2.ge)⟩

end WellFormed

/-- The provided functions take one argument each. -/
theorem sound_of_provided {name : Text} {v : Value} (h : provided.lookup name = some v)
    (scopes : Nat) : v.Sound scopes := by
  have hmem := mem_of_lookup h
  simp only [provided, List.map_cons, List.map_nil, List.mem_cons, Prod.mk.injEq, List.not_mem_nil,
    or_false] at hmem
  rcases hmem with ⟨-, rfl⟩ | ⟨-, rfl⟩
  · rintro _ ⟨⟩
    exact .inl ⟨.println, rfl, rfl⟩
  · rintro _ ⟨⟩
    exact .inl ⟨.print, rfl, rfl⟩

/-- Forgetting every declaration opens a scope with the limit of the session. -/
theorem wellFormed_reset (hoptions : s.options = options)
    (hmemory : s.memory.WellFormed options.scopeDepth) : s.reset.WellFormed options := by
  refine ⟨hoptions, hmemory.add (fun _ h => by cases h) (congrArg Options.scopeDepth hoptions)
    fun name v h => sound_of_provided h _, ?_⟩
  exact (Nat.lt_succ_self _).trans_le (Array.size_push _).ge

/-- **A new session is well formed.** -/
theorem wellFormed_new (options : Options) : (new options).WellFormed options :=
  wellFormed_reset rfl .empty

/-! ## Through well-formed sessions -/

/-- **Onward.** Moves from one session to another through well-formed sessions. -/
def Onward (options : Options) : Session → Session → Prop :=
  Relation.ReflTransGen fun s s' => Move Set.univ s s' ∧ s'.WellFormed options

namespace Onward

theorem refl (s : Session) : Onward options s s := Relation.ReflTransGen.refl

theorem trans (h : Onward options s s') (h' : Onward options s' s'') : Onward options s s'' :=
  Relation.ReflTransGen.trans h h'

theorem of_move (h : Move Set.univ s s') (hs' : s'.WellFormed options) : Onward options s s' :=
  .single ⟨h, hs'⟩

theorem later (h : Onward options s s') : Later Set.univ s s' :=
  Relation.ReflTransGen.mono (fun _ _ h => h.1) _ _ h

theorem wellFormed (h : Onward options s s') (hs : s.WellFormed options) :
    s'.WellFormed options := by
  cases h with
  | refl => exact hs
  | tail _ h => exact h.2

end Onward

/-- **What a run keeps** that starts in a session: it goes onward, and comes to a result with a
property, where so many scopes exist; a value that is returned can be called if it is a function. -/
structure Kept {α : Type} (options : Options) (good : Nat → α → Prop) (s : Session)
    (r : Outcome α × Session) : Prop where
  onward : Onward options s r.2
  outcome :
    match r.1 with
    | .value a => good r.2.memory.scopes.size a
    | .returned v => v.Sound r.2.memory.scopes.size
    | .failed _ => True
    | .outOfFuel => True

end Session

/-! ## Runs that keep sessions well formed -/

namespace Run

open Session

variable {α β : Type} {options : Options} {scopes : Nat} {good : Nat → α → Prop}
  {good' : Nat → β → Prop}

/-- **A run that keeps sessions well formed** from some number of scopes on. -/
def Keeps (options : Options) (scopes : Nat) (x : Run α) (good : Nat → α → Prop) : Prop :=
  ∀ s : Session, s.WellFormed options → scopes ≤ s.memory.scopes.size → Kept options good s (x s)

namespace Keeps

/-- A run that comes to a value leaves the session well formed. -/
theorem of_value {x : Run α} {a : α} {s s' : Session} (h : Keeps options scopes x good)
    (hs : s.WellFormed options) (hscopes : scopes ≤ s.memory.scopes.size)
    (hx : x s = (.value a, s')) : s'.WellFormed options ∧ good s'.memory.scopes.size a := by
  have hkept := h s hs hscopes
  rw [hx] at hkept
  exact ⟨hkept.onward.wellFormed hs, hkept.outcome⟩

/-- **One run after another.** -/
theorem bind {x : Run α} {f : α → Run β} (hx : Keeps options scopes x good)
    (hf : ∀ scopes' a, scopes ≤ scopes' → good scopes' a → Keeps options scopes' (f a) good') :
    Keeps options scopes (x >>= f) good' := by
  intro s hs hscopes
  have hfirst := hx s hs hscopes
  rw [bind_apply]
  rcases hresult : x s with ⟨a | v | d | _, s'⟩
  all_goals rw [hresult] at hfirst
  · have hsize : scopes ≤ s'.memory.scopes.size := hscopes.trans hfirst.onward.later.size_le
    have hrest := hf _ a hsize hfirst.outcome s' (hfirst.onward.wellFormed hs) le_rfl
    exact ⟨hfirst.onward.trans hrest.onward, hrest.outcome⟩
  all_goals exact ⟨hfirst.onward, hfirst.outcome⟩

theorem ite {p : Prop} [Decidable p] {x y : Run α} (hx : Keeps options scopes x good)
    (hy : Keeps options scopes y good) : Keeps options scopes (if p then x else y) good := by
  split
  · exact hx
  · exact hy

theorem pure {a : α} (ha : ∀ scopes' ≥ scopes, good scopes' a) :
    Keeps options scopes (Pure.pure a) good :=
  fun s _ hscopes => ⟨.refl s, ha _ hscopes⟩

/-- A value that can be called if it is a function. -/
theorem value {v : Value} (hv : v.Sound scopes) :
    Keeps options scopes (Pure.pure v) Value.Sound :=
  pure fun _ hle => hv.mono hle

theorem exhausted : Keeps options scopes Run.exhausted good :=
  fun s _ _ => ⟨.refl s, trivial⟩

theorem raise (p : Problem) (pos : Int) : Keeps options scopes (Run.raise p pos) good :=
  fun s _ _ => ⟨.refl s, trivial⟩

theorem returns {v : Value} (hv : v.Sound scopes) : Keeps options scopes (Run.returns v) good :=
  fun s _ hscopes => ⟨.refl s, hv.mono hscopes⟩

theorem liftValue {r : Except Problem Value} (pos : Int) (hr : ∀ v, r = .ok v → v.tag ≠ .fxn) :
    Keeps options scopes (Run.liftValue pos r) Value.Sound := by
  cases r with
  | ok v => exact value (Value.sound_of_tag_ne (hr v rfl))
  | error p => exact raise p pos

theorem getName (scope : ScopeId) (name : Text) (pos : Int) :
    Keeps options scopes (Run.getName scope name pos) Value.Sound := by
  intro s hs _
  unfold Run.getName
  split
  · next hget => exact ⟨.refl s, hs.memory.values.get hget⟩
  · exact ⟨.refl s, trivial⟩

theorem setName {v : Value} (hv : v.Sound scopes) (scope : ScopeId) (name : Text) (pos : Int) :
    Keeps options scopes (Run.setName scope name v pos) fun _ _ => True := by
  intro s hs hscopes
  unfold Run.setName
  split
  · next holder hset =>
    have hmemory := hs.memory.rebind (hv.mono hscopes) holder name
    have hnext : (s.updateMemory fun m => m.rebind holder name v).WellFormed options :=
      hs.updateMemory hmemory (Array.size_modify ..).ge
    exact ⟨.of_move (.assigned s hset) hnext, trivial⟩
  · exact ⟨.refl s, trivial⟩

theorem declareName {v : Value} (hv : v.Sound scopes) (scope : ScopeId) (name : Text)
    (pos : Int) : Keeps options scopes (Run.declareName scope name v pos) fun _ _ => True := by
  intro s hs hscopes
  unfold Run.declareName
  split
  · next hfree =>
    have hmemory := hs.memory.bind (hv.mono hscopes) scope name
    have hnext : (s.updateMemory fun m => m.bind scope name v).WellFormed options :=
      hs.updateMemory hmemory (Array.size_modify ..).ge
    exact ⟨.of_move (.declared s v (Set.mem_univ _) hfree) hnext, trivial⟩
  · exact ⟨.refl s, trivial⟩

/-- **A new scope** is opened in one that exists. -/
theorem openScope {outer : ScopeId} (houter : outer < scopes) :
    Keeps options scopes (Run.openScope outer) fun scopes' inner => inner < scopes' := by
  intro s hs hscopes
  obtain ⟨hnew, hsize⟩ := size_enclose s.memory outer
  refine ⟨.of_move (.opened s outer) (hs.openScope (houter.trans_le hscopes)), ?_⟩
  show (s.memory.enclose outer).1 < (s.memory.enclose outer).2.scopes.size
  rw [hnew, hsize]
  exact Nat.lt_succ_self _

theorem activeChunk : Keeps options scopes Run.activeChunk fun _ _ => True :=
  fun s _ _ => ⟨.refl s, trivial⟩

theorem guardCalls (pos : Int) : Keeps options scopes (Run.guardCalls pos) fun _ _ => True := by
  intro s _ _
  unfold Run.guardCalls
  split <;> exact ⟨.refl s, trivial⟩

theorem write (w : Write) : Keeps options scopes (Run.write w) fun _ _ => True :=
  fun s hs _ => ⟨.of_move (.wrote s w) (hs.congr rfl rfl rfl), trivial⟩

theorem echo (v : Value) : Keeps options scopes (Run.echo v) fun _ _ => True := by
  intro s hs _
  unfold Run.echo
  split
  · exact ⟨.of_move (.wrote s _) (hs.congr rfl rfl rfl), trivial⟩
  · exact ⟨.refl s, trivial⟩

/-- The value that the body of a function returns is that of the call. -/
theorem within (c : Closure) {x : Run Value} (hx : Keeps options scopes x Value.Sound) :
    Keeps options scopes (Run.within c (Run.catchReturn x)) Value.Sound := by
  intro s hs hscopes
  have henter : (s.enter c).WellFormed options := hs.congr rfl rfl rfl
  have hbody : Kept options Value.Sound (s.enter c) (Run.catchReturn x (s.enter c)) := by
    have hkept := hx (s.enter c) henter hscopes
    unfold Run.catchReturn
    split
    · next hresult =>
      rw [hresult] at hkept
      exact ⟨hkept.onward, hkept.outcome⟩
    · exact hkept
  have hleave : ((Run.catchReturn x (s.enter c)).2.leave s.chunk).WellFormed options :=
    (hbody.onward.wellFormed henter).congr rfl rfl rfl
  refine ⟨.trans (.of_move (.entered s c) henter) ?_, hbody.outcome⟩
  exact hbody.onward.trans (.of_move (.left _ s.chunk) hleave)

end Keeps

end Run

/-! ## Evaluation -/

namespace Eval

open Session Run

variable {options : Options} {fuel scopes : Nat}

theorem native_keeps (n : Native) (vs : List Value) :
    Keeps options scopes (native n vs) Value.Sound := by
  unfold native
  split
  · exact .bind (.write _) fun _ _ _ _ => .value Value.sound_empty
  · exact .bind (.write _) fun _ _ _ _ => .value Value.sound_empty
  · exact .value Value.sound_empty

theorem bindParams_keeps (scope : ScopeId) (pos : Int) (names : List Text) {vs : List Value}
    (hvs : ∀ v ∈ vs, v.Sound scopes) :
    Keeps options scopes (bindParams scope pos names vs) fun _ _ => True := by
  induction names generalizing vs scopes with
  | nil => exact .pure fun _ _ => trivial
  | cons name names ih =>
      cases vs with
      | nil => exact .pure fun _ _ => trivial
      | cons v vs =>
          rw [List.forall_mem_cons] at hvs
          refine .bind (.declareName hvs.1 scope name pos) fun _ _ hle _ => ?_
          exact ih fun w hw => (hvs.2 w hw).mono hle

/-- Before the body of a function runs, a scope is opened in that of the function. -/
theorem prologue_keeps {c : Closure} (hc : c.scope < scopes) {vs : List Value}
    (hvs : ∀ v ∈ vs, v.Sound scopes) (pos : Int) :
    Keeps options scopes (prologue c vs pos) fun scopes' inner => inner < scopes' := by
  refine .bind (.guardCalls pos) fun scopes₁ _ hle₁ _ => ?_
  refine .bind (.openScope (hc.trans_le hle₁)) fun scopes₂ inner hle₂ hinner => ?_
  have hvs₂ : ∀ v ∈ vs, v.Sound scopes₂ := fun v hv => (hvs v hv).mono (hle₁.trans hle₂)
  exact .bind (bindParams_keeps inner pos c.params hvs₂) fun _ _ hle₃ _ =>
    .pure fun _ hle => hinner.trans_le (hle₃.trans hle)

/-- **Evaluation keeps sessions well formed** within a budget, in scopes that exist. -/
structure EvalKeeps (options : Options) (fuel : Nat) : Prop where
  expr {scopes : Nat} (e : Expr) {scope : ScopeId} (h : scope < scopes) :
    Keeps options scopes (expr fuel e scope) Value.Sound
  args {scopes : Nat} (es : List Expr) {scope : ScopeId} (h : scope < scopes) :
    Keeps options scopes (args fuel es scope) fun scopes' vs => ∀ v ∈ vs, v.Sound scopes'
  apply {scopes : Nat} {f : Callable} (hf : f.Sound scopes) {vs : List Value}
    (hvs : ∀ v ∈ vs, v.Sound scopes) (pos : Int) :
    Keeps options scopes (apply fuel f vs pos) Value.Sound
  stmt {scopes : Nat} (st : Stmt) {scope : ScopeId} (h : scope < scopes) :
    Keeps options scopes (stmt fuel st scope) Value.Sound
  block {scopes : Nat} (ss : List Stmt) {scope : ScopeId} (h : scope < scopes) {last : Value}
    (hlast : last.Sound scopes) : Keeps options scopes (block fuel ss scope last) Value.Sound
  loop {scopes : Nat} (cond : Expr) (body : Stmt) {scope : ScopeId} (h : scope < scopes)
    {last : Value} (hlast : last.Sound scopes) :
    Keeps options scopes (loop fuel cond body scope last) Value.Sound

section

variable (ih : EvalKeeps options fuel) {scope : ScopeId} (h : scope < scopes)

include ih

private theorem apply_keeps {f : Callable} (hf : f.Sound scopes) {vs : List Value}
    (hvs : ∀ v ∈ vs, v.Sound scopes) (pos : Int) :
    Keeps options scopes (apply (fuel + 1) f vs pos) Value.Sound := by
  rcases hf with ⟨n, rfl, -⟩ | ⟨c, rfl, -, hscope⟩
  · exact native_keeps n vs
  · rw [apply_custom]
    refine .bind (prologue_keeps hscope hvs pos) fun _ inner _ hinner => ?_
    exact .within c (ih.block c.body hinner Value.sound_empty)

include h

private theorem call_keeps (pos : Int) (callee : Expr) (arguments : List Expr) :
    Keeps options scopes (expr (fuel + 1) (.call pos callee arguments) scope) Value.Sound := by
  rw [expr_call]
  refine .bind (ih.expr callee h) fun _ f hle hf => ?_
  refine .bind (ih.args arguments (h.trans_le hle)) fun _ vs hle' hvs => ?_
  rcases invoke_cases fuel f vs pos with ⟨p, hp, -⟩ | ⟨g, rfl, hg, -⟩
  · rw [hp]
    exact .raise p pos
  · rw [hg]
    exact ih.apply (hf.mono hle' g rfl) hvs pos

private theorem expr_keeps (e : Expr) :
    Keeps options scopes (expr (fuel + 1) e scope) Value.Sound := by
  cases e with
  | missing => exact .value Value.sound_empty
  | num _ _ | str _ _ | bool _ _ => exact .value (Value.sound_of_tag_ne Tag.noConfusion)
  | ident pos name | symbol pos name => exact .getName scope name pos
  | group _ inner => exact ih.expr inner h
  | assign pos name value =>
      refine .bind (ih.expr value h) fun _ v _ hv => ?_
      exact .bind (.setName hv scope name pos) fun _ _ hle _ => .value (hv.mono hle)
  | unary pos op operand =>
      exact .bind (ih.expr operand h) fun _ _ _ _ => .liftValue pos fun _ => Value.tag_unary
  | binary pos op left right =>
      refine .bind (ih.expr left h) fun _ _ hle _ => ?_
      refine .bind (ih.expr right (h.trans_le hle)) fun _ _ _ _ => ?_
      exact .liftValue pos fun _ => Value.tag_binary
  | call pos callee arguments => exact call_keeps ih h pos callee arguments

private theorem args_keeps (es : List Expr) :
    Keeps options scopes (args (fuel + 1) es scope)
      fun scopes' vs => ∀ v ∈ vs, v.Sound scopes' := by
  cases es with
  | nil => exact .pure fun _ _ => List.forall_mem_nil _
  | cons e es =>
      refine .bind (ih.expr e h) fun _ v hle hv => ?_
      refine .bind (ih.args es (h.trans_le hle)) fun _ vs hle' hvs => ?_
      refine .pure fun _ hle'' => List.forall_mem_cons.mpr ⟨hv.mono (hle'.trans hle''), ?_⟩
      exact fun w hw => (hvs w hw).mono hle''

private theorem stmt_keeps (st : Stmt) :
    Keeps options scopes (stmt (fuel + 1) st scope) Value.Sound := by
  have hempty {scopes' : Nat} : Keeps options scopes' (pure .empty) Value.Sound :=
    .value Value.sound_empty
  cases st with
  | missing => exact hempty
  | expr _ e => exact ih.expr e h
  | ret _ value =>
      refine .bind (ih.expr value h) fun _ v _ hv => ?_
      exact .bind (.echo v) fun _ _ hle _ => .returns (hv.mono hle)
  | block _ body =>
      exact .bind (.openScope h) fun _ _ _ hinner => ih.block body hinner Value.sound_empty
  | declare pos type name init =>
      refine .bind (ih.expr init h) fun _ v _ hv => .ite ?_ (.raise _ pos)
      exact .bind (.declareName hv scope name pos) fun _ _ _ _ => hempty
  | ifThen _ cond yes =>
      exact .bind (ih.expr cond h) fun _ _ hle _ => .ite (ih.stmt yes (h.trans_le hle)) hempty
  | ifElse _ cond yes no =>
      refine .bind (ih.expr cond h) fun _ _ hle _ => ?_
      exact .ite (ih.stmt yes (h.trans_le hle)) (ih.stmt no (h.trans_le hle))
  | loop _ cond body => exact ih.loop cond body h Value.sound_empty
  | fxn pos name params body =>
      -- the function remembers the scope in which it is declared
      refine .bind .activeChunk fun _ chunk hle _ => ?_
      have hfxn : (Value.fxn (.custom (.declared name params body scope chunk))).Sound _ :=
        Value.sound_declared name params body chunk (h.trans_le hle)
      exact .bind (.declareName hfxn scope name pos) fun _ _ _ _ => hempty

private theorem block_keeps (ss : List Stmt) {last : Value} (hlast : last.Sound scopes) :
    Keeps options scopes (block (fuel + 1) ss scope last) Value.Sound := by
  cases ss with
  | nil => exact .value hlast
  | cons st rest =>
      rw [block_cons]
      refine .ite (ih.block rest h hlast) (.bind (ih.stmt st h) fun _ v hle hv => ?_)
      exact ih.block rest (h.trans_le hle) hv

private theorem loop_keeps (cond : Expr) (body : Stmt) {last : Value}
    (hlast : last.Sound scopes) :
    Keeps options scopes (loop (fuel + 1) cond body scope last) Value.Sound := by
  rw [loop]
  refine .bind (ih.expr cond h) fun _ _ hle _ => .ite ?_ (.value (hlast.mono hle))
  refine .bind (ih.stmt body (h.trans_le hle)) fun _ v hle' hv => ?_
  exact ih.loop cond body (h.trans_le (hle.trans hle')) hv

end

/-- **Evaluation keeps sessions well formed**, at every budget. -/
theorem evalKeeps (options : Options) (fuel : Nat) : EvalKeeps options fuel := by
  induction fuel with
  | zero => constructor <;> intros <;> exact .exhausted
  | succ fuel ih =>
      exact ⟨fun e _ h => expr_keeps ih h e, fun es _ h => args_keeps ih h es,
        fun hf _ hvs pos => apply_keeps ih hf hvs pos, fun st _ h => stmt_keeps ih h st,
        fun ss _ h _ hlast => block_keeps ih h ss hlast,
        fun cond body _ h _ hlast => loop_keeps ih h cond body hlast⟩

end Eval

/-! ## What is done with a session -/

namespace Session

variable {options : Options} {s : Session}

theorem WellFormed.onward_runProgram (hs : s.WellFormed options) (fuel : Nat)
    (stmts : List Stmt) : Onward options s (s.runProgram fuel stmts).2 :=
  ((Eval.evalKeeps options fuel).block stmts hs.globals Value.sound_empty s hs le_rfl).onward

theorem WellFormed.onward_step (hs : s.WellFormed options) (step : Step) :
    Onward options s (s.step step) := by
  cases step with
  | eval fuel file text =>
      show Onward options s (s.eval fuel file text).2
      unfold eval
      split
      · exact .refl s
      · next stmts stream _ =>
        have hactive : (s.setChunk (Chunk.ofStream file text stream)).WellFormed options :=
          hs.congr rfl rfl rfl
        exact .trans (.of_move (.activated s _) hactive) (hactive.onward_runProgram fuel stmts)
  | run fuel stmts => exact hs.onward_runProgram fuel stmts
  | reset => exact .of_move (.reset s) (wellFormed_reset hs.options_eq hs.memory)

/-- **A session stays well formed**, whatever is done with it. -/
theorem onward_after (hs : s.WellFormed options) (steps : List Step) :
    Onward options s (s.after steps) := by
  induction steps generalizing s with
  | nil => exact .refl s
  | cons step steps ih =>
      have hstep := hs.onward_step step
      exact hstep.trans (ih (hstep.wellFormed hs))

end Session

end Badger
