import Badger.Proofs.Session.Balance
import Badger.Proofs.Session.Following

/-!
# Sessions replayed

The same texts are evaluated in a session and in a variant of it. Every evaluation then has the same
answer, writes the same and leaves the same bindings, up to the difference that makes the variant.

## Main definitions

* `Variant.Verbatim`: that the variant runs the same programs
* `Variant.answer`: the answer in the variant
* `Variant.Answers`: how an evaluation ends in the variant
* `Session.WithinLimits`: that no evaluation ends at a limit

## Main statements

* `Variant.OfSession.eval`, `Variant.OfSession.after`: one evaluation, and a sequence of them
* `Session.echo_observes`: whether returns are echoed makes a difference for the output only
* `Session.reset_forgets`: after a reset a session answers like a new one

## Design notes

Between evaluations the active chunk may differ, since every text that is run brings its own. This
is what a reset leaves behind.
-/

namespace Badger

/-- Whether an answer is an error because of a limit. -/
def Answer.isLimit : Answer → Bool
  | .failure (.single d) => d.problem.isLimit
  | _ => false

/-- **Evaluations within the limits**: none of them ends in an error because of a limit. -/
def Session.WithinLimits (s : Session) : List Evaluation → Prop
  | [] => True
  | e :: es => (s.eval e.fuel e.file e.text).1.isLimit = false ∧ (s.step e.step).WithinLimits es

namespace Variant

/-- That the variant runs programs as they are. -/
def Verbatim (V : Variant) : Prop := V.pruned = false ∧ V.unplaced = false

/-! ## Evaluations -/

/-- The answer in the variant. -/
def answer (V : Variant) : Answer → Answer
  | .value v => .value (V.value v)
  | .failure f => .failure f
  | .outOfFuel => .outOfFuel

/-- **How an evaluation ends in the variant**: alike, unless the original runs into a limit. -/
inductive Answers (V : Variant) (r r' : Answer × Session) : Prop where
  | alike (hanswer : r'.1 = V.answer r.1) (hsession : V.OfSession r.2 r'.2)
  | cut (hwider : V.wider = true) (hlimit : r.1.isLimit = true)
      (hwritten : V.writes r.2.writes.toList <+: r'.2.writes.toList)

variable {V : Variant} {s s' : Session}

theorem Verbatim.stmts_eq_self (hV : V.Verbatim) (ss : List Stmt) : V.stmts ss = ss := by
  have hpos : V.pos = id := by
    funext p
    rw [pos, hV.2]
    rfl
  have hmap : Stmt.mapPos V.pos = id := funext fun s => hpos ▸ s.mapPos_id
  rw [stmts, hV.1, hmap, List.map_id]
  rfl

/-- What becomes of an outcome becomes of the answer. -/
theorem answer_outcome (hplaced : V.unplaced = false) (o : Outcome Value) :
    Session.answer (V.outcome V.value o) = V.answer (Session.answer o) := by
  cases o with
  | failed d =>
      rw [outcome, diagnostic, hplaced]
      rfl
  | value _ | returned _ | outOfFuel => rfl

theorem InStep.runProgram (hplaced : V.unplaced = false) (hs : V.InStep s s') (fuel : Nat)
    (stmts : List Stmt) :
    V.Answers (s.runProgram fuel stmts) (s'.runProgram fuel (V.stmts stmts)) := by
  unfold Session.runProgram
  rw [hs.globals_eq]
  rcases (Eval.evalFollows V fuel).block stmts s.globals .empty s s' hs with
    ⟨houtcome, hstep⟩ | ⟨hwider, ⟨d, hd, hlimit⟩, hwritten⟩
  · refine .alike ?_ hstep.toOfSession
    rw [← answer_outcome hplaced, ← houtcome]
    rfl
  · refine .cut hwider ?_ hwritten
    simp only [hd]
    exact hlimit

namespace OfSession

/-- When a chunk is made the active one, it does not matter which one was. -/
theorem setChunk (hplaced : V.unplaced = false) (hs : V.OfSession s s') (c : Chunk) :
    V.InStep (s.setChunk c) (s'.setChunk c) := by
  refine ⟨{ hs with }, ?_⟩
  rw [chunk, hplaced]
  rfl

/-- **An evaluation in the variant.** -/
theorem eval (hV : V.Verbatim) (hs : V.OfSession s s') (fuel : Nat) (file text : Text) :
    V.Answers (s.eval fuel file text) (s'.eval fuel file text) := by
  unfold Session.eval
  rw [hs.strict_eq]
  cases Session.readChunk s.options.strict text with
  | error f => exact .alike rfl hs
  | ok read =>
      have hrun :=
        (hs.setChunk hV.2 (Chunk.ofStream file text read.2)).runProgram hV.2 fuel read.1
      rw [hV.stmts_eq_self] at hrun
      exact hrun

/-- **A sequence of evaluations in the variant.** -/
theorem after (hV : V.Verbatim) {es : List Evaluation} (hs : V.OfSession s s')
    (hlimits : V.wider = true → s.WithinLimits es) :
    V.OfSession (s.after (es.map Evaluation.step)) (s'.after (es.map Evaluation.step)) := by
  induction es generalizing s s' with
  | nil => exact hs
  | cons e es ih =>
      rcases hs.eval hV e.fuel e.file e.text with ⟨-, hsession⟩ | ⟨hwider, hlimit, -⟩
      · exact ih hsession fun hwider => (hlimits hwider).2
      · simp [(hlimits hwider).1] at hlimit

/-- The answer in a variant that has no wider limits. -/
theorem answer_eq (hV : V.Verbatim) (hwider : V.wider = false)
    (hs : V.OfSession s s') (e : Evaluation) :
    (s'.eval e.fuel e.file e.text).1 = V.answer (s.eval e.fuel e.file e.text).1 := by
  rcases hs.eval hV e.fuel e.file e.text with ⟨hanswer, -⟩ | ⟨hcut, -, -⟩
  · exact hanswer
  · simp [hwider] at hcut

theorem globalBindings_eq (hs : V.OfSession s s') :
    s'.globalBindings = V.recast.bindings s.globalBindings := by
  unfold Session.globalBindings
  rw [hs.globals_eq]
  rcases hs.memory.scope_cases s.globals with ⟨hscope, hscope'⟩ | ⟨c, c', hscope, hscope', hc⟩
  · rw [hscope, hscope']
    rfl
  · rw [hscope, hscope']
    exact hc.bindings_eq

/-- The same names are listed, if the test does not look into functions. -/
theorem globalNames_eq (hs : V.OfSession s s') {test : Value → Bool}
    (htest : ∀ v, test (V.value v) = test v) : s'.globalNames test = s.globalNames test := by
  unfold Session.globalNames
  rw [hs.globalBindings_eq, Recast.bindings, List.filter_map, List.map_map]
  simp only [Function.comp_def, htest]

end OfSession

/-- Where neither scopes nor programs differ, functions are the same. -/
theorem closure_eq_self (hV : V.Verbatim) (hold : V.older = 0) (c : Closure) :
    V.recast.closure c = c := by
  have hchunk : V.chunk c.chunk = c.chunk := by
    rw [chunk, hV.2]
    rfl
  rw [recast]
  simp only [hV.stmts_eq_self, hold, hchunk, Nat.add_zero]

theorem value_eq_self (hV : V.Verbatim) (hold : V.older = 0) (v : Value) : V.value v = v := by
  rcases v with _ | _ | _ | ⟨_ | _ | c⟩
  case fxn.custom => exact congrArg (Value.fxn ∘ Callable.custom) (closure_eq_self hV hold c)
  all_goals rfl

theorem recast_bindings_eq_self (hV : V.Verbatim) (hold : V.older = 0)
    (bs : List (Text × Value)) : V.recast.bindings bs = bs := by
  have hvalue (v : Value) : V.recast.value v = v := value_eq_self hV hold v
  simp [Recast.bindings, hvalue]

/-- Where neither scopes nor programs differ, memories are the same but for limits. -/
theorem castMemory_eq_self (hV : V.Verbatim) (hold : V.older = 0) (m : Memory) :
    V.recast.castMemory m = m := by
  have hscope (s : Scope) : V.recast.castScope s = s := by
    have houter : s.outer.map V.scope = s.outer := by
      have hid : V.scope = id := funext fun n => (congrArg (n + ·) hold).trans (Nat.add_zero n)
      rw [hid, Option.map_id, id]
    rw [Recast.castScope, recast_bindings_eq_self hV hold, houter]
  have hscopes : m.scopes.map V.recast.castScope = m.scopes := by
    rw [funext hscope]
    exact Array.map_id _
  exact congrArg Memory.mk hscopes

/-- Where neither scopes nor programs differ, answers are the same. -/
theorem answer_eq_self (hV : V.Verbatim) (hold : V.older = 0) (r : Answer) :
    V.answer r = r := by
  cases r with
  | value v => exact congrArg Answer.value (value_eq_self hV hold v)
  | failure _ | outOfFuel => rfl

end Variant

namespace Session

/-! ## Echoes -/

/-- A session that echoes returns, and the same without echoes. -/
theorem ofSession_muted (options : Options) :
    ({ muted := true } : Variant).OfSession (new { options with echoReturns := true })
      (new { options with echoReturns := false }) where
  memory := by
    have hempty : (Variant.recast { muted := true }).OfMemory {} {} := Recast.ofMemory_empty rfl
    exact (hempty.add ⟨rfl, rfl, .inl rfl⟩).2
  globals_eq := rfl
  callStack_eq := rfl
  callDepth := .inl rfl
  scopeDepth := .inl rfl
  echo_eq := rfl
  strict_eq := rfl
  writes_eq := rfl

/-- **Echoing returns is observation only.** The same texts are evaluated in a session that echoes
returns and in one that does not, which has the same options otherwise. Then, after any number of
evaluations, the next one has the same answer, with the same value or with the same error in all its
fields; all scopes are the same, with the same bindings; and what was written without echoes is what
was written with them, in the same order, without the echoes. -/
theorem echo_observes (options : Options) (es : List Evaluation) :
    let loud := (new { options with echoReturns := true }).after (es.map Evaluation.step)
    let quiet := (new { options with echoReturns := false }).after (es.map Evaluation.step)
    (∀ e : Evaluation,
      (quiet.eval e.fuel e.file e.text).1 = (loud.eval e.fuel e.file e.text).1) ∧
    quiet.memory = loud.memory ∧ quiet.globals = loud.globals ∧
    quiet.writes.toList = loud.writes.toList.filter Write.isPrinted := by
  intro loud quiet
  have hs : ({ muted := true } : Variant).OfSession loud quiet :=
    (ofSession_muted options).after ⟨rfl, rfl⟩ fun h => by cases h
  refine ⟨fun e => ?_, ?_, hs.globals_eq, ?_⟩
  · rw [hs.answer_eq ⟨rfl, rfl⟩ rfl e, Variant.answer_eq_self ⟨rfl, rfl⟩ rfl]
  · rw [hs.memory.eq_cast rfl rfl, Variant.castMemory_eq_self ⟨rfl, rfl⟩ rfl]
  · rw [hs.writes_eq, Variant.writes_eq_filter rfl]
    rfl

/-! ## Resets -/

/-- After a reset a session is a variant of a new one: it has scopes already, and something may have
been written. -/
theorem ofSession_reset {options : Options} {s : Session} (hoptions : s.options = options) :
    ({ older := s.memory.scopes.size, earlier := s.writes.toList } : Variant).OfSession
      (new options) s.reset where
  memory := by
    have hempty : (Variant.recast { older := s.memory.scopes.size }).OfMemory {} s.memory :=
      Recast.ofMemory_empty rfl
    rw [← hoptions]
    exact (hempty.add ⟨rfl, rfl, .inl rfl⟩).2
  globals_eq := (Nat.zero_add _).symm
  callStack_eq := rfl
  callDepth := .inl (congrArg Options.callDepth hoptions)
  scopeDepth := .inl (congrArg Options.scopeDepth hoptions)
  echo_eq := by
    rw [Bool.not_false, Bool.and_true]
    exact congrArg Options.echoReturns hoptions
  strict_eq := congrArg Options.strict hoptions
  writes_eq := (List.append_nil _).symm

/-- **A reset forgets everything.** Whatever was done with a session, failures and earlier resets
included: after a reset the same texts are evaluated as in a new session with the same options.
After any number of evaluations, the next one has the same answer, with the same value or the same
error in all its fields; the same was written since the reset; the global bindings are the same, and
so are the names of variables and of functions. The numbers of the scopes that functions remember
are larger by the number of scopes that there were before the reset, and nothing else differs. -/
theorem reset_forgets (options : Options) (past : List Step) (es : List Evaluation) :
    let old := (new options).after past
    let again := old.reset.after (es.map Evaluation.step)
    let fresh := (new options).after (es.map Evaluation.step)
    let V : Variant := { older := old.memory.scopes.size, earlier := old.writes.toList }
    (∀ e : Evaluation, (again.eval e.fuel e.file e.text).1 =
      V.answer (fresh.eval e.fuel e.file e.text).1) ∧
    again.writes.toList = old.writes.toList ++ fresh.writes.toList ∧
    again.globalBindings = V.recast.bindings fresh.globalBindings ∧
    again.variableNames = fresh.variableNames ∧ again.functionNames = fresh.functionNames := by
  intro old again fresh V
  have hoptions : old.options = options := (callStack_after (s := new options) rfl past).2
  have hs : V.OfSession fresh again :=
    (ofSession_reset hoptions).after ⟨rfl, rfl⟩ fun h => by cases h
  refine ⟨hs.answer_eq ⟨rfl, rfl⟩ rfl, ?_, hs.globalBindings_eq, ?_, ?_⟩
  · rw [hs.writes_eq, Variant.writes_eq_append rfl]
  · exact hs.globalNames_eq fun v => by rw [V.recast.tag_value]
  · exact hs.globalNames_eq V.recast.isCustom_value

end Session

end Badger
