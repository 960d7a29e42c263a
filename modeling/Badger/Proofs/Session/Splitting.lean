import Badger.Proofs.Session.Bare
import Badger.Proofs.Session.Budget
import Badger.Proofs.Session.Provenance
import Badger.Proofs.Token.Concatenation

/-!
# Programs in one text or in two

A program may reach a session in one text or in two, the second on a line of its own after the
first. Where each of the two can be read, so can both together, and running them together comes to
the same as running one after the other: only places differ.

## Main definitions

* `Session.Evaluates`: how evaluating a text ends, given steps enough
* `Session.RunsThrough`: a text runs to its last statement
* `Session.Alike`: two evaluations that differ in places only

## Main statements

* `readChunk_append`: two texts on separate lines are read as one
* `eval_append`: evaluating them as one is evaluating one after the other

## Design notes

The first text has to run through. After a return at the top level or an error the session goes on
with the second text if they are apart, and does not if they are together.
-/

namespace Badger

/-- Whether an outcome is a value. -/
def Outcome.isValue {α : Type} : Outcome α → Bool
  | .value _ => true
  | _ => false

namespace Session

open Eval

/-! ## Reading -/

theorem readChunk_eq_ok_iff {strict : Bool} {text : Text} {stmts : List Stmt}
    {stream : TokenStream} :
    readChunk strict text = .ok (stmts, stream) ↔
      TokenStream.read strict text = .ok stream ∧
        Program.ofTokens stream.tokens 0 = ⟨stmts, []⟩ := by
  unfold readChunk
  cases hread : TokenStream.read strict text with
  | error d => simp
  | ok stream' =>
      simp only [Except.ok.injEq]
      rcases hprogram : Program.ofTokens stream'.tokens 0 with ⟨stmts', errors⟩
      cases errors with
      | nil =>
          simp only [List.isEmpty_nil, if_true, Except.ok.injEq, Prod.mk.injEq]
          constructor
          · rintro ⟨rfl, rfl⟩
            exact ⟨rfl, hprogram⟩
          · rintro ⟨rfl, h⟩
            rw [hprogram] at h
            cases h
            exact ⟨rfl, rfl⟩
      | cons e errors =>
          simp only [List.isEmpty_cons, Bool.false_eq_true, if_false, reduceCtorEq, false_iff]
          rintro ⟨rfl, h⟩
          rw [hprogram] at h
          cases h

/-- A text that is read is derived by the grammar. -/
theorem derives_of_readChunk {strict : Bool} {text : Text} {stmts : List Stmt}
    {stream : TokenStream} (h : readChunk strict text = .ok (stmts, stream)) :
    ∃ body ending, stream.tokens = body ++ [ending] ∧ ending.kind = .eof ∧
      (∀ t ∈ body, t.Spelled) ∧ Grammar.Derives (.declarations stmts) body ∧
      Stmt.elsesNearest stmts = true := by
  obtain ⟨hread, hprogram⟩ := readChunk_eq_ok_iff.mp h
  obtain rfl := TokenStream.eq_ofText_of_read hread
  obtain ⟨body, ending, htokens, hending, hbody⟩ := TokenStream.ofText_tokens text
  rw [htokens] at hprogram
  have hderives := Grammar.derives_of_errors_eq_nil (fun t ht => (hbody t ht).1) hending
    (fun t ht => (hbody t ht).2.1) (by rw [hprogram])
  rw [hprogram] at hderives
  exact ⟨body, ending, htokens, hending, fun t ht => (hbody t ht).2.1, hderives⟩

/-- No statement of a text that is read is missing. -/
theorem isMissing_of_readChunk {strict : Bool} {text : Text} {stmts : List Stmt}
    {stream : TokenStream} (h : readChunk strict text = .ok (stmts, stream)) :
    ∀ st ∈ stmts, st.isMissing = false := by
  obtain ⟨body, ending, -, -, -, hderives, -⟩ := derives_of_readChunk h
  intro st hst
  have hwhole := (Stmt.areWhole_iff stmts).mp hderives.isWhole st hst
  cases st with
  | missing => cases hwhole
  | _ => rfl

/-- A program does not end in a string. -/
theorem last_ne_string {stmts : List Stmt} {body : List Token}
    (h : Grammar.Derives (.declarations stmts) body) :
    ∀ t ∈ body.getLast?, t.kind ≠ .string := by
  rcases h.ends with rfl | ⟨first, last, rfl, hlast⟩
  · simp
  · rw [List.getLast?_append, List.getLast?_singleton]
    rintro _ ⟨⟩
    rcases hlast with hlast | hlast <;> simp [hlast]

/-- **Two texts on separate lines are read as one**: the statements of the first and then those of
the second, moved behind it. -/
theorem readChunk_append {strict : Bool} {a b : Text} {stmtsA stmtsB : List Stmt}
    {streamA streamB : TokenStream} (ha : readChunk strict a = .ok (stmtsA, streamA))
    (hb : readChunk strict b = .ok (stmtsB, streamB)) :
    ∃ stream, readChunk strict (a ++ Text.newline :: b) =
      .ok (stmtsA ++ stmtsB.map (Stmt.mapPos (· + (a.length + 1 : Nat))), stream) := by
  obtain ⟨bodyA, endA, htokensA, -, hspelledA, hderivesA, hnearestA⟩ := derives_of_readChunk ha
  obtain ⟨bodyB, endB, htokensB, hendB, hspelledB, hderivesB, hnearestB⟩ :=
    derives_of_readChunk hb
  have hreadA := (readChunk_eq_ok_iff.mp ha).1
  have hreadB := (readChunk_eq_ok_iff.mp hb).1
  obtain ⟨rfl, -⟩ := TokenStream.read_eq_ok_iff.mp hreadA
  obtain ⟨rfl, -⟩ := TokenStream.read_eq_ok_iff.mp hreadB
  have hclosed := TokenStream.not_endsInString htokensA (last_ne_string hderivesA)
  refine ⟨_, readChunk_eq_ok_iff.mpr ⟨TokenStream.read_append hreadA hreadB hclosed, ?_⟩⟩
  have htokens := TokenStream.ofText_append htokensA hclosed b
  generalize (fun pos : Int => pos + (a.length + 1 : Nat)) = move at htokens ⊢
  have hend : (endB.mapPos move).kind = .eof := hendB
  have hderives := hderivesA.append (hderivesB.mapPos move)
  rw [htokens, htokensB, List.map_append, ← List.append_assoc, List.map_singleton]
  rw [Stmt.listMapPos_eq_map] at hderives
  refine Grammar.ofTokens_eq_of_derives hend ?_ hderives ?_
  · rw [List.forall_mem_append]
    refine ⟨hspelledA, ?_⟩
    intro t ht
    obtain ⟨t', ht', rfl⟩ := List.mem_map.mp ht
    exact hspelledB t' ht'
  · rw [Stmt.elsesNearest_iff] at hnearestA hnearestB ⊢
    rw [List.forall_mem_append]
    refine ⟨hnearestA, ?_⟩
    intro st hst
    obtain ⟨st', hst', rfl⟩ := List.mem_map.mp hst
    rw [Stmt.elseNearest_mapPos]
    exact hnearestB st' hst'

/-! ## Evaluating -/

/-- **Evaluation.** Evaluating a text ends with an answer and leaves a session, given steps
enough. -/
def Evaluates (s : Session) (file text : Text) (r : Answer × Session) : Prop :=
  r.1 ≠ .outOfFuel ∧ ∃ fuel, s.eval fuel file text = r

/-- **Running through.** A text is read, and its statements are run without an error and without a
return at the top level. -/
def RunsThrough (s : Session) (file text : Text) (later : Session) : Prop :=
  ∃ stmts stream fuel v, readChunk s.options.strict text = .ok (stmts, stream) ∧
    Eval.block fuel stmts s.globals .empty (s.setChunk (Chunk.ofStream file text stream)) =
      (.value v, later)

/-- **Evaluations that end alike.** The output is the same, the global bindings are but for the
places kept in functions, and so is the failure but for its place, or the value if `valued`. -/
structure Alike (valued : Prop) (r r' : Answer × Session) : Prop where
  output : r'.2.output = r.2.output
  bindings : bareBindings r'.2.globalBindings = bareBindings r.2.globalBindings
  failure : ∀ f, r.1 = .failure f → ∃ d d', f = .single d ∧ r'.1 = .failure (.single d') ∧
    d'.problem = d.problem ∧ d'.stack = d.stack
  value : ∀ v, r.1 = .value v → ∃ v', r'.1 = .value v' ∧ (valued → v'.bare = v.bare)

theorem globalBindings_bare (s : Session) :
    s.bare.globalBindings = bareBindings s.globalBindings := by
  unfold globalBindings
  have hscope : s.bare.memory.scope? s.bare.globals = (s.memory.scope? s.globals).map Scope.bare :=
    s.memory.scope?_bare s.globals
  rw [hscope]
  cases s.memory.scope? s.globals <;> rfl

theorem answer_eq_outOfFuel {o : Outcome Value} (h : answer o = .outOfFuel) : o = .outOfFuel := by
  cases o <;> first | rfl | cases h

/-- Outcomes that differ in places only are answers that end alike. -/
theorem alike_of_outcome {valued : Prop} {o o' : Outcome Value} {s s' : Session}
    (hs : s'.bare = s.bare)
    (ho : o'.bare Value.bare = o.bare Value.bare ∨
      ¬valued ∧ ∃ v v', o = .value v ∧ o' = .value v') :
    (o' = .outOfFuel ↔ o = .outOfFuel) ∧ Alike valued (answer o, s) (answer o', s') := by
  have houtput : s'.output = s.output :=
    show s'.bare.output = s.bare.output from congrArg output hs
  have hbindings : bareBindings s'.globalBindings = bareBindings s.globalBindings := by
    rw [← globalBindings_bare, ← globalBindings_bare, hs]
  rcases ho with ho | ⟨hvalued, v, v', rfl, rfl⟩
  · cases o with
    | value v =>
        cases o' with
        | value v' =>
            refine ⟨by simp, houtput, hbindings, by rintro _ ⟨⟩, ?_⟩
            rintro _ ⟨⟩
            exact ⟨v', rfl, fun _ => Outcome.value.inj ho⟩
        | returned _ | failed _ | outOfFuel => cases ho
    | returned v =>
        cases o' with
        | returned v' =>
            refine ⟨by simp, houtput, hbindings, by rintro _ ⟨⟩, ?_⟩
            rintro _ ⟨⟩
            exact ⟨v', rfl, fun _ => Outcome.returned.inj ho⟩
        | value _ | failed _ | outOfFuel => cases ho
    | failed d =>
        cases o' with
        | failed d' =>
            refine ⟨by simp, houtput, hbindings, ?_, by rintro _ ⟨⟩⟩
            rintro _ ⟨⟩
            have hd : d'.bare = d.bare := Outcome.failed.inj ho
            have hproblem : d'.bare.problem = d.bare.problem := congrArg Diagnostic.problem hd
            have hstack : d'.bare.stack = d.bare.stack := congrArg Diagnostic.stack hd
            exact ⟨d, d', rfl, rfl, hproblem, hstack⟩
        | value _ | returned _ | outOfFuel => cases ho
    | outOfFuel =>
        cases o' with
        | outOfFuel =>
            exact ⟨Iff.rfl, houtput, hbindings, by rintro _ ⟨⟩, by rintro _ ⟨⟩⟩
        | value _ | returned _ | failed _ => cases ho
  · refine ⟨by simp, houtput, hbindings, by rintro _ ⟨⟩, ?_⟩
    rintro _ ⟨⟩
    exact ⟨v', rfl, fun h => absurd h hvalued⟩

/-- **The same statements at other places** end alike in sessions that differ in places only. -/
theorem alike_of_bare {stmts stmts' : List Stmt}
    (hstmts : stmts'.map Stmt.bare = stmts.map Stmt.bare)
    (hwhole : ∀ st ∈ stmts, st.isMissing = false) {s s' : Session} (hs : s'.bare = s.bare)
    (fuel : Nat) (scope : ScopeId) (v : Value) :
    ((block fuel stmts' scope v s').1 = .outOfFuel ↔
        (block fuel stmts scope .empty s).1 = .outOfFuel) ∧
      Alike (stmts ≠ [])
        (answer (block fuel stmts scope .empty s).1, (block fuel stmts scope .empty s).2)
        (answer (block fuel stmts' scope v s').1, (block fuel stmts' scope v s').2) := by
  by_cases hne : stmts = []
  · subst hne
    obtain rfl := List.map_eq_nil_iff.mp hstmts
    cases fuel with
    | zero => exact alike_of_outcome hs (.inl rfl)
    | succ fuel => exact alike_of_outcome hs (.inr ⟨fun h => h rfl, _, _, rfl, rfl⟩)
  · have hbare : ∀ st ∈ stmts.map Stmt.bare, st.isMissing = false := by
      intro st hst
      obtain ⟨st', hst', rfl⟩ := List.mem_map.mp hst
      rw [Stmt.isMissing_bare]
      exact hwhole st' hst'
    have herases' := (evalErases fuel).block stmts' scope v
    rw [hstmts, block_last (by simpa using hne) hbare fuel scope v.bare (Value.bare .empty)]
      at herases'
    obtain ⟨houtcome, hlater⟩ :=
      ((evalErases fuel).block stmts scope .empty).congr herases' hs
    exact alike_of_outcome hlater (.inl houtcome)

/-- What evaluating a text that can be read comes to. -/
theorem evaluates_iff {s : Session} {file text : Text} {stmts : List Stmt} {stream : TokenStream}
    (h : readChunk s.options.strict text = .ok (stmts, stream)) (r : Answer × Session) :
    s.Evaluates file text r ↔ ∃ o : Outcome Value × Session, o.1 ≠ .outOfFuel ∧
      (∃ fuel, block fuel stmts s.globals .empty
        (s.setChunk (Chunk.ofStream file text stream)) = o) ∧ r = (answer o.1, o.2) := by
  have heval (fuel : Nat) : s.eval fuel file text =
      (answer (block fuel stmts s.globals .empty (s.setChunk (Chunk.ofStream file text stream))).1,
        (block fuel stmts s.globals .empty (s.setChunk (Chunk.ofStream file text stream))).2) := by
    unfold eval
    rw [h]
    rfl
  constructor
  · rintro ⟨hr, fuel, rfl⟩
    rw [heval] at hr ⊢
    exact ⟨_, fun hfuel => hr (by rw [hfuel]; rfl), ⟨fuel, rfl⟩, rfl⟩
  · rintro ⟨o, ho, ⟨fuel, rfl⟩, rfl⟩
    exact ⟨fun hfuel => ho (answer_eq_outOfFuel hfuel), fuel, heval fuel⟩

/-- What runs through under one name does so under every other. -/
theorem block_elsewhere {n : Nat} {stmts : List Stmt} {scope : ScopeId} {last v : Value}
    {s later : Session} {chunk : Chunk}
    (h : block n stmts scope last (s.setChunk chunk) = (.value v, later)) (chunk' : Chunk) :
    ∃ v' later', block n stmts scope last (s.setChunk chunk') = (.value v', later') ∧
      later'.bare = later.bare := by
  have herases := (evalErases n).block stmts scope last
  obtain ⟨houtcome, hlater⟩ :=
    herases.congr herases (show (s.setChunk chunk').bare = (s.setChunk chunk).bare from rfl)
  rw [h] at houtcome hlater
  rcases hresult : block n stmts scope last (s.setChunk chunk') with ⟨v' | _ | _ | _, later'⟩
  all_goals rw [hresult] at houtcome hlater
  · exact ⟨v', later', rfl, hlater⟩
  all_goals cases houtcome

theorem runsThrough_of_isValue {s : Session} {file text : Text} {stmts : List Stmt}
    {stream : TokenStream} (h : readChunk s.options.strict text = .ok (stmts, stream)) {fuel : Nat}
    (hvalue : (block fuel stmts s.globals .empty
      (s.setChunk (Chunk.ofStream file text stream))).1.isValue = true) :
    s.RunsThrough file text (s.eval fuel file text).2 := by
  rcases hrun : block fuel stmts s.globals .empty (s.setChunk (Chunk.ofStream file text stream))
    with ⟨v | _ | _ | _, later⟩
  all_goals rw [hrun] at hvalue
  · refine ⟨stmts, stream, fuel, v, h, ?_⟩
    unfold eval runProgram
    rw [h]
    simp only
    rw [show (s.setChunk (Chunk.ofStream file text stream)).globals = s.globals from rfl, hrun]
  all_goals cases hvalue

/-- **Evaluating two texts as one** is evaluating one after the other. Where the first one runs
through, the second one ends if and only if both together do, and then alike. -/
theorem eval_append (s : Session) {a b : Text} {stmtsA stmtsB : List Stmt}
    {streamA streamB : TokenStream} (ha : readChunk s.options.strict a = .ok (stmtsA, streamA))
    (hb : readChunk s.options.strict b = .ok (stmtsB, streamB)) :
    (∃ stream, readChunk s.options.strict (a ++ Text.newline :: b) =
      .ok (stmtsA ++ stmtsB.map (Stmt.mapPos (· + (a.length + 1 : Nat))), stream)) ∧
    ∀ fileA fileB file middle, s.RunsThrough fileA a middle →
      (∃ v, s.Evaluates fileA a (.value v, middle)) ∧
      ((∃ r, middle.Evaluates fileB b r) ↔
        ∃ r, s.Evaluates file (a ++ Text.newline :: b) r) ∧
      ∀ r r', middle.Evaluates fileB b r → s.Evaluates file (a ++ Text.newline :: b) r' →
        Alike (stmtsB ≠ []) r r' := by
  obtain ⟨stream, hab⟩ := readChunk_append ha hb
  refine ⟨⟨stream, hab⟩, fun fileA fileB file middle hthrough => ?_⟩
  obtain ⟨stmts, streamA', n, v, ha', hrun⟩ := hthrough
  obtain ⟨rfl, rfl⟩ : stmtsA = stmts ∧ streamA = streamA' := by simpa [ha] using ha'
  have hbalanced := ((evalConfined n).block stmtsA s.globals .empty
    (s.setChunk (Chunk.ofStream fileA a streamA))).balanced
  rw [hrun] at hbalanced
  have hglobals : middle.globals = s.globals := hbalanced.2.2.2
  have hb' : readChunk middle.options.strict b = .ok (stmtsB, streamB) := by
    rw [show middle.options = s.options from hbalanced.2.2.1]
    exact hb
  obtain ⟨v', middle', hrun', hmiddle⟩ := block_elsewhere hrun
    (Chunk.ofStream file (a ++ Text.newline :: b) stream)
  -- what follows the first text when both are together, against the second text alone
  have hwhole := isMissing_of_readChunk hb
  have hmoved : (stmtsB.map (Stmt.mapPos (· + (a.length + 1 : Nat)))).map Stmt.bare =
      stmtsB.map Stmt.bare := by
    rw [List.map_map]
    exact List.map_congr_left fun st _ => st.bare_mapPos _
  have halike (fuel : Nat) := alike_of_bare hmoved hwhole
    (show middle'.bare = (middle.setChunk (Chunk.ofStream fileB b streamB)).bare from hmiddle)
    fuel s.globals v'
  have hboth {o : Outcome Value × Session} (ho : o.1 ≠ .outOfFuel) :=
    exists_block_append_iff hrun' (stmtsB.map (Stmt.mapPos (· + (a.length + 1 : Nat)))) ho
  simp only [evaluates_iff ha, evaluates_iff hab, evaluates_iff hb', hglobals]
  refine ⟨⟨v, _, by simp, ⟨n, hrun⟩, rfl⟩, ⟨?_, ?_⟩, ?_⟩
  · rintro ⟨_, o, ho, ⟨fuel, rfl⟩, -⟩
    have hne := (halike fuel).1.not.mpr ho
    exact ⟨_, _, hne, (hboth hne).mpr ⟨fuel, rfl⟩, rfl⟩
  · rintro ⟨_, o, ho, hrun, -⟩
    obtain ⟨fuel, rfl⟩ := (hboth ho).mp hrun
    have hne := (halike fuel).1.not.mp ho
    exact ⟨_, _, hne, ⟨fuel, rfl⟩, rfl⟩
  · rintro _ _ ⟨o, ho, ⟨fuel, rfl⟩, rfl⟩ ⟨o', ho', hrun, rfl⟩
    obtain ⟨fuel', rfl⟩ := (hboth ho').mp hrun
    have hlarger := (evalExtends (Nat.le_max_left fuel fuel')).block _ _ _ _ ho
    have hlarger' := (evalExtends (Nat.le_max_right fuel fuel')).block _ _ _ _ ho'
    rw [← hlarger, ← hlarger']
    exact (halike _).2

/-- A function from the first text that fails when the second one calls it. -/
theorem eval_append_failing :
    let a := utf8 "fxn f() \x7b\n  return x;\n\x7d"
    let b := utf8 "f();"
    ∃ middle r r', (new {}).RunsThrough (utf8 "a") a middle ∧ middle.Evaluates (utf8 "b") b r ∧
      (new {}).Evaluates (utf8 "c") (a ++ Text.newline :: b) r' ∧ Alike True r r' ∧
      ∃ d, r.1 = .failure (.single d) ∧ d.problem = .scope (.undefined (utf8 "x")) ∧
        d.stack = [utf8 "f"] := by
  intro a b
  let d : Diagnostic :=
    ⟨.scope (.undefined (utf8 "x")), 19, 2, 10, [utf8 "f"], utf8 "a", a⟩
  have hread (t : Text) (h : (readChunk false t).toBool = true) :
      ∃ stmts stream, readChunk false t = .ok (stmts, stream) := by
    cases hread : readChunk false t with
    | error f => rw [hread] at h; cases h
    | ok p => exact ⟨p.1, p.2, rfl⟩
  obtain ⟨stmtsA, streamA, ha⟩ := hread a (by decide +kernel)
  obtain ⟨stmtsB, streamB, hb⟩ := hread b (by decide +kernel)
  obtain ⟨rfl, rfl, -⟩ := readChunk_eq_ok ha
  obtain ⟨rfl, rfl, -⟩ := readChunk_eq_ok hb
  have hthrough : (new {}).RunsThrough (utf8 "a") a ((new {}).eval 30 (utf8 "a") a).2 :=
    runsThrough_of_isValue ha (by decide +kernel)
  obtain ⟨-, hrun⟩ := eval_append (new {}) ha hb
  obtain ⟨-, hends, halike⟩ := hrun (utf8 "a") (utf8 "b") (utf8 "c") _ hthrough
  have hfails : (((new {}).eval 30 (utf8 "a") a).2.eval 30 (utf8 "b") b).1 =
      .failure (.single d) :=
    Answer.eq_of_diagnostic? (by decide +kernel)
  have heval : Evaluates _ (utf8 "b") b (((new {}).eval 30 (utf8 "a") a).2.eval 30 (utf8 "b") b) :=
    ⟨by rw [hfails]; simp, 30, rfl⟩
  obtain ⟨r', hr'⟩ := hends.mp ⟨_, heval⟩
  have hne : (Program.ofTokens (TokenStream.ofText b).tokens 0).stmts ≠ [] := by
    rw [← List.length_pos_iff]
    decide +kernel
  obtain ⟨houtput, hbindings, hfailure, hvalue⟩ := halike _ _ heval hr'
  exact ⟨_, _, r', hthrough, heval, hr',
    ⟨houtput, hbindings, hfailure,
      fun v hv => (hvalue v hv).imp fun _ h => ⟨h.1, fun _ => h.2 hne⟩⟩,
    d, hfails, rfl, rfl⟩

end Session

end Badger
