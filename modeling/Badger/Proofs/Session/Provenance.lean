import Badger.Proofs.Session.Ownership

/-!
# The chunk in which an error is placed

A session evaluates one text after the other, and functions declared in one are called from others.
An error that comes out of a run was raised by a statement or an expression in the text of some
chunk, the owner. This module says when it is placed in its owner, with the file, the text and the
line of the owner, and in which chunk it is placed otherwise.

## Main definitions

* `Evaluation`, `Session.begin?`: a text to be evaluated, and the moment with which that starts
* `Session.starts`: the moments with which some evaluations start
* `Session.Known`: that the global scope exists, and that only functions in sight are in memory
* `Diagnostic.PlacedIn`: that an error has the file, the text and the line of a chunk

## Main statements

* `Session.runtime_error_placed_iff`: every error is raised in the text of its owner, and is placed
  there if and only if the owner is active

## Design notes

The owner is active if every chunk that declares a function has a line table, that is, if its text
has a line break. A function from a text without line breaks that is called while another chunk is
active runs with that other chunk, and its errors are placed there: see `runtime_error_misplaced`.
-/

namespace Badger

/-! ## Evaluations -/

/-- **A text to be evaluated** under the name of a file, with the budget for that. -/
structure Evaluation where
  fuel : Nat
  file : Text
  text : Text

namespace Evaluation

/-- The step that the evaluation is. -/
def step (e : Evaluation) : Session.Step := .eval e.fuel e.file e.text

/-- The text as a chunk. -/
def chunk (e : Evaluation) : Chunk := Chunk.ofStream e.file e.text (TokenStream.ofText e.text)

/-- The text as a program. -/
def program (e : Evaluation) : Program := Program.ofTokens (TokenStream.ofText e.text).tokens 0

/-- Offsets into a text are placed by its own line breaks. -/
theorem chunk_lineTable (e : Evaluation) :
    e.chunk.lineTable = (TokenStream.ofText e.text).lines := by
  unfold chunk Chunk.ofStream Chunk.lineTable
  split
  · next hempty => exact (Array.isEmpty_iff.mp hempty).symm
  · rfl

/-- A chunk is known by its file and its text. -/
theorem chunk_eq_of_file_of_text {e e' : Evaluation} (hfile : e.chunk.file = e'.chunk.file)
    (htext : e.chunk.text = e'.chunk.text) : e.chunk = e'.chunk := by
  have hfile : e.file = e'.file := hfile
  have htext : e.text = e'.text := htext
  unfold chunk
  rw [hfile, htext]

end Evaluation

/-- **The place of an error**: file and text of the chunk, with line and column of the offset by
the line breaks of this text. -/
structure Diagnostic.PlacedIn (d : Diagnostic) (c : Chunk) : Prop where
  file_eq : d.file = c.file
  source_eq : d.source = c.text
  line_eq : d.line = (TokenStream.ofText c.text).lines.lineOf d.offset
  column_eq : d.column = (TokenStream.ofText c.text).lines.columnOf d.offset

/-- The error that an answer consists of, if it is a single one. -/
def Answer.diagnostic? : Answer → Option Diagnostic
  | .failure (.single d) => some d
  | _ => none

theorem Answer.eq_of_diagnostic? {r : Answer} {d : Diagnostic} (h : r.diagnostic? = some d) :
    r = .failure (.single d) := by
  unfold diagnostic? at h
  split at h
  · cases h
    rfl
  · cases h

namespace Session

/-- The moment with which the evaluation of a text starts; there is none if the text cannot be
read. -/
def begin? (s : Session) (e : Evaluation) : Option Moment :=
  match readChunk s.options.strict e.text with
  | .ok (stmts, stream) =>
      some ⟨.block stmts s.globals .empty, e.fuel,
        s.setChunk (Chunk.ofStream e.file e.text stream)⟩
  | .error _ => none

variable {s : Session} {e : Evaluation} {start : Moment}

/-- What is read is the program of the text, and it is free of errors. -/
theorem readChunk_eq_ok {strict : Bool} {text : Text} {stmts : List Stmt} {stream : TokenStream}
    (h : readChunk strict text = .ok (stmts, stream)) :
    stream = TokenStream.ofText text ∧
      stmts = (Program.ofTokens (TokenStream.ofText text).tokens 0).stmts ∧
      (Program.ofTokens (TokenStream.ofText text).tokens 0).errors = [] := by
  unfold readChunk at h
  split at h
  · cases h
  · next read hok =>
    obtain rfl := TokenStream.eq_ofText_of_read hok
    dsimp only at h
    split at h
    · next hempty =>
      cases h
      exact ⟨rfl, rfl, List.isEmpty_iff.mp hempty⟩
    · cases h

/-- **The start of an evaluation.** -/
theorem begin?_eq_some (h : s.begin? e = some start) :
    e.program.errors = [] ∧
      start = ⟨.block e.program.stmts s.globals .empty, e.fuel, s.setChunk e.chunk⟩ := by
  unfold begin? at h
  split at h
  · next stmts stream hread =>
    obtain ⟨rfl, rfl, herrors⟩ := readChunk_eq_ok hread
    cases h
    exact ⟨herrors, rfl⟩
  · cases h

/-- A text that can be read is evaluated by running its program. -/
theorem eval_of_begin?_eq_some (h : s.begin? e = some start) :
    s.eval e.fuel e.file e.text = (s.setChunk e.chunk).runProgram e.fuel e.program.stmts := by
  unfold begin? at h
  unfold eval
  split at h
  · next stmts stream hread =>
    rw [hread]
    obtain ⟨rfl, rfl, -⟩ := readChunk_eq_ok hread
    rfl
  · cases h

/-- The session after the evaluation of a text that can be read. -/
theorem step_of_begin?_eq_some (h : s.begin? e = some start) : s.step e.step = start.after := by
  have hstep := congrArg Prod.snd (eval_of_begin?_eq_some h)
  obtain ⟨-, rfl⟩ := begin?_eq_some h
  exact hstep

/-- A text that cannot be read leaves the session as it was. -/
theorem step_of_begin?_eq_none (h : s.begin? e = none) : s.step e.step = s := by
  unfold begin? at h
  split at h
  · cases h
  · next failure hread =>
    show (s.eval e.fuel e.file e.text).2 = s
    unfold eval
    rw [hread]

/-- The error of an evaluation is the error of the run that it starts. -/
theorem fails_of_begin?_eq_some {d : Diagnostic} (h : s.begin? e = some start)
    (hfails : (s.eval e.fuel e.file e.text).1 = .failure (.single d)) : start.Fails d := by
  rw [eval_of_begin?_eq_some h] at hfails
  obtain ⟨-, rfl⟩ := begin?_eq_some h
  have hanswer : answer (Eval.block e.fuel e.program.stmts s.globals .empty
      (s.setChunk e.chunk)).1 = .failure (.single d) := hfails
  rcases hresult : Eval.block e.fuel e.program.stmts s.globals .empty (s.setChunk e.chunk) with
    ⟨_ | _ | d' | _, s'⟩
  all_goals
    rw [hresult] at hanswer
    cases hanswer
  exact ⟨s', hresult⟩

/-! ## The moments with which evaluations start -/

/-- **The moments with which some evaluations start**, one after the other. -/
def starts (s : Session) : List Evaluation → Set Moment
  | [] => ∅
  | e :: es => {start | s.begin? e = some start} ∪ (s.step e.step).starts es

theorem mem_starts_append {past : List Evaluation}
    (h : (s.after (past.map Evaluation.step)).begin? e = some start) :
    start ∈ s.starts (past ++ [e]) := by
  induction past generalizing s with
  | nil => exact .inl h
  | cons e' past ih => exact .inr (ih h)

/-- An evaluation starts with its own chunk active, and with its whole text. -/
theorem exists_of_mem_starts {es : List Evaluation} (h : start ∈ s.starts es) :
    ∃ e ∈ es, e.program.errors = [] ∧ start.session.chunk = e.chunk ∧
      start.part.subtrees = e.chunk.subtrees := by
  induction es generalizing s with
  | nil => cases h
  | cons e es ih =>
      rcases h with h | h
      · obtain ⟨herrors, rfl⟩ := begin?_eq_some h
        exact ⟨e, List.mem_cons_self, herrors, rfl, rfl⟩
      · obtain ⟨e', he', hstart⟩ := ih h
        exact ⟨e', List.mem_cons_of_mem e he', hstart⟩

/-- **A session between runs**: its global scope exists, and all functions in memory may be in
sight. -/
structure Known (declared : Nat → Set Closure) (s : Session) : Prop where
  globals : s.globals < s.memory.scopes.size
  memory : s.memory.Known (s.inSight declared)

/-- A new session has no declared functions. -/
theorem known_new (options : Options) (declared : Nat → Set Closure) :
    (new options).Known declared := by
  have hempty : (({} : Memory)).Known ((new options).inSight declared) := fun _ _ _ hbound => by
    unfold Memory.bound Memory.scope? at hbound
    simp at hbound
  refine ⟨Nat.zero_lt_one, Memory.known_add hempty fun name v hlookup => ?_⟩
  obtain ⟨n, -, hn⟩ := List.mem_map.mp (mem_of_lookup hlookup)
  cases hn
  rintro c ⟨⟩

/-- **Evaluations find only functions that were declared on the way.** -/
theorem starts_fit {all : Set Moment} {es : List Evaluation} (hall : s.starts es ⊆ all)
    (hs : s.Known (Moment.Reaches.declarations all)) :
    ∀ start ∈ s.starts es, start.Fits (Moment.Reaches.declarations all) := by
  induction es generalizing s with
  | nil => exact fun _ h => absurd h (Set.notMem_empty _)
  | cons e es ih =>
      have hrest : (s.step e.step).starts es ⊆ all := fun _ h => hall (.inr h)
      cases hbegin : s.begin? e with
      | none =>
          rw [step_of_begin?_eq_none hbegin] at hrest
          rintro start (h | h)
          · cases hbegin.symm.trans h
          · rw [step_of_begin?_eq_none hbegin] at h
            exact ih hrest hs start h
      | some first =>
          -- the evaluation is one of those on the way, so that its run is sound
          have hreaches : Moment.Reaches all first first first.session.chunk first.session.chunk :=
            .start (hall (.inl hbegin))
          have hafter := step_of_begin?_eq_some hbegin
          obtain ⟨-, rfl⟩ := begin?_eq_some hbegin
          have hfirst : Moment.Fits (Moment.Reaches.declarations all)
              ⟨.block e.program.stmts s.globals .empty, e.fuel, s.setChunk e.chunk⟩ :=
            ⟨hs.globals, hs.memory, Value.known_empty⟩
          have hleaves := hreaches.sound hfirst
          have hknown : (s.step e.step).Known (Moment.Reaches.declarations all) := by
            rw [hafter]
            refine ⟨?_, hleaves.memory⟩
            rw [(Moment.effect_after _).balanced.2.2.2]
            exact hs.globals.trans_le hleaves.size_le
          rintro start (h | h)
          · cases hbegin.symm.trans h
            exact hfirst
          · exact ih hrest hknown start h

/-! ## Where errors are placed -/

/-- Errors are placed in the active chunk. -/
theorem diagnose_placedIn (hchunk : s.chunk = e.chunk) (p : Problem) (pos : Int) :
    (s.diagnose p pos).PlacedIn e.chunk := by
  unfold diagnose
  rw [hchunk, e.chunk_lineTable]
  exact ⟨rfl, rfl, rfl, rfl⟩

/-- **The chunk in which an error is placed.** In a session that evaluates one text after the
other, let an evaluation end in an error `d` of the run. Then `d` is raised at some moment; and
wherever it is raised, it is raised by a statement or an expression in the text of the owner, has
its offset, and is placed in the owner if and only if the owner is active. That is so if every text
that declares a function has a line break. -/
theorem runtime_error_placed_iff (options : Options) (past : List Evaluation) (e : Evaluation)
    (start : Moment) (d : Diagnostic)
    (hstart : ((new options).after (past.map Evaluation.step)).begin? e = some start)
    (hfails : (((new options).after (past.map Evaluation.step)).eval e.fuel e.file e.text).1 =
      .failure (.single d)) :
    (∃ m owner active,
      Moment.Reaches ((new options).starts (past ++ [e])) start m owner active ∧ m.Raises d) ∧
    ∀ (m : Moment) (owner active : Chunk) (d' : Diagnostic),
      Moment.Reaches ((new options).starts (past ++ [e])) start m owner active → m.Raises d' →
      d' = d ∧
      (∃ e' ∈ past ++ [e], owner = e'.chunk) ∧
      (∃ site ∈ owner.subtrees, m.part.root? = some site ∧ d.offset = site.offset) ∧
      0 ≤ d.offset ∧ d.offset < owner.text.length ∧
      d.PlacedIn active ∧
      (d.PlacedIn owner ↔ active = owner) ∧
      ((∀ e' ∈ past ++ [e], e'.chunk.DeclaresFunction → e'.chunk.lines.isSome = true) →
        active = owner) := by
  have hmem := mem_starts_append hstart
  have hfit := starts_fit (subset_refl _) (known_new options _) start hmem
  have hstarts : ∀ start ∈ (new options).starts (past ++ [e]),
      start.part.subtrees ⊆ start.session.chunk.subtrees := by
    intro start h
    obtain ⟨e', -, -, hchunk, hsubtrees⟩ := exists_of_mem_starts h
    rw [hchunk, hsubtrees]
    exact List.Subset.refl _
  have hd : start.Fails d := fails_of_begin?_eq_some hstart hfails
  refine ⟨(Moment.Reaches.start hmem).exists_raises hfit hd, ?_⟩
  intro m owner active d' hreaches hraises
  obtain rfl : d' = d := (hreaches.fails hraises.1).unique hd
  -- owner and active chunk are texts that were evaluated, and read without errors
  have hchunks : ∀ start ∈ (new options).starts (past ++ [e]), start.session.chunk ∈
      {c | ∃ e' ∈ past ++ [e], e'.program.errors = [] ∧ c = e'.chunk} := by
    intro start h
    obtain ⟨e', he', herrors, hchunk, -⟩ := exists_of_mem_starts h
    exact ⟨e', he', herrors, hchunk⟩
  obtain ⟨⟨e₁, he₁, herrors₁, rfl⟩, ⟨e₂, he₂, -, rfl⟩⟩ := hreaches.chunks_mem hchunks
  obtain ⟨site, p, hroot, rfl⟩ := hraises.eq_diagnose
  have hsite : site ∈ e₁.chunk.subtrees :=
    hreaches.subset hstarts (Part.root_mem_subtrees hroot)
  have hinside := Program.offset_inside herrors₁ site hsite
  have hplaced := diagnose_placedIn hreaches.chunk_eq p site.offset
  refine ⟨rfl, ⟨e₁, he₁, rfl⟩, ⟨site, hsite, hroot, rfl⟩, hinside.1, hinside.2, hplaced,
    ⟨fun howner => ?_, fun heq => heq ▸ hplaced⟩, fun hlines => ?_⟩
  · exact Evaluation.chunk_eq_of_file_of_text (hplaced.file_eq.symm.trans howner.file_eq)
      (hplaced.source_eq.symm.trans howner.source_eq)
  · refine hreaches.active_eq_owner hstarts fun start h hdeclares => ?_
    obtain ⟨e', he', -, hchunk, -⟩ := exists_of_mem_starts h
    rw [hchunk] at hdeclares ⊢
    exact hlines e' he' hdeclares

/-- Three texts: the last one calls a function of the second, which calls a function of the first,
where the error is raised. It is placed in the first text. -/
theorem runtime_error_placed_declaring :
    let a : Evaluation := ⟨30, utf8 "a", utf8 "fxn f() \x7b\n  x;\n\x7d"⟩
    let b : Evaluation := ⟨30, utf8 "b", utf8 "fxn g() \x7b\n  return f();\n\x7d"⟩
    let c : Evaluation := ⟨30, utf8 "c", utf8 "g();\n"⟩
    let s := (new {}).after ([a, b].map Evaluation.step)
    let d : Diagnostic :=
      ⟨.scope (.undefined (utf8 "x")), 12, 2, 3, [utf8 "f", utf8 "g"], a.file, a.text⟩
    (s.eval c.fuel c.file c.text).1 = .failure (.single d) ∧
      ∃ start, s.begin? c = some start ∧ ∃ m,
        Moment.Reaches ((new {}).starts [a, b, c]) start m a.chunk a.chunk ∧ m.Raises d ∧
        d.PlacedIn a.chunk := by
  intro a b c s d
  have hfails : (s.eval c.fuel c.file c.text).1 = .failure (.single d) :=
    Answer.eq_of_diagnostic? (by decide +kernel)
  have hbegin : (s.begin? c).isSome = true := by decide +kernel
  obtain ⟨start, hstart⟩ := Option.isSome_iff_exists.mp hbegin
  refine ⟨hfails, start, hstart, ?_⟩
  obtain ⟨⟨m, owner, active, hreaches, hraises⟩, hplace⟩ :=
    runtime_error_placed_iff {} [a, b] c start d hstart hfails
  obtain ⟨-, ⟨e, he, rfl⟩, -, -, -, -, hiff, hlines⟩ := hplace m owner active d hreaches hraises
  have hactive : active = e.chunk := hlines fun e' he' _ => by
    simp only [List.cons_append, List.nil_append, List.mem_cons, List.not_mem_nil, or_false] at he'
    rcases he' with rfl | rfl | rfl
    all_goals decide +kernel
  subst hactive
  have hplaced := hiff.mpr rfl
  -- the file tells which of the three texts it is
  simp only [List.cons_append, List.nil_append, List.mem_cons, List.not_mem_nil, or_false] at he
  rcases he with rfl | rfl | rfl
  · exact ⟨m, hreaches, hraises, hplaced⟩
  · exact absurd hplaced.file_eq (by decide +kernel)
  · exact absurd hplaced.file_eq (by decide +kernel)

/-- A function from a text without line breaks, called from another text: the error is placed in
the text of the call, and its offset lies outside of it. -/
theorem runtime_error_misplaced :
    let a : Evaluation := ⟨30, utf8 "a", utf8 "fxn f() \x7b return x; \x7d"⟩
    let b : Evaluation := ⟨30, utf8 "b", utf8 "f();\n"⟩
    let d : Diagnostic := ⟨.scope (.undefined (utf8 "x")), 17, 2, 13, [utf8 "f"], b.file, b.text⟩
    (((new {}).after [a.step]).eval b.fuel b.file b.text).1 = .failure (.single d) ∧
      ¬d.PlacedIn a.chunk ∧ (d.source.length : Int) ≤ d.offset := by
  intro a b d
  refine ⟨Answer.eq_of_diagnostic? (by decide +kernel), fun hplaced => ?_, by decide +kernel⟩
  exact absurd hplaced.file_eq (by decide +kernel)

end Session

end Badger
