import Badger.Proofs.Listing.Simulation
import Badger.Proofs.Listing.Source

/-!
# Listings behave like programs

What a program text does in a fresh session, its listing does on the machine. A listing therefore
determines the behaviour of the programs that have it, as far as a listing can tell them apart.

## Main definitions

* `Machine.execute`: executing the lines of a listing
* `Session.Legible`: programs of which a listing tells all that matters

## Main statements

* `Machine.run_of_eval`: a machine that runs the listing of a program ends where the session does
* `Session.execute_listing`: **a flat program without functions and its listing** write the same and
  leave the same variables
* `Session.output_eq_of_listing_eq`: **legible programs with the same listing write the same**
* `Session.output_ne_of_listing_eq`: no part of being legible can be left out

## Design notes

A listing does not show where a block begins and ends, writes a variable `t7` like the seventh
temporary, and has no line for a literal that is a statement. Each of these makes two programs with
different behaviour look the same.
-/

namespace Badger

namespace Machine

/-- **Executes the lines of a listing** from the first one, for at most so many lines. -/
def execute (lines : List Text) (n : Nat) : Option State :=
  (lines.mapM Instr.read?).bind fun code => run code n start

/-! ## Programs -/

variable {code : List Instr} {g : ScopeId}

/-- A listing is the instructions of the statements and the end. -/
theorem program_eq_ok {stmts : List Stmt} {lines : LineTable}
    (h : Listing.ofStmts stmts lines = .ok code) :
    ∃ part k, Lower.stmts false stmts {} = .ok ((), part, k) ∧ code = part ++ [.stop] := by
  unfold Listing.ofStmts at h
  split at h
  · next code' k heq =>
    cases h
    rw [Listing.program, Emit.bind_eq_ok] at heq
    obtain ⟨_, part, _, k, hstmts, hstop, rfl⟩ := heq
    cases hstop
    exact ⟨part, k, hstmts, rfl⟩
  · cases h

/-- A fresh session and a machine at the first line are in corresponding states. -/
theorem related_start {options : Options} (hecho : options.echoReturns = true) (chunk : Chunk) :
    Related code (Session.new options).globals (Session.new options).globals
      ((Session.new options).setChunk chunk) start where
  globals := rfl
  echoes := hecho
  output := rfl
  root := by
    refine ⟨{ bindings := Session.provided, limit := options.scopeDepth }, rfl, rfl, ?_⟩
    refine .cons ⟨rfl, _, rfl, .refl rfl⟩ (.cons ⟨rfl, _, rfl, .refl rfl⟩ .nil)
  own := .inl ⟨rfl, rfl⟩

/-- **The machine ends where the session does.** -/
theorem run_of_eval {options : Options} {stmts : List Stmt} {lines : LineTable}
    (hecho : options.echoReturns = true) (hcode : Listing.ofStmts stmts lines = .ok code)
    (hflat : Stmt.areFlat false stmts = true)
    (hbodies : ∀ body ∈ Stmt.listFxnBodies stmts, Stmt.areValued body = true)
    {fuel : Nat} {chunk : Chunk} {v : Value} {later : Session}
    (heval : ((Session.new options).setChunk chunk).runProgram fuel stmts = (.value v, later)) :
    ∃ n final, run code n start = some final ∧
      Related code (Session.new options).globals (Session.new options).globals later final := by
  obtain ⟨part, k, hlower, rfl⟩ := program_eq_ok hcode
  have hlabels : (Lower.marks (part ++ [.stop])).Nodup := by
    simpa [Instr.marked?] using (Lower.stmts_labelled stmts hlower).nodup
  obtain ⟨hholds, hstop⟩ := holds_append.mp (holds_self (part ++ [Instr.stop]))
  have harrives := (simulates (g := (Session.new options).globals) hlabels fuel).block .empty hlower
    hflat hbodies (fun _ => rfl) (fun _ => rfl) hholds (related_start hecho chunk) .base rfl
  have hglobals : ((Session.new options).setChunk chunk).globals = (Session.new options).globals :=
    rfl
  unfold Session.runProgram at heval
  rcases hresult : Eval.block fuel stmts (Session.new options).globals .empty
    ((Session.new options).setChunk chunk) with ⟨v' | v' | d | _, later'⟩
  all_goals
    rw [hglobals, hresult] at heval
    rw [hresult] at harrives
  · -- the end of the program
    cases heval
    obtain ⟨final, hreached, hline, -, -⟩ := harrives
    obtain ⟨n, hrun⟩ := run_eq_some_iff.mpr ⟨hreached.steps, by
      unfold State.isDone
      rw [hline, show start.line + part.length = 0 + part.length from rfl, hstop.1]⟩
    exact ⟨n, final, hrun, hreached.related⟩
  · -- a return outside every call
    cases heval
    obtain ⟨final, o, hreached, hret, -⟩ := harrives
    obtain ⟨n, hrun⟩ := run_eq_some_iff.mpr ⟨hreached.steps, by
      unfold State.isDone
      rw [hret, hreached.callers]
      rfl⟩
    exact ⟨n, final, hrun, hreached.related⟩
  · cases heval
  · cases heval

/-- Where no function ends, corresponding values are equal. -/
theorem Similar.eq {v w : Value} (h : Similar code g v w) (hcode : ∀ i ∈ code, i.frames = false) :
    w = v := by
  cases h with
  | refl _ => rfl
  | custom h =>
    obtain ⟨part, k, k', -, hholds⟩ := h.placed
    have hend := (holds_append.mp hholds).2.1
    exact absurd (hcode _ (List.mem_of_getElem? hend)) (by decide)

theorem Matches.eq {bindings : List (Text × Value)} {vars : Variables}
    (h : Matches code g bindings vars) (hcode : ∀ i ∈ code, i.frames = false) :
    vars = bindings.map fun b => (b.1, some b.2) := by
  induction h with
  | nil => rfl
  | cons hhead _ ih =>
    obtain ⟨hname, w, hw, hsimilar⟩ := hhead
    rw [List.map_cons, ← ih, ← hname, ← hsimilar.eq hcode, ← hw]

end Machine

namespace Session

open Machine

/-- What evaluating a text that can be read comes to. -/
theorem eval_of_readChunk {s : Session} {text : Text} {stmts : List Stmt} {stream : TokenStream}
    (h : readChunk s.options.strict text = .ok (stmts, stream)) (fuel : Nat) (file : Text) :
    s.eval fuel file text =
      (s.setChunk (Chunk.ofStream file text stream)).runProgram fuel stmts := by
  unfold eval
  rw [h]

/-- **Legible programs.** Nothing is declared inside a block, no name looks like that of a
temporary, and the value of every function is told by its instructions. -/
structure Legible (stmts : List Stmt) (stream : TokenStream) : Prop where
  flat : Stmt.areFlat false stmts = true
  names : ∀ t ∈ stream.tokens, t.kind = .ident → tempNumber? t.lexeme = none
  valued : ∀ body ∈ Stmt.listFxnBodies stmts, Stmt.areValued body = true

instance (stmts : List Stmt) (stream : TokenStream) : Decidable (Legible stmts stream) :=
  decidable_of_iff
    (Stmt.areFlat false stmts = true ∧
      (∀ t ∈ stream.tokens, t.kind = .ident → tempNumber? t.lexeme = none) ∧
      ∀ body ∈ Stmt.listFxnBodies stmts, Stmt.areValued body = true)
    ⟨fun h => ⟨h.1, h.2.1, h.2.2⟩, fun h => ⟨h.flat, h.names, h.valued⟩⟩

/-- A text that can be read and passes a test. -/
theorem readChunk_of_test {strict : Bool} {text : Text} {test : List Stmt → TokenStream → Bool}
    (h : ((readChunk strict text).toOption.map fun p => test p.1 p.2) = some true) :
    ∃ stmts stream, readChunk strict text = .ok (stmts, stream) ∧ test stmts stream = true := by
  cases hread : readChunk strict text with
  | error f =>
    rw [hread] at h
    cases h
  | ok p =>
    rw [hread] at h
    exact ⟨p.1, p.2, rfl, Option.some.inj h⟩

/-- What a text writes that runs through in a fresh session. -/
def written? (fuel : Nat) (text : Text) : Option Text :=
  match (new {}).eval fuel [] text with
  | (.value _, later) => some later.output
  | _ => none

theorem eval_of_written? {fuel : Nat} {text out : Text} (h : written? fuel text = some out) :
    ∃ v later, (new {}).eval fuel [] text = (.value v, later) ∧ later.output = out := by
  unfold written? at h
  split at h
  · next v later heval =>
    cases h
    exact ⟨v, later, heval, rfl⟩
  · cases h

/-- The lines of the listing of a text. -/
def listing? (strict : Bool) (text : Text) : Option (List Text) :=
  match readChunk strict text with
  | .ok (stmts, stream) =>
    (Listing.ofStmts stmts stream.lines).toOption.map fun code => code.map Instr.render
  | .error _ => none

theorem listing?_of_ok {strict : Bool} {text : Text} {stmts : List Stmt} {stream : TokenStream}
    {code : List Instr} (hread : readChunk strict text = .ok (stmts, stream))
    (hcode : Listing.ofStmts stmts stream.lines = .ok code) :
    listing? strict text = some (code.map Instr.render) := by
  unfold listing?
  rw [hread]
  simp only [hcode]
  rfl

theorem exists_ok {ε α : Type} {x : Except ε α} (h : x.toBool = true) : ∃ a, x = .ok a := by
  cases x with
  | error e => cases h
  | ok a => exact ⟨a, rfl⟩

/-- **Flat programs and their listings.** A program without functions that declares its variables at
the top level has a listing; and if the program runs through in a fresh session, the lines of the
listing can be executed, write the same and leave every variable with the same value. -/
theorem execute_listing (options : Options) (hecho : options.echoReturns = true) {text : Text}
    {stmts : List Stmt} {stream : TokenStream}
    (hread : readChunk options.strict text = .ok (stmts, stream))
    (hfxn : Stmt.listFxnBodies stmts = []) (hflat : Stmt.areFlat false stmts = true)
    (hnames : ∀ t ∈ stream.tokens, t.kind = .ident → tempNumber? t.lexeme = none)
    {fuel : Nat} {file : Text} {v : Value} {later : Session}
    (heval : (new options).eval fuel file text = (.value v, later)) :
    ∃ code n final, Listing.ofStmts stmts stream.lines = .ok code ∧
      execute (code.map Instr.render) n = some final ∧
      final.output = later.output ∧
      final.globals = later.globalBindings.map fun b => (b.1, some b.2) := by
  have hreadable := readable_of_readChunk hread hnames
  obtain ⟨code, hcode, hframes⟩ := Listing.exists_ofStmts hreadable hfxn stream.lines
  rw [eval_of_readChunk (s := new options) hread] at heval
  obtain ⟨n, final, hrun, hrelated⟩ := run_of_eval hecho hcode hflat (by simp [hfxn]) heval
  have hlines := Listing.mapM_read?_render (Listing.readable_of_ofStmts hreadable hcode)
  refine ⟨code, n, final, hcode, ?_, hrelated.output, ?_⟩
  · rw [execute, hlines]
    exact hrun
  · obtain ⟨root, hroot, -, hmatches⟩ := hrelated.root
    rw [globalBindings, hrelated.globals, hroot, hmatches.eq hframes]
    rfl

/-- A loop, an assignment among the operands of a sum, and a return at the end. -/
theorem execute_listing_loop :
    let text := utf8 "num a = 1; num b; while (a < 3) \x7b a = a + 1; b = b + a; \x7d" ++
      utf8 "println(a + (a = 5)); return b;"
    ∃ stmts stream v later code n final, readChunk false text = .ok (stmts, stream) ∧
      (new {}).eval 60 [] text = (.value v, later) ∧
      Listing.ofStmts stmts stream.lines = .ok code ∧
      execute (code.map Instr.render) n = some final ∧ final.output = utf8 "8\n5\n" ∧
      final.globals = later.globalBindings.map fun b => (b.1, some b.2) := by
  intro text
  let test (stmts : List Stmt) (stream : TokenStream) : Bool :=
    (Stmt.listFxnBodies stmts).isEmpty && decide (Legible stmts stream)
  obtain ⟨stmts, stream, hread, htest⟩ := readChunk_of_test
    (by decide +kernel : ((readChunk false text).toOption.map fun p => test p.1 p.2) = some true)
  obtain ⟨hfxn, hlegible⟩ := Bool.and_eq_true_iff.mp htest
  have hlegible := of_decide_eq_true hlegible
  obtain ⟨v, later, heval, houtput⟩ := eval_of_written?
    (by decide +kernel : written? 60 text = some (utf8 "8\n5\n"))
  obtain ⟨code, n, final, hcode, hrun, hsame, hglobals⟩ := execute_listing {} rfl hread
    (List.isEmpty_iff.mp hfxn) hlegible.flat hlegible.names heval
  exact ⟨stmts, stream, v, later, code, n, final, hread, heval, hcode, hrun, hsame.trans houtput,
    hglobals⟩

/-- **A listing determines what is written.** Legible programs with the same lines that run through
in a fresh session write the same. -/
theorem output_eq_of_listing_eq (options : Options) (hecho : options.echoReturns = true)
    {textP textQ : Text} {stmtsP stmtsQ : List Stmt} {streamP streamQ : TokenStream}
    (hreadP : readChunk options.strict textP = .ok (stmtsP, streamP))
    (hreadQ : readChunk options.strict textQ = .ok (stmtsQ, streamQ))
    (hP : Legible stmtsP streamP) (hQ : Legible stmtsQ streamQ)
    {codeP codeQ : List Instr} (hcodeP : Listing.ofStmts stmtsP streamP.lines = .ok codeP)
    (hcodeQ : Listing.ofStmts stmtsQ streamQ.lines = .ok codeQ)
    (hlines : codeP.map Instr.render = codeQ.map Instr.render)
    {fuelP fuelQ : Nat} {fileP fileQ : Text} {v w : Value} {laterP laterQ : Session}
    (hevalP : (new options).eval fuelP fileP textP = (.value v, laterP))
    (hevalQ : (new options).eval fuelQ fileQ textQ = (.value w, laterQ)) :
    laterP.output = laterQ.output := by
  have hbackP := Listing.mapM_read?_render
    (Listing.readable_of_ofStmts (readable_of_readChunk hreadP hP.names) hcodeP)
  have hbackQ := Listing.mapM_read?_render
    (Listing.readable_of_ofStmts (readable_of_readChunk hreadQ hQ.names) hcodeQ)
  obtain rfl : codeP = codeQ := Option.some.inj (by rw [← hbackP, ← hbackQ, hlines])
  rw [eval_of_readChunk (s := new options) hreadP] at hevalP
  rw [eval_of_readChunk (s := new options) hreadQ] at hevalQ
  obtain ⟨n, final, hrunP, hrelatedP⟩ := run_of_eval hecho hcodeP hP.flat hP.valued hevalP
  obtain ⟨m, final', hrunQ, hrelatedQ⟩ := run_of_eval hecho hcodeQ hQ.flat hQ.valued hevalQ
  obtain rfl := run_unique hrunP hrunQ
  rw [← hrelatedP.output, ← hrelatedQ.output]

/-- Two texts that differ in parentheses and blocks. -/
theorem output_eq_of_listing_eq_blocks :
    let p := utf8 "num x = 1; fxn f(a) \x7b return a + x; \x7d println(f(2));"
    let q := utf8 "num x = (1); fxn f(a) \x7b \x7b return (a + x); \x7d \x7d" ++
      utf8 "\x7b println(f((2))); \x7d"
    ∃ v w laterP laterQ, (new {}).eval 60 [] p = (.value v, laterP) ∧
      (new {}).eval 60 [] q = (.value w, laterQ) ∧ listing? false q = listing? false p ∧
      laterP.output = laterQ.output := by
  intro p q
  have hsame : listing? false q = listing? false p := by decide +kernel
  let test (stmts : List Stmt) (stream : TokenStream) : Bool :=
    (Listing.ofStmts stmts stream.lines).toBool && decide (Legible stmts stream)
  obtain ⟨stmtsP, streamP, hreadP, htestP⟩ := readChunk_of_test
    (by decide +kernel : ((readChunk false p).toOption.map fun r => test r.1 r.2) = some true)
  obtain ⟨stmtsQ, streamQ, hreadQ, htestQ⟩ := readChunk_of_test
    (by decide +kernel : ((readChunk false q).toOption.map fun r => test r.1 r.2) = some true)
  obtain ⟨hcodeP, hP⟩ := Bool.and_eq_true_iff.mp htestP
  obtain ⟨hcodeQ, hQ⟩ := Bool.and_eq_true_iff.mp htestQ
  obtain ⟨codeP, hcodeP⟩ := exists_ok hcodeP
  obtain ⟨codeQ, hcodeQ⟩ := exists_ok hcodeQ
  obtain ⟨v, laterP, hevalP, -⟩ := eval_of_written?
    (by decide +kernel : written? 60 p = some (utf8 "3\n3\n"))
  obtain ⟨w, laterQ, hevalQ, -⟩ := eval_of_written?
    (by decide +kernel : written? 60 q = some (utf8 "3\n3\n"))
  have hlines : codeP.map Instr.render = codeQ.map Instr.render := by
    rw [listing?_of_ok hreadP hcodeP, listing?_of_ok hreadQ hcodeQ] at hsame
    exact (Option.some.inj hsame).symm
  exact ⟨v, w, laterP, laterQ, hevalP, hevalQ, hsame,
    output_eq_of_listing_eq {} rfl hreadP hreadQ (of_decide_eq_true hP) (of_decide_eq_true hQ)
      hcodeP hcodeQ hlines hevalP hevalQ⟩

/-- Two texts with the same listing that run through in a fresh session and write different
things. -/
def Confusable (p q : Text) : Prop :=
  ∃ lines fuel outP outQ, listing? false p = some lines ∧ listing? false q = some lines ∧
    written? fuel p = some outP ∧ written? fuel q = some outQ ∧ outP ≠ outQ

theorem confusable_of_eq {p q : Text} (fuel : Nat) (outP outQ : Text)
    (hlisting : (listing? false p).isSome = true) (hsame : listing? false q = listing? false p)
    (hp : written? fuel p = some outP) (hq : written? fuel q = some outQ) (hne : outP ≠ outQ) :
    Confusable p q := by
  obtain ⟨lines, hlines⟩ := Option.isSome_iff_exists.mp hlisting
  exact ⟨lines, fuel, outP, outQ, hlines, hsame.trans hlines, hp, hq, hne⟩

/-- **What a listing does not tell.** Which declarations belong to a block; whether `t3` is a
variable or a temporary; and the value of a function that ends in a literal. -/
theorem output_ne_of_listing_eq :
    Confusable (utf8 "\x7b num x = 1; \x7b num x = 2; \x7d println(x); \x7d")
        (utf8 "\x7b num x = 1; \x7d \x7b num x = 2; println(x); \x7d") ∧
      (let declared := utf8
        "fxn t3() \x7b println(1); \x7d fxn g() \x7b println(2); \x7d fxn f() \x7b return g; \x7d "
      Confusable (declared ++ utf8 "f()();") (declared ++ utf8 "f(); t3();")) ∧
      Confusable (utf8 "fxn f() \x7b 5; \x7d println(f());")
        (utf8 "fxn f() \x7b 6; \x7d println(f());") := by
  refine ⟨?_, ?_, ?_⟩
  · exact confusable_of_eq 40 (utf8 "1\n") (utf8 "2\n") (by decide +kernel) (by decide +kernel)
      (by decide +kernel) (by decide +kernel) (by decide)
  · exact confusable_of_eq 40 (utf8 "<fxn g>\n2\n") (utf8 "<fxn g>\n1\n") (by decide +kernel)
      (by decide +kernel) (by decide +kernel) (by decide +kernel) (by decide)
  · exact confusable_of_eq 40 (utf8 "5\n") (utf8 "6\n") (by decide +kernel) (by decide +kernel)
      (by decide +kernel) (by decide +kernel) (by decide)

end Session

end Badger
