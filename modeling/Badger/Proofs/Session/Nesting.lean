import Badger.Proofs.Session.Balance
import Badger.Proofs.Tree.Nesting

/-!
# Scopes lie as deep as the text is nested

A statement runs in a scope that lies as deep as the statement is nested in the text of its owner:
as many scopes lie around it as there are braces around the statement, however deep calls are
nested and whichever text they come from. A text that is not nested deeper than the limit of scopes
therefore never meets this limit.

## Main definitions

* `Chunk.nesting`: the statements in the text of a chunk with the number of braces around them
* `Part.Stands`: that a part stands in a text where so many braces enclose it
* `Moment.Placed`: that a part runs in a scope as deep as it stands in the text of its owner

## Main statements

* `Moment.Runs.stands`: what a run is made of stands where the whole stands, or one pair of braces
  deeper in a new scope
* `Moment.Reaches.placed`: whatever is run is placed, if evaluations start so
* `Moment.Placed.ne_tooDeep`: no search is cut short in a text that is not nested too deep
* `Session.depth_eq_nesting`: depth of scopes and nesting of statements in a session

## Design notes

A call goes back to the moment of a declaration, and that need not come before the call: another
declaration may have made an equal function. What matters is the scope that the function remembers.
It exists at the declaration and at the call, and a scope lies at one depth as long as it exists.
-/

namespace Badger

/-! ## Where parts stand -/

/-- The statements in the text of a chunk, each with the number of braces that enclose it. -/
def Chunk.nesting (c : Chunk) : List (Nat × Stmt) :=
  (Program.ofTokens (TokenStream.ofText c.text).tokens 0).nesting

/-- **Standing.** The statements of a part are statements of a text, where so many braces enclose
the part; an expression or an argument stands where a statement does. -/
def Part.Stands (text : List (Nat × Stmt)) (around : Nat) : Part → Prop
  | .expr _ _ | .args _ _ => ∃ st, (around, st) ∈ text
  | .stmt st _ => st.nesting around ⊆ text
  | .block ss _ _ => Stmt.listNesting around ss ⊆ text
  | .loop _ body _ _ => body.nesting around ⊆ text

/-- A statement or an expression stands where a statement does. -/
theorem Part.Stands.exists_mem {text : List (Nat × Stmt)} {around : Nat} {part : Part}
    {site : Subtree} (h : part.Stands text around) (hroot : part.root? = some site) :
    ∃ st, (around, st) ∈ text := by
  cases part with
  | expr e scope => exact h
  | stmt st scope => exact ⟨st, h (st.mem_nesting around)⟩
  | _ => cases hroot

namespace Moment

open Session Run

variable {m m' : Moment} {c : Closure} {text : List (Nat × Stmt)} {around limit : Nat}

/-- **What a run is made of stands where the whole stands**, in the same scope, or one pair of
braces deeper in a new scope, calls apart. -/
theorem Runs.stands (h : Runs m none m') (hm : m.part.Stands text around) :
    (m'.part.scope = m.part.scope ∧ m'.part.Stands text around) ∨
      (m'.part.scope = m.session.memory.scopes.size ∧
        m'.session = (m.session.openScope m.part.scope).2 ∧
        m'.part.Stands text (around + 1)) := by
  cases h with
  | group | assigned | operand | left | right | callee | arguments | argument | otherArguments
  | round | otherRounds => exact .inl ⟨rfl, hm⟩
  | expression | returned | initial | ifCondition | elseCondition =>
      exact .inl ⟨rfl, _, hm (Stmt.mem_nesting around _)⟩
  | condition => exact .inl ⟨rfl, _, hm (Stmt.mem_nesting around _)⟩
  | braces =>
      refine .inr ⟨(size_enclose _ _).1, rfl, fun p hp => hm ?_⟩
      exact List.mem_cons_of_mem _ hp
  | ifYes | loop => exact .inl ⟨rfl, fun p hp => hm (List.mem_cons_of_mem _ hp)⟩
  | elseYes =>
      exact .inl ⟨rfl, fun p hp => hm (List.mem_cons_of_mem _ (List.mem_append_left _ hp))⟩
  | elseNo =>
      exact .inl ⟨rfl, fun p hp => hm (List.mem_cons_of_mem _ (List.mem_append_right _ hp))⟩
  | first => exact .inl ⟨rfl, fun p hp => hm (List.mem_append_left _ hp)⟩
  | skipped | others => exact .inl ⟨rfl, fun p hp => hm (List.mem_append_right _ hp)⟩

/-- The body of a function stands one pair of braces deeper than its declaration. -/
theorem Declares.stands {m₀ : Moment} (hdeclares : m₀.Declares c) (hm : m₀.part.Stands text around)
    (hruns : Runs m (some c) m') : m'.part.Stands text (around + 1) := by
  cases hdeclares
  cases hruns
  exact fun p hp => hm (List.mem_cons_of_mem _ hp)

/-! ## Depth of scopes -/

/-- **A part is placed** if as many scopes lie around the one in which it runs as braces around it
in the text of its owner, and if this scope has the limit of the session. -/
structure Placed (limit : Nat) (owner : Chunk) (m : Moment) : Prop where
  ordered : m.session.memory.Ordered
  stands : m.part.Stands owner.nesting (m.session.memory.depth m.part.scope)
  limit_eq : m.session.memory.limit m.part.scope = limit

/-- What is run in a new scope is placed if it stands one pair of braces deeper. -/
theorem Placed.of_encloses {owner : Chunk} {outer : ScopeId} (hordered : m'.session.memory.Ordered)
    (hencloses : m'.session.memory.Encloses outer m'.part.scope)
    (hstands : m'.part.Stands owner.nesting (m'.session.memory.depth outer + 1))
    (hlimit : m'.session.memory.limit outer = limit) : m'.Placed limit owner := by
  refine ⟨hordered, ?_, hencloses.limit_eq.trans hlimit⟩
  rw [hencloses.depth_eq hordered]
  exact hstands

/-- What a run is made of is placed if the run is, calls apart. -/
theorem Runs.placed {owner : Chunk} (h : Runs m none m') (hm : m.Placed limit owner)
    (hscope : m.part.scope < m.session.memory.scopes.size) : m'.Placed limit owner := by
  have hordered := h.later.ordered hm.ordered
  have hdepth := h.later.depth_eq hscope
  have hlimit := h.later.limit_eq hscope
  rcases h.stands hm.stands with ⟨hsame, hstands⟩ | ⟨hnew, hsession, hstands⟩
  · refine ⟨hordered, ?_, ?_⟩
    · rw [hsame, hdepth]
      exact hstands
    · rw [hsame, hlimit]
      exact hm.limit_eq
  · have hencloses : m'.session.memory.Encloses m.part.scope m'.part.scope := by
      rw [hnew, hsession]
      exact Memory.encloses_enclose hscope
    exact .of_encloses hordered hencloses (hdepth.symm ▸ hstands) (hlimit.trans hm.limit_eq)

/-- **No search is cut short** where no statement is enclosed by more braces than enclosing scopes
may be visited. -/
theorem Placed.ne_tooDeep {owner : Chunk} {d : Diagnostic} (hm : m.Placed limit owner)
    (hscope : m.part.scope < m.session.memory.scopes.size)
    (hnesting : ∀ p ∈ owner.nesting, p.1 ≤ limit) (hraises : m.Raises d) (limit' : Nat) :
    d.problem ≠ .scope (.tooDeep limit') := by
  obtain ⟨site, hroot, p, harises, rfl⟩ := hraises.errorAt
  intro hp
  obtain ⟨s', name, hlater, hresolve⟩ := harises limit' hp
  obtain ⟨st, hst⟩ := hm.stands.exists_mem hroot
  have hdepth : s'.memory.depth m.part.scope ≤ s'.memory.limit m.part.scope := by
    rw [hlater.depth_eq hscope, hlater.limit_eq hscope, hm.limit_eq]
    exact hnesting _ hst
  exact Memory.resolve_ne_tooDeep (hlater.ordered hm.ordered) hdepth name limit' hresolve

namespace Reaches

variable {starts : Set Moment} {start : Moment} {owner active : Chunk} {final : Session}

/-- Whatever is run ends before the last session. -/
theorem later_final (hfinal : ∀ start ∈ starts, Later Set.univ start.after final)
    (h : Reaches starts start m owner active) : Later Set.univ m.after final := by
  induction h with
  | start h => exact hfinal _ h
  | part _ hruns ih => exact hruns.later_after.trans ih
  | call _ hruns _ _ ih _ => exact hruns.later_after.trans ih

/-- **A scope is the same at all moments**: where it exists it has the depth and the limit that it
has in the last session. -/
theorem depth_final (hfinal : ∀ start ∈ starts, Later Set.univ start.after final)
    (h : Reaches starts start m owner active) {id : ScopeId}
    (hid : id < m.session.memory.scopes.size) :
    final.memory.depth id = m.session.memory.depth id ∧
      final.memory.limit id = m.session.memory.limit id := by
  have hlater := m.effect_after.later.trans (h.later_final hfinal)
  exact ⟨hlater.depth_eq hid, hlater.limit_eq hid⟩

/-- **Whatever is run fits and is placed**, if that is so at the start. -/
theorem placed (hfinal : ∀ start ∈ starts, Later Set.univ start.after final)
    (hfits : ∀ start ∈ starts, start.Fits (declarations starts))
    (hplaced : ∀ start ∈ starts, start.Placed limit start.session.chunk)
    (h : Reaches starts start m owner active) :
    m.Fits (declarations starts) ∧ m.Placed limit owner := by
  induction h with
  | start h => exact ⟨hfits _ h, hplaced _ h⟩
  | part h hruns ih =>
      obtain ⟨hm, hmplaced⟩ := ih
      exact ⟨(h.next hm hruns).1, hruns.placed hmplaced hm.scope⟩
  | @call start m m' start₀ m₀ owner active owner₀ active₀ c h hruns h₀ hdeclares ih ih₀ =>
      obtain ⟨hm, hmplaced⟩ := ih
      obtain ⟨hm₀, hm₀placed⟩ := ih₀
      have hm' := (h.next hm hruns).1
      refine ⟨hm', ?_⟩
      -- the scope of the function exists when it is called, and it did when it was declared
      have hcalled : c.scope < m'.part.scope :=
        (hruns.called_mem (declarations_mono starts) hm
          fun _ hruns₁ hm₁ => (h.part hruns₁).sound hm₁).1
      have hdeclared : c.scope < m₀.session.memory.scopes.size := hdeclares.scope_eq ▸ hm₀.scope
      have hcall := h.call hruns h₀ hdeclares
      obtain ⟨hdepth', hlimit'⟩ := hcall.depth_final hfinal (hcalled.trans hm'.scope)
      obtain ⟨hdepth₀, hlimit₀⟩ := h₀.depth_final hfinal hdeclared
      have hordered := hruns.later.ordered hmplaced.ordered
      refine .of_encloses hordered (hruns.encloses_called hcalled) ?_ ?_
      · rw [← hdepth', hdepth₀, hdeclares.scope_eq]
        exact hdeclares.stands hm₀placed.stands hruns
      · rw [← hlimit', hlimit₀, hdeclares.scope_eq]
        exact hm₀placed.limit_eq

end Reaches

end Moment

/-! ## Sessions -/

namespace Session

variable {s : Session} {es : List Evaluation} {limit : Nat}

theorem ordered_new (options : Options) : (new options).memory.Ordered := by
  have hempty : ({} : Memory).Ordered := fun _ _ _ h =>
    absurd (Memory.lt_size_of_frame h) (Nat.not_lt_zero _)
  exact (Move.reset { options := options } : Move Set.univ _ _).ordered hempty

theorem rooted_new (options : Options) :
    (new options).memory.frame (new options).globals = some (none, options.scopeDepth) :=
  (Memory.frame_add {} _ _).trans (if_pos rfl)

/-- Evaluating a text changes neither the global scope nor what is around it. -/
theorem rooted_step (h : s.memory.frame s.globals = some (none, limit)) (e : Evaluation) :
    (s.step e.step).memory.frame (s.step e.step).globals = some (none, limit) := by
  have hglobals : (s.step e.step).globals = s.globals := by
    cases hbegin : s.begin? e with
    | none => rw [step_of_begin?_eq_none hbegin]
    | some start =>
        rw [step_of_begin?_eq_some hbegin, start.effect_after.balanced.2.2.2]
        obtain ⟨-, rfl⟩ := begin?_eq_some hbegin
        rfl
  rw [hglobals, (later_step s e.step).frame_eq (Memory.lt_size_of_frame h)]
  exact h

/-- **Evaluations start placed**: in the global scope, where no braces are around. -/
theorem starts_placed (hordered : s.memory.Ordered)
    (hroot : s.memory.frame s.globals = some (none, limit)) :
    ∀ start ∈ s.starts es, start.Placed limit start.session.chunk := by
  induction es generalizing s with
  | nil => exact fun _ h => absurd h (Set.notMem_empty _)
  | cons e es ih =>
      rintro start (h | h)
      · obtain ⟨-, rfl⟩ := begin?_eq_some h
        refine ⟨hordered, ?_, Memory.limit_of_frame hroot⟩
        show Stmt.listNesting (s.memory.depth s.globals) e.program.stmts ⊆ e.chunk.nesting
        rw [Memory.depth_root hroot]
        exact List.Subset.refl _
      · exact ih ((later_step s e.step).ordered hordered) (rooted_step hroot e) start h

/-- Evaluations end before the last session. -/
theorem starts_later :
    ∀ start ∈ s.starts es, Later Set.univ start.after (s.after (es.map Evaluation.step)) := by
  induction es generalizing s with
  | nil => exact fun _ h => absurd h (Set.notMem_empty _)
  | cons e es ih =>
      rintro start (h | h)
      · rw [List.map_cons, after_cons, step_of_begin?_eq_some h]
        exact later_after _ _
      · exact ih start h

/-- A text that cannot be read is not refused because of a name. -/
theorem ne_scope_of_begin?_eq_none {e : Evaluation} {d : Diagnostic} (h : s.begin? e = none)
    (hd : (s.eval e.fuel e.file e.text).1 = .failure (.single d)) (q : ScopeProblem) :
    d.problem ≠ .scope q := by
  unfold begin? at h
  unfold eval at hd
  split at h
  · cases h
  · next failure hread =>
    rw [hread] at hd
    cases hd
    unfold readChunk at hread
    split at hread
    · next hstream =>
      cases hread
      exact TokenStream.ne_scope_of_read hstream q
    · dsimp only at hread
      split at hread <;> cases hread

/-- **The depth of scopes is the nesting of the text.** In a session that evaluates one text after
the other, let a text be evaluated. Whatever that run comes to has an owner, one of the texts. A
statement that is about to run in a scope is a statement of its owner, enclosed by as many braces,
those of blocks and of bodies of functions, as scopes lie around this scope, and by no other number
of them. If no statement of a text that can be read is enclosed by more braces than enclosing scopes
may be visited, then no evaluation fails because a search for a name was cut short. -/
theorem depth_eq_nesting (options : Options) (past : List Evaluation) (e : Evaluation) :
    (∀ start, ((new options).after (past.map Evaluation.step)).begin? e = some start →
      (∀ m, start.Visits m → ∃ owner active,
        Moment.Reaches ((new options).starts (past ++ [e])) start m owner active) ∧
      ∀ (m : Moment) (owner active : Chunk),
        Moment.Reaches ((new options).starts (past ++ [e])) start m owner active →
        (∃ e' ∈ past ++ [e], owner = e'.chunk) ∧
        ∀ (st : Stmt) (scope : ScopeId), m.part = .stmt st scope →
          (m.session.memory.depth scope, st) ∈ owner.nesting ∧
          ∀ around, (around, st) ∈ owner.nesting → around = m.session.memory.depth scope) ∧
    ((∀ e' ∈ past ++ [e], e'.program.errors = [] →
        ∀ p ∈ e'.chunk.nesting, p.1 ≤ options.scopeDepth) →
      ∀ d, (((new options).after (past.map Evaluation.step)).eval e.fuel e.file e.text).1 =
          .failure (.single d) →
        ∀ limit, d.problem ≠ .scope (.tooDeep limit)) := by
  have hfinal := @starts_later (new options) (past ++ [e])
  have hfits := starts_fit (subset_refl _) (known_new options (Moment.Reaches.declarations
    ((new options).starts (past ++ [e]))))
  have hstarts := @starts_placed _ (past ++ [e]) _ (ordered_new options) (rooted_new options)
  -- owners are texts that were read without errors
  have hchunks : ∀ start ∈ (new options).starts (past ++ [e]), start.session.chunk ∈
      {c | ∃ e' ∈ past ++ [e], e'.program.errors = [] ∧ c = e'.chunk} := by
    intro start h
    obtain ⟨e', he', herrors, hchunk, -⟩ := exists_of_mem_starts h
    exact ⟨e', he', herrors, hchunk⟩
  refine ⟨fun start hstart => ⟨fun m hvisits => ?_, fun m owner active hreaches => ?_⟩,
    fun hnesting d hd limit => ?_⟩
  · have hmem := mem_starts_append hstart
    exact (Moment.Reaches.start hmem).exists_of_visits (hfits start hmem) hvisits
  · obtain ⟨-, hplaced⟩ := hreaches.placed hfinal hfits hstarts
    obtain ⟨⟨e', he', herrors, rfl⟩, -⟩ := hreaches.chunks_mem hchunks
    refine ⟨⟨e', he', rfl⟩, fun st scope hpart => ?_⟩
    have hstands := hplaced.stands
    rw [hpart] at hstands
    have hmem := hstands (st.mem_nesting _)
    exact ⟨hmem, fun around haround => Program.nesting_unique herrors haround hmem⟩
  · cases hbegin : ((new options).after (past.map Evaluation.step)).begin? e with
    | none => exact ne_scope_of_begin?_eq_none hbegin hd _
    | some start =>
        have hmem := mem_starts_append hbegin
        obtain ⟨m, owner, active, hreaches, hraises⟩ :=
          (Moment.Reaches.start hmem).exists_raises (hfits start hmem)
            (fails_of_begin?_eq_some hbegin hd)
        obtain ⟨hm, hplaced⟩ := hreaches.placed hfinal hfits hstarts
        obtain ⟨⟨e', he', herrors, rfl⟩, -⟩ := hreaches.chunks_mem hchunks
        exact hplaced.ne_tooDeep hm.scope (hnesting e' he' herrors) hraises limit

/-- A function that calls itself, declared in one text and called from another. The statement that
fails is enclosed by two pairs of braces, and after three calls two scopes lie around it. -/
theorem depth_eq_nesting_recursion :
    let options : Options := { scopeDepth := 2 }
    let a : Evaluation := ⟨60, utf8 "a", utf8 "fxn f(s) \x7b
  if (s == \"bb\") \x7b num x = s; \x7d else \x7b f(s + \"b\"); \x7d
\x7d"⟩
    let b : Evaluation := ⟨60, utf8 "b", utf8 "\x7b f(\"\"); \x7d"⟩
    let s := (new options).after ([a].map Evaluation.step)
    ∃ (start : Moment) (d : Diagnostic) (m : Moment) (st : Stmt) (scope : ScopeId),
      s.begin? b = some start ∧
      (s.eval b.fuel b.file b.text).1 = .failure (.single d) ∧
      d.stack = [utf8 "f", utf8 "f", utf8 "f"] ∧ d.problem ≠ .scope (.tooDeep 2) ∧
      start.Visits m ∧ m.Raises d ∧ m.part = .stmt st scope ∧
      (2, st) ∈ a.chunk.nesting ∧ m.session.memory.depth scope = 2 := by
  intro options a b s
  obtain ⟨hruns, hbounded⟩ := depth_eq_nesting options [a] b
  have hbegin : (s.begin? b).isSome = true := by decide +kernel
  obtain ⟨start, hstart⟩ := Option.isSome_iff_exists.mp hbegin
  have hfails : ((s.eval b.fuel b.file b.text).1.diagnostic?.map fun d => (d.offset, d.stack)) =
      some (34, [utf8 "f", utf8 "f", utf8 "f"]) := by decide +kernel
  obtain ⟨d, hd, heq⟩ := Option.map_eq_some_iff.mp hfails
  have hd := Answer.eq_of_diagnostic? hd
  obtain ⟨hoffset, hstack⟩ := Prod.mk.inj heq
  have hshallow : ∀ e ∈ [a, b], e.chunk.nesting.all (fun p => p.1 ≤ 2) = true := by decide +kernel
  have hfinite := hbounded (fun e he _ p hp =>
    of_decide_eq_true (List.all_eq_true.mp (hshallow e he) p hp)) d hd 2
  obtain ⟨m, hvisits, hraises⟩ := (fails_of_begin?_eq_some hstart hd).exists_raises
  obtain ⟨owner, active, hreaches⟩ := (hruns start hstart).1 m hvisits
  obtain ⟨⟨e, he, rfl⟩, hdepth⟩ := (hruns start hstart).2 m owner active hreaches
  have hsubtrees : m.part.subtrees ⊆ e.chunk.subtrees := by
    refine hreaches.subset fun start h => ?_
    obtain ⟨_, -, -, hchunk, hsubtrees⟩ := exists_of_mem_starts h
    rw [hchunk, hsubtrees]
    exact List.Subset.refl _
  obtain ⟨site, p, hroot, rfl⟩ := hraises.eq_diagnose
  have hoffset : site.offset = 34 := hoffset
  -- no expression stands at this offset, and one statement does, in the first text
  have hsites : ∀ e ∈ [a, b], e.chunk.subtrees.all (fun site =>
      site.casesOn (fun e => e.offset != 34) fun _ => true) = true := by decide +kernel
  have ha : a.chunk.nesting.all (fun p => p.2.offset != 34 || p.1 == 2) = true := by
    decide +kernel
  have hb : b.chunk.nesting.all (fun p => p.2.offset != 34) = true := by decide +kernel
  have hsite := List.all_eq_true.mp (hsites e he) site (hsubtrees (Part.root_mem_subtrees hroot))
  cases hpart : m.part with
  | expr e scope =>
      rw [hpart] at hroot
      cases hroot
      exact absurd hoffset (bne_iff_ne.mp hsite)
  | stmt st scope =>
      rw [hpart] at hroot
      cases hroot
      obtain ⟨hmem, -⟩ := hdepth st scope hpart
      simp only [List.cons_append, List.nil_append, List.mem_cons, List.not_mem_nil,
        or_false] at he
      rcases he with rfl | rfl
      · have htwo := List.all_eq_true.mp ha _ hmem
        have hoffset : st.offset = 34 := hoffset
        have hscope : m.session.memory.depth scope = 2 := by simpa [hoffset] using htwo
        rw [hscope] at hmem
        exact ⟨start, _, m, st, scope, hstart, hd, hstack, hfinite, hvisits, hraises, hpart, hmem,
          hscope⟩
      · exact absurd hoffset (bne_iff_ne.mp (List.all_eq_true.mp hb _ hmem))
  | args _ _ | block _ _ _ | loop _ _ _ _ =>
      rw [hpart] at hroot
      cases hroot

end Session

end Badger
