import Badger.Proofs.Session.Declared

/-!
# Which chunk owns what is run

What is run stands in the text of some chunk: the one that is evaluated, or, inside a function, the
one in which the function was declared. That chunk owns what is run. Errors are placed in the
active chunk, and this need not be the owner: a call makes the chunk that the function remembers
the active one only if that chunk has a line table.

## Main definitions

* `Part.subtrees`, `Chunk.subtrees`: the statements and expressions in a part and in a text
* `Moment.Reaches`: what runs come to, each moment with its owner and the chunk that is active

## Main statements

* `Moment.Reaches.chunk_eq`: the chunk that is active
* `Moment.Reaches.subset`: what is run stands in the text of its owner
* `Moment.Reaches.active_eq_owner`: the owner is active if chunks that declare functions have line
  tables
* `Moment.Reaches.exists_of_visits`: what a run comes to has an owner
* `Moment.Reaches.exists_raises`: every error is raised at a moment that has an owner

## Design notes

A function does not remember its owner: inside a call that leaves the caller's chunk active, a
declaration makes a function remember the caller's chunk. `Moment.Reaches` therefore goes back from
a call to the moment of the declaration, and takes the owner of that one.
-/

namespace Badger

/-! ## Text of a part -/

/-- The statements and expressions in the text of a chunk. -/
def Chunk.subtrees (c : Chunk) : List Subtree :=
  Stmt.listSubtrees (Program.ofTokens (TokenStream.ofText c.text).tokens 0).stmts

/-- A function is declared somewhere in the text of the chunk. -/
def Chunk.DeclaresFunction (c : Chunk) : Prop :=
  ∃ pos name params body, .stmt (.fxn pos name params body) ∈ c.subtrees

/-- The statements and expressions of a part. -/
def Part.subtrees : Part → List Subtree
  | .expr e _ => e.subtrees
  | .args es _ => Expr.listSubtrees es
  | .stmt st _ => st.subtrees
  | .block ss _ _ => Stmt.listSubtrees ss
  | .loop cond body _ _ => cond.subtrees ++ body.subtrees

theorem Part.root_mem_subtrees {part : Part} {site : Subtree} (h : part.root? = some site) :
    site ∈ part.subtrees := by
  cases part with
  | expr e scope =>
      cases h
      exact e.mem_subtrees
  | stmt st scope =>
      cases h
      exact st.mem_subtrees
  | _ => cases h

namespace Moment

open Run

variable {m m' : Moment} {c : Closure}

/-- What a run is made of is part of the same text, calls apart. -/
theorem Runs.subset (h : Runs m none m') : m'.part.subtrees ⊆ m.part.subtrees := by
  cases h with
  | elseYes | elseNo =>
      intro t ht
      have hbranch : t ∈ Stmt.subtrees _ := ht
      simp [Part.subtrees, Stmt.subtrees, hbranch]
  | _ =>
      simp [Part.subtrees, Expr.subtrees, Expr.listSubtrees, Stmt.subtrees, Stmt.listSubtrees]

/-- A call runs the body of the function. -/
theorem Runs.subtrees_called (h : Runs m (some c) m') :
    m'.part.subtrees = Stmt.listSubtrees c.body := by
  cases h
  rfl

/-- The body of a function is part of its declaration. -/
theorem Declares.subset (h : m.Declares c) : Stmt.listSubtrees c.body ⊆ m.part.subtrees := by
  cases h
  simp [Part.subtrees, Stmt.subtrees]

theorem Declares.declaration_mem (h : m.Declares c) :
    ∃ pos name params body, .stmt (.fxn pos name params body) ∈ m.part.subtrees := by
  cases h with
  | @intro pos name params body =>
      exact ⟨pos, name, params, body, Stmt.mem_subtrees _⟩

/-! ## The active chunk -/

/-- A function remembers the chunk that is active when it is declared. -/
theorem Declares.chunk_eq (h : m.Declares c) : c.chunk = m.session.chunk := by
  cases h
  rfl

/-! ## Owners -/

/-- **What runs come to.** `Reaches starts start m owner active` says that running `start`, one of
`starts`, comes to running `m`, which stands in the text of `owner`, while `active` is the active
chunk. At the start both are the chunk that is evaluated. Inside a function the owner is that of
the declaration, and the chunk that was active there becomes active again if it has a line table. -/
inductive Reaches (starts : Set Moment) : Moment → Moment → Chunk → Chunk → Prop where
  | start {start : Moment} (h : start ∈ starts) :
      Reaches starts start start start.session.chunk start.session.chunk
  | part {start m m' : Moment} {owner active : Chunk} (h : Reaches starts start m owner active)
      (hruns : Runs m none m') : Reaches starts start m' owner active
  | call {start m m' start₀ m₀ : Moment} {owner active owner₀ active₀ : Chunk} {c : Closure}
      (h : Reaches starts start m owner active) (hruns : Runs m (some c) m')
      (h₀ : Reaches starts start₀ m₀ owner₀ active₀) (hdeclares : m₀.Declares c) :
      Reaches starts start m' owner₀ (if active₀.lines.isSome then active₀ else active)

namespace Reaches

variable {starts : Set Moment} {start : Moment} {owner active : Chunk} {d d' : Diagnostic}

/-- **The active chunk** is the one that declarations and calls tell. -/
theorem chunk_eq (h : Reaches starts start m owner active) : m.session.chunk = active := by
  induction h with
  | start _ => rfl
  | part _ hruns ih => rw [hruns.balanced.2.1, ih]
  | call _ hruns _ hdeclares ih ih₀ =>
      obtain ⟨-, -, hchunk, -⟩ := hruns.balanced_called
      rw [hchunk, hdeclares.chunk_eq, ih, ih₀]

/-- Owners and active chunks are chunks that runs start with. -/
theorem chunks_mem {chunks : Set Chunk} (hstarts : ∀ start ∈ starts, start.session.chunk ∈ chunks)
    (h : Reaches starts start m owner active) : owner ∈ chunks ∧ active ∈ chunks := by
  induction h with
  | start h => exact ⟨hstarts _ h, hstarts _ h⟩
  | part _ _ ih => exact ih
  | call _ _ _ _ ih ih₀ =>
      refine ⟨ih₀.1, ?_⟩
      split
      · exact ih₀.2
      · exact ih.2

/-- **What is run stands in the text of its owner**, if that is so at the start. -/
theorem subset (hstarts : ∀ start ∈ starts, start.part.subtrees ⊆ start.session.chunk.subtrees)
    (h : Reaches starts start m owner active) : m.part.subtrees ⊆ owner.subtrees := by
  induction h with
  | start h => exact hstarts _ h
  | part _ hruns ih => exact List.Subset.trans hruns.subset ih
  | call _ hruns _ hdeclares _ ih₀ =>
      rw [hruns.subtrees_called]
      exact List.Subset.trans hdeclares.subset ih₀

/-- **The owner is active** if every chunk that declares a function has a line table. -/
theorem active_eq_owner
    (hstarts : ∀ start ∈ starts, start.part.subtrees ⊆ start.session.chunk.subtrees)
    (hlines : ∀ start ∈ starts,
      start.session.chunk.DeclaresFunction → start.session.chunk.lines.isSome = true)
    (h : Reaches starts start m owner active) : active = owner := by
  have howner {start m : Moment} {owner active : Chunk} (h : Reaches starts start m owner active) :
      owner ∈ {c : Chunk | c.DeclaresFunction → c.lines.isSome = true} :=
    (h.chunks_mem hlines).1
  induction h with
  | start _ => rfl
  | part _ _ ih => exact ih
  | call _ _ h₀ hdeclares _ ih₀ =>
      subst ih₀
      -- the declaration stands in the text of its owner, which has a line table for that reason
      obtain ⟨pos, name, params, body, hmem⟩ := hdeclares.declaration_mem
      rw [if_pos (howner h₀ ⟨pos, name, params, body, h₀.subset hstarts hmem⟩)]

/-! ## Owners of errors -/

/-- An error on the way is the error of the run. -/
theorem fails (h : Reaches starts start m owner active) (hd : m.Fails d) : start.Fails d := by
  induction h with
  | start _ => exact hd
  | part _ hruns ih => exact ih (hruns.fails hd)
  | call _ hruns _ _ ih _ => exact ih (hruns.fails hd)

/-- The functions that are declared on the way, in one of the first scopes. -/
def declarations (starts : Set Moment) (scopes : Nat) : Set Closure :=
  {c | c.scope < scopes ∧
    ∃ start m owner active, Reaches starts start m owner active ∧ m.Declares c}

theorem declarations_mono (starts : Set Moment) : Monotone (declarations starts) :=
  fun _ _ hle _ hc => ⟨hc.1.trans_le hle, hc.2⟩

/-- What is run next fits, and has an owner, if what is run before it is sound. -/
theorem next_of_sound {called : Option Closure} (h : Reaches starts start m owner active)
    (hm : m.Fits (declarations starts))
    (hsound : ∀ m₁, Runs m none m₁ → m₁.Fits (declarations starts) →
      m₁.Sound (declarations starts)) (hruns : Runs m called m') :
    m'.Fits (declarations starts) ∧ ∃ owner' active', Reaches starts start m' owner' active' := by
  refine ⟨hruns.fits (declarations_mono starts) hm hsound, ?_⟩
  cases called with
  | none => exact ⟨owner, active, h.part hruns⟩
  | some c =>
      -- only declared functions are called
      obtain ⟨-, start₀, m₀, owner₀, active₀, h₀, hdeclares⟩ :=
        hruns.called_mem (declarations_mono starts) hm hsound
      exact ⟨owner₀, _, h.call hruns h₀ hdeclares⟩

/-- **Runs are sound**: they leave only functions behind that were declared on the way. -/
theorem sound (h : Reaches starts start m owner active) (hm : m.Fits (declarations starts)) :
    m.Sound (declarations starts) := by
  -- whatever a run is made of has less of the budget
  induction hfuel : m.fuel using Nat.strong_induction_on generalizing m owner active with
  | _ fuel ih =>
    have hparts (m₁ : Moment) (hruns : Runs m none m₁) (hm₁ : m₁.Fits (declarations starts)) :
        m₁.Sound (declarations starts) :=
      ih m₁.fuel (hfuel ▸ hruns.fuel_lt) (h.part hruns) hm₁ rfl
    refine hm.sound (declarations_mono starts) (fun called m' hruns => ?_) fun c hdeclares => ?_
    · obtain ⟨hm', owner', active', h'⟩ := h.next_of_sound hm hparts hruns
      exact ih m'.fuel (hfuel ▸ hruns.fuel_lt) h' hm' rfl
    · exact ⟨hdeclares.scope_eq ▸ hm.scope, start, m, owner, active, h, hdeclares⟩

/-- What is run next fits, and has an owner. -/
theorem next {called : Option Closure} (h : Reaches starts start m owner active)
    (hm : m.Fits (declarations starts)) (hruns : Runs m called m') :
    m'.Fits (declarations starts) ∧ ∃ owner' active', Reaches starts start m' owner' active' :=
  h.next_of_sound hm (fun _ hruns₁ hm₁ => (h.part hruns₁).sound hm₁) hruns

/-- **What a run comes to has an owner.** -/
theorem exists_of_visits (h : Reaches starts start m owner active)
    (hm : m.Fits (declarations starts)) (hvisits : m.Visits m') :
    ∃ owner' active', Reaches starts start m' owner' active' := by
  suffices hboth : m'.Fits (declarations starts) ∧
      ∃ owner' active', Reaches starts start m' owner' active' from hboth.2
  induction hvisits with
  | refl => exact ⟨hm, owner, active, h⟩
  | tail _ hruns ih =>
      obtain ⟨hm₁, owner₁, active₁, h₁⟩ := ih
      obtain ⟨called, hruns⟩ := hruns
      exact h₁.next hm₁ hruns

/-- **Every error is raised at a moment that has an owner.** -/
theorem exists_raises (h : Reaches starts start m owner active)
    (hm : m.Fits (declarations starts)) (hd : m.Fails d) :
    ∃ m' owner' active', Reaches starts start m' owner' active' ∧ m'.Raises d := by
  obtain ⟨m', hvisits, hraises⟩ := hd.exists_raises
  obtain ⟨owner', active', h'⟩ := h.exists_of_visits hm hvisits
  exact ⟨m', owner', active', h', hraises⟩

end Reaches

end Moment

end Badger
