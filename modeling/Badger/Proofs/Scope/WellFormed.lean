import Badger.Proofs.Scope.Depth

/-!
# Well-formed memory

A memory is well formed if nothing in it points to a scope that does not exist: every scope is
enclosed by an older one, and a function remembers a scope that is there. All scopes have one limit,
and every function is one that can be called. Each change that a program makes keeps a memory well
formed.

## Main definitions

* `Callable.Sound`, `Value.Sound`: a function that can be called, where so many scopes exist
* `Memory.WellFormed`: a memory in which all scopes and all functions are in order
* `Memory.Around`: the scope directly around a scope

## Main statements

* `Memory.WellFormed.add`, `Memory.WellFormed.enclose`, `Memory.WellFormed.bind`,
  `Memory.WellFormed.rebind`: every change keeps a memory well formed
* `Memory.Ordered.wellFounded_around`: the way out of a scope is finite
* `Memory.Ordered.search_ne_tooDeep_size`: it ends after as many scopes as there are
-/

namespace Badger

/-! ## Functions that can be called -/

/-- **A function that can be called**, where so many scopes exist: a provided one that takes one
argument, or a declared one that takes an argument for each of its parameters and whose scope
exists. -/
def Callable.Sound (scopes : Nat) (f : Callable) : Prop :=
  (∃ n, f = .native n ∧ f.arity? = some 1) ∨
    ∃ c, f = .custom c ∧ f.arity? = some c.params.length ∧ c.scope < scopes

/-- A value that, if it is a function, can be called. -/
def Value.Sound (scopes : Nat) (v : Value) : Prop := ∀ f, v = .fxn f → f.Sound scopes

namespace Value

variable {scopes scopes' : Nat} {v : Value}

/-- A scope that exists goes on existing. -/
theorem Sound.mono (h : v.Sound scopes) (hle : scopes ≤ scopes') : v.Sound scopes' := by
  intro f hf
  rcases h f hf with hnative | ⟨c, hc, harity, hscope⟩
  · exact .inl hnative
  · exact .inr ⟨c, hc, harity, Nat.lt_of_lt_of_le hscope hle⟩

theorem sound_of_tag_ne (h : v.tag ≠ .fxn) : v.Sound scopes := by
  rintro f rfl
  exact absurd rfl h

theorem sound_empty : Value.empty.Sound scopes := sound_of_tag_ne (by decide)

/-- A function that has been declared in a scope that exists. -/
theorem sound_declared (name : Text) (params : List Text) (body : List Stmt) {scope : ScopeId}
    (chunk : Chunk) (h : scope < scopes) :
    (Value.fxn (.custom (.declared name params body scope chunk))).Sound scopes := by
  rintro _ ⟨⟩
  exact .inr ⟨_, rfl, rfl, h⟩

end Value

namespace Memory

variable {m m' : Memory} {id outer : ScopeId} {limit : Nat}

/-! ## Well-formed memory -/

/-- **A well-formed memory.** Every scope is enclosed by an older one and has the given limit, and
every function in it can be called. -/
structure WellFormed (limit : Nat) (m : Memory) : Prop where
  ordered : m.Ordered
  limit_eq : ∀ id < m.scopes.size, m.limit id = limit
  values : m.Holds (Value.Sound m.scopes.size)

namespace WellFormed

theorem empty : ({} : Memory).WellFormed limit where
  ordered _ _ _ h := absurd (lt_size_of_frame h) (Nat.not_lt_zero _)
  limit_eq _ h := absurd h (Nat.not_lt_zero _)
  values _ _ _ h := absurd (lt_size_of_bound h) (Nat.not_lt_zero _)

/-- A new scope with the limit of the others, enclosed by one of them if by any. -/
theorem add (hm : m.WellFormed limit) {s : Scope}
    (houter : ∀ outer, s.outer = some outer → outer < m.scopes.size) (hlimit : s.limit = limit)
    (hvalues : ∀ name v, s.lookup name = some v → v.Sound m.scopes.size) :
    (m.add s).2.WellFormed limit := by
  have hsize : (m.add s).2.scopes.size = m.scopes.size + 1 := Array.size_push _
  refine ⟨hm.ordered.add houter, fun id hid => ?_, ?_⟩
  · rw [hsize] at hid
    by_cases hnew : id = m.scopes.size
    · have hframe : (m.add s).2.frame id = some (s.outer, s.limit) := by
        rw [frame_add, if_pos hnew]
      rw [limit_of_frame hframe, hlimit]
    · have hold : id < m.scopes.size := by omega
      rw [limit_congr (frame_add_of_lt s hold), hm.limit_eq id hold]
  · rw [hsize]
    exact (holds_add hm.values hvalues).mono fun v hv => hv.mono (Nat.le_succ _)

/-- A new scope inside one that exists. -/
theorem enclose (hm : m.WellFormed limit) (houter : outer < m.scopes.size) :
    (m.enclose outer).2.WellFormed limit := by
  obtain ⟨⟨around, limit'⟩, hframe⟩ := exists_frame houter
  obtain ⟨s, hs, hsame⟩ := Option.map_eq_some_iff.mp hframe
  have hlimit : s.limit = limit := by
    cases hsame
    rw [← hm.limit_eq outer houter, limit_of_frame hframe]
  rw [Memory.enclose, hs]
  refine hm.add ?_ hlimit fun _ _ h => by cases h
  rintro _ ⟨⟩
  exact houter

/-- The frames are the same, and so is the number of scopes. -/
private theorem of_frame_eq (hm : m.WellFormed limit) (hsize : m'.scopes.size = m.scopes.size)
    (hframe : ∀ id, m'.frame id = m.frame id) (hvalues : m'.Holds (Value.Sound m.scopes.size)) :
    m'.WellFormed limit := by
  refine ⟨hm.ordered.of_frame_eq hframe, fun id hid => ?_, ?_⟩
  · rw [limit_congr (hframe id)]
    exact hm.limit_eq id (hsize ▸ hid)
  · rw [hsize]
    exact hvalues

theorem bind (hm : m.WellFormed limit) {v : Value} (hv : v.Sound m.scopes.size) (id : ScopeId)
    (name : Text) : (m.bind id name v).WellFormed limit :=
  hm.of_frame_eq (Array.size_modify ..) (fun id' => frame_bind m id id' name v)
    (holds_bind hm.values hv id name)

theorem rebind (hm : m.WellFormed limit) {v : Value} (hv : v.Sound m.scopes.size) (id : ScopeId)
    (name : Text) : (m.rebind id name v).WellFormed limit :=
  hm.of_frame_eq (Array.size_modify ..) (fun id' => frame_rebind m id id' name v)
    (holds_rebind hm.values hv id name)

end WellFormed

/-! ## The way out of a scope -/

/-- One scope lies directly around another. -/
def Around (m : Memory) (outer id : ScopeId) : Prop :=
  ∃ limit, m.frame id = some (some outer, limit)

/-- No more scopes lie around a scope than were opened before it. -/
theorem depth_le (m : Memory) (id : ScopeId) : m.depth id ≤ id := by
  induction id using Nat.strongRecOn with
  | _ id ih =>
    rw [depth_eq]
    split
    · exact Nat.zero_le _
    · split
      · next hlt => exact Nat.succ_le_of_lt (Nat.lt_of_le_of_lt (ih _ hlt) hlt)
      · exact Nat.zero_le _

namespace Ordered

variable (hm : m.Ordered)

include hm

theorem lt_of_around (h : m.Around outer id) : outer < id := by
  obtain ⟨limit, hframe⟩ := h
  exact hm id outer limit hframe

/-- **The way out of a scope is finite.** -/
theorem wellFounded_around : WellFounded m.Around :=
  Subrelation.wf (fun h => hm.lt_of_around h) Nat.lt_wfRel.wf

/-- A search that may visit as many scopes as there are gets to the end. -/
theorem search_ne_tooDeep_size (hid : id < m.scopes.size) (name : Text) (limit limit' : Nat) :
    m.search limit name m.scopes.size (some id) ≠ .error (.tooDeep limit') :=
  search_ne_tooDeep hm name (Nat.lt_of_le_of_lt (m.depth_le id) hid) limit limit'

end Ordered

end Memory

end Badger
