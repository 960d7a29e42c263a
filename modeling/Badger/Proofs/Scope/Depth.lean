import Badger.Proofs.Scope.Binding

/-!
# How deep scopes lie

The scope around a scope and the limit of a scope are fixed when it is opened, so that its depth
never changes. A scope is only ever enclosed by an older one, and from one that lies no deeper than
its limit every search gets to the end.

## Main definitions

* `Memory.frame`: the scope around a scope, and its limit
* `Memory.Ordered`: every scope is enclosed by an older one
* `Memory.Encloses`: one scope lies directly inside another

## Main statements

* `Memory.frame_add`, `Memory.frame_bind`, `Memory.frame_rebind`: the frames after each change
* `Memory.depth_congr`: the depth of a scope depends on frames only
* `Memory.encloses_enclose`, `Memory.Encloses.depth_eq`: a new scope lies one deeper than the scope
  in which it is opened
* `Memory.resolve_ne_tooDeep`: no search is cut short that starts in a scope no deeper than its
  limit
-/

namespace Badger.Memory

variable {m m' : Memory} {id outer : ScopeId} {limit : Nat}

/-! ## Frames -/

/-- **The frame of a scope.** The scope around it, if there is one, and how many enclosing scopes a
search that starts in it may visit. -/
def frame (m : Memory) (id : ScopeId) : Option (Option ScopeId × Nat) :=
  (m.scope? id).map fun s => (s.outer, s.limit)

theorem lt_size_of_frame {f : Option ScopeId × Nat} (h : m.frame id = some f) :
    id < m.scopes.size := by
  obtain ⟨s, hs, -⟩ := Option.map_eq_some_iff.mp h
  exact (Array.getElem?_eq_some_iff.mp hs).1

theorem exists_frame (h : id < m.scopes.size) : ∃ f, m.frame id = some f :=
  ⟨_, congrArg (Option.map _) (Array.getElem?_eq_getElem h)⟩

theorem frame_add (m : Memory) (s : Scope) (id : ScopeId) :
    (m.add s).2.frame id = if id = m.scopes.size then some (s.outer, s.limit) else m.frame id := by
  unfold frame
  rw [scope?_add]
  split <;> rfl

theorem frame_bind (m : Memory) (id id' : ScopeId) (name : Text) (v : Value) :
    (m.bind id name v).frame id' = m.frame id' := by
  unfold frame bind
  rw [scope?_update]
  split
  · rw [Option.map_map]
    rfl
  · rfl

theorem frame_rebind (m : Memory) (id id' : ScopeId) (name : Text) (v : Value) :
    (m.rebind id name v).frame id' = m.frame id' := by
  unfold frame rebind
  rw [scope?_update]
  split
  · rw [Option.map_map]
    rfl
  · rfl

theorem frame_add_of_lt (s : Scope) (hid : id < m.scopes.size) :
    (m.add s).2.frame id = m.frame id := by
  rw [frame_add, if_neg (Nat.ne_of_lt hid)]

theorem frame_enclose_of_lt (outer : ScopeId) (hid : id < m.scopes.size) :
    (m.enclose outer).2.frame id = m.frame id := by
  unfold enclose
  split
  · exact frame_add_of_lt _ hid
  · exact frame_add_of_lt _ hid

/-! ## Depth and limit -/

theorem limit_of_frame {around : Option ScopeId} (h : m.frame id = some (around, limit)) :
    m.limit id = limit := by
  obtain ⟨s, hs, hframe⟩ := Option.map_eq_some_iff.mp h
  cases hframe
  rw [Memory.limit, hs]
  rfl

/-- The limit of a scope depends on its frame only. -/
theorem limit_congr (h : m'.frame id = m.frame id) : m'.limit id = m.limit id := by
  have hlimit (m : Memory) : m.limit id = ((m.frame id).map Prod.snd).getD defaultScopeDepth := by
    unfold Memory.limit frame
    rw [Option.map_map]
    rfl
  rw [hlimit, hlimit, h]

theorem depth_eq (m : Memory) (id : ScopeId) :
    m.depth id =
      match (m.frame id).bind Prod.fst with
      | none => 0
      | some outer => if outer < id then m.depth outer + 1 else 0 := by
  have houter : (m.frame id).bind Prod.fst = (m.scope? id).bind (·.outer) := by
    unfold frame
    rw [Option.bind_map]
    rfl
  rw [houter]
  exact depth.eq_1 m id

theorem depth_root (h : m.frame id = some (none, limit)) : m.depth id = 0 := by
  rw [depth_eq, h]
  rfl

theorem depth_of_frame (h : m.frame id = some (some outer, limit)) (hlt : outer < id) :
    m.depth id = m.depth outer + 1 := by
  rw [depth_eq, h]
  exact if_pos hlt

/-- **The depth of a scope** depends on the frames of this scope and of older ones only. -/
theorem depth_congr (h : ∀ id' ≤ id, m'.frame id' = m.frame id') : m'.depth id = m.depth id := by
  induction id using Nat.strongRecOn with
  | _ id ih =>
    rw [depth_eq, depth_eq, h id (Nat.le_refl id)]
    split
    · rfl
    · next outer _ =>
      split
      · next hlt =>
        rw [ih outer hlt fun id' hle => h id' (Nat.le_trans hle (Nat.le_of_lt hlt))]
      · rfl

/-! ## Older scopes around newer ones -/

/-- **Order.** Every scope is enclosed by an older one. -/
def Ordered (m : Memory) : Prop :=
  ∀ (id outer : ScopeId) (limit : Nat), m.frame id = some (some outer, limit) → outer < id

namespace Ordered

theorem of_frame_eq (hm : m.Ordered) (h : ∀ id, m'.frame id = m.frame id) : m'.Ordered :=
  fun id outer limit hframe => hm id outer limit ((h id).symm.trans hframe)

theorem add (hm : m.Ordered) {s : Scope} (hs : ∀ outer, s.outer = some outer →
    outer < m.scopes.size) : (m.add s).2.Ordered := by
  intro id outer limit hframe
  rw [frame_add] at hframe
  split at hframe
  · next hid =>
    have houter : s.outer = some outer := congrArg Prod.fst (Option.some.inj hframe)
    exact hid ▸ hs outer houter
  · exact hm id outer limit hframe

theorem enclose (hm : m.Ordered) (outer : ScopeId) : (m.enclose outer).2.Ordered := by
  unfold Memory.enclose
  split
  · next s hs =>
    refine hm.add ?_
    rintro _ ⟨⟩
    exact (Array.getElem?_eq_some_iff.mp hs).1
  · exact hm.add fun _ h => by cases h

end Ordered

/-! ## Scopes inside others -/

/-- **Enclosure.** A scope lies directly inside another, with the same limit. -/
def Encloses (m : Memory) (outer inner : ScopeId) : Prop :=
  ∃ around limit, m.frame outer = some (around, limit) ∧ m.frame inner = some (some outer, limit)

/-- **A new scope** lies inside the scope in which it is opened, if that exists. -/
theorem encloses_enclose (h : outer < m.scopes.size) :
    (m.enclose outer).2.Encloses outer m.scopes.size := by
  obtain ⟨⟨around, limit⟩, hframe⟩ := exists_frame h
  refine ⟨around, limit, (frame_enclose_of_lt outer h).trans hframe, ?_⟩
  obtain ⟨s, hs, hlimit⟩ := Option.map_eq_some_iff.mp hframe
  cases hlimit
  rw [enclose, hs]
  dsimp only
  rw [frame_add, if_pos rfl]

namespace Encloses

variable {inner : ScopeId}

theorem limit_eq (h : m.Encloses outer inner) : m.limit inner = m.limit outer := by
  obtain ⟨around, limit, houter, hinner⟩ := h
  rw [limit_of_frame hinner, limit_of_frame houter]

/-- A scope lies one deeper than the one around it. -/
theorem depth_eq (h : m.Encloses outer inner) (hm : m.Ordered) :
    m.depth inner = m.depth outer + 1 := by
  obtain ⟨around, limit, -, hinner⟩ := h
  exact depth_of_frame hinner (hm inner outer limit hinner)

end Encloses

/-! ## Searches that get to the end -/

/-- A search that may visit more scopes than lie around its start gets to the end. -/
theorem search_ne_tooDeep (hm : m.Ordered) (name : Text) {visits : Nat} (h : m.depth id < visits)
    (limit limit' : Nat) : m.search limit name visits (some id) ≠ .error (.tooDeep limit') := by
  induction visits generalizing id with
  | zero => exact absurd h (Nat.not_lt_zero _)
  | succ visits ih =>
      rw [search]
      split
      · simp
      · next s hs =>
        split
        · simp
        · cases houter : s.outer with
          | none => simp
          | some outer =>
              -- one visit is used up, and one scope less lies around what is left to visit
              have hframe : m.frame id = some (some outer, s.limit) := by
                rw [frame, hs, ← houter]
                rfl
              have hdepth := depth_of_frame hframe (hm id outer _ hframe)
              exact ih (by omega)

/-- **No search is cut short** that starts in a scope no deeper than its limit. -/
theorem resolve_ne_tooDeep (hm : m.Ordered) (h : m.depth id ≤ m.limit id) (name : Text)
    (limit : Nat) : m.resolve id name ≠ .error (.tooDeep limit) :=
  search_ne_tooDeep hm name (Nat.lt_succ_of_le h) _ _

end Badger.Memory
