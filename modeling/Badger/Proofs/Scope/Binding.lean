import Badger.Scope.Memory

/-!
# Bindings

What a scope itself binds, and what opening scopes, declaring names and assigning to them do to
the bindings of every scope.

## Main definitions

* `Memory.bound`: the value that a scope itself binds to a name
* `Memory.Holds`: that all values in memory have a property
* `Memory.Keeps`: what was bound stays bound, with a value of its type, and functions stay the
  same

## Main statements

* `Memory.bound_add`, `Memory.bound_bind`, `Memory.bound_rebind`: the bindings after each change
* `Memory.holds_add`, `Memory.holds_bind`, `Memory.holds_rebind`: every change that brings in values
  with a property keeps it
* `Memory.bound_of_checkSet`: an assignment replaces a binding by one of its type
* `Memory.keeps_add`, `Memory.keeps_bind`, `Memory.keeps_rebind`: every change keeps bindings
* `Memory.names_add`, `Memory.names_bind`, `Memory.names_rebind`: which names are declared
-/

namespace Badger

/-! ## One scope -/

namespace Scope

theorem lookup_bind (s : Scope) (name name' : Text) (v : Value) :
    (s.bind name v).lookup name' = if name' = name then some v else s.lookup name' := by
  unfold lookup bind
  rw [List.lookup_cons]
  by_cases h : name' = name
  · simp [h]
  · simp [h, beq_eq_false_iff_ne.mpr h]

theorem lookup_replaceIn (name name' : Text) (v : Value) (bindings : List (Text × Value)) :
    (replaceIn name v bindings).lookup name' =
      if name' = name then (bindings.lookup name).map fun _ => v else bindings.lookup name' := by
  induction bindings with
  | nil => simp [replaceIn]
  | cons b rest ih =>
      obtain ⟨n, old⟩ := b
      rw [replaceIn]
      by_cases hn : n = name
      · subst hn
        by_cases hname : name' = n
        · simp [hname]
        · simp [List.lookup_cons, hname, beq_eq_false_iff_ne.mpr hname]
      · rw [if_neg hn, List.lookup_cons, ih, List.lookup_cons, List.lookup_cons]
        by_cases hname : name' = name
        · subst hname
          simp [beq_eq_false_iff_ne.mpr (Ne.symm hn)]
        · simp [hname]

theorem map_fst_replaceIn (name : Text) (v : Value) (bindings : List (Text × Value)) :
    (replaceIn name v bindings).map Prod.fst = bindings.map Prod.fst := by
  induction bindings with
  | nil => rfl
  | cons b rest ih =>
      obtain ⟨n, old⟩ := b
      rw [replaceIn]
      split
      · rfl
      · rw [List.map_cons, List.map_cons, ih]

/-- Replacing a value declares no name. -/
theorem names_rebind (s : Scope) (name : Text) (v : Value) : (s.rebind name v).names = s.names := by
  unfold names rebind
  rw [map_fst_replaceIn]

end Scope

namespace Memory

/-! ## All scopes -/

/-- **Bindings.** The value that a scope itself binds to a name. -/
def bound (m : Memory) (id : ScopeId) (name : Text) : Option Value :=
  (m.scope? id).bind (·.lookup name)

theorem scope?_add (m : Memory) (s : Scope) (id : ScopeId) :
    (m.add s).2.scope? id = if id = m.scopes.size then some s else m.scope? id :=
  Array.getElem?_push

theorem scope?_update (m : Memory) (id id' : ScopeId) (f : Scope → Scope) :
    (m.update id f).scope? id' = if id = id' then (m.scope? id').map f else m.scope? id' :=
  Array.getElem?_modify

/-- A scope that does not exist binds nothing. -/
theorem lt_size_of_bound {m : Memory} {id : ScopeId} {name : Text} {v : Value}
    (h : m.bound id name = some v) : id < m.scopes.size := by
  obtain ⟨s, hs, -⟩ := Option.bind_eq_some_iff.mp h
  exact (Array.getElem?_eq_some_iff.mp hs).1

theorem bound_add (m : Memory) (s : Scope) (id : ScopeId) (name : Text) :
    (m.add s).2.bound id name =
      if id = m.scopes.size then s.lookup name else m.bound id name := by
  unfold bound
  rw [scope?_add]
  split <;> rfl

theorem bound_bind (m : Memory) (id id' : ScopeId) (name name' : Text) (v : Value) :
    (m.bind id name v).bound id' name' =
      if id = id' ∧ name' = name ∧ id' < m.scopes.size then some v else m.bound id' name' := by
  unfold bind bound
  rw [scope?_update]
  by_cases hid : id = id'
  · subst hid
    rcases hs : m.scope? id with _ | s
    · have hsize : ¬id < m.scopes.size := by
        rw [Nat.not_lt]
        exact Array.getElem?_eq_none_iff.mp hs
      simp [hsize]
    · have hsize : id < m.scopes.size := (Array.getElem?_eq_some_iff.mp hs).1
      simp [hsize, Scope.lookup_bind]
  · simp [hid]

theorem bound_rebind (m : Memory) (id id' : ScopeId) (name name' : Text) (v : Value) :
    (m.rebind id name v).bound id' name' =
      if id = id' ∧ name' = name then (m.bound id' name').map fun _ => v
      else m.bound id' name' := by
  unfold rebind bound
  rw [scope?_update]
  by_cases hid : id = id'
  · subst hid
    rcases m.scope? id with _ | s
    · simp
    · by_cases hname : name' = name
      · subst hname
        simp [Scope.rebind, Scope.lookup, Scope.lookup_replaceIn]
      · simp [Scope.rebind, Scope.lookup, Scope.lookup_replaceIn, hname]
  · simp [hid]

/-! ## What holds of all values -/

/-- All values in the memory have a property. -/
def Holds (P : Value → Prop) (m : Memory) : Prop :=
  ∀ (id : ScopeId) (name : Text) (v : Value), m.bound id name = some v → P v

section

variable {P : Value → Prop} {m : Memory}

theorem Holds.mono {Q : Value → Prop} (h : m.Holds P) (hPQ : ∀ v, P v → Q v) : m.Holds Q :=
  fun id name v hv => hPQ v (h id name v hv)

theorem holds_add (h : m.Holds P) {s : Scope} (hs : ∀ name v, s.lookup name = some v → P v) :
    (m.add s).2.Holds P := by
  intro id name v hv
  rw [bound_add] at hv
  split at hv
  · exact hs name v hv
  · exact h id name v hv

theorem holds_enclose (h : m.Holds P) (outer : ScopeId) : (m.enclose outer).2.Holds P := by
  unfold enclose
  split
  · exact holds_add h fun _ _ hlookup => by cases hlookup
  · exact holds_add h fun _ _ hlookup => by cases hlookup

theorem holds_bind (h : m.Holds P) {v : Value} (hv : P v) (id : ScopeId) (name : Text) :
    (m.bind id name v).Holds P := by
  intro id' name' w hw
  rw [bound_bind] at hw
  split at hw
  · cases hw
    exact hv
  · exact h id' name' w hw

theorem holds_rebind (h : m.Holds P) {v : Value} (hv : P v) (id : ScopeId) (name : Text) :
    (m.rebind id name v).Holds P := by
  intro id' name' w hw
  rw [bound_rebind] at hw
  split at hw
  · obtain ⟨_, _, rfl⟩ := Option.map_eq_some_iff.mp hw
    exact hv
  · exact h id' name' w hw

end

/-! ## Resolution -/

/-- What a search finds is bound where it is found. -/
theorem bound_of_search {m : Memory} {limit visits : Nat} {name : Text} {start : Option ScopeId}
    {holder : ScopeId} {old : Value}
    (h : m.search limit name visits start = .ok (holder, old)) :
    m.bound holder name = some old := by
  induction visits generalizing start with
  | zero => cases start <;> simp at h
  | succ visits ih =>
      cases start with
      | none => simp at h
      | some id =>
          rw [search] at h
          split at h
          · cases h
          · next s hs =>
            split at h
            · next v hv =>
              cases h
              rw [bound, hs]
              exact hv
            · exact ih h

/-- The value of a name is one of those in memory. -/
theorem Holds.get {P : Value → Prop} {m : Memory} (h : m.Holds P) {id : ScopeId} {name : Text}
    {v : Value} (hv : m.get id name = .ok v) : P v := by
  unfold Memory.get at hv
  cases hresolve : m.resolve id name with
  | error p =>
      rw [hresolve] at hv
      cases hv
  | ok found =>
      rw [hresolve] at hv
      cases hv
      exact h found.1 name found.2 (bound_of_search hresolve)

/-- **An assignment replaces a binding by one of its type**, and never a function. -/
theorem bound_of_checkSet {m : Memory} {id holder : ScopeId} {name : Text} {v : Value}
    (h : m.checkSet id name v = .ok holder) :
    ∃ old, m.bound holder name = some old ∧ old.tag ≠ .fxn ∧ old.tag = v.tag := by
  unfold checkSet at h
  split at h
  · cases h
  · next holder' old hresolve =>
    split at h
    · next hreplaceable =>
      cases h
      simp only [replaceable, Bool.and_eq_true, bne_iff_ne, beq_iff_eq] at hreplaceable
      exact ⟨old, bound_of_search hresolve, hreplaceable⟩
    · cases h

theorem bound_of_checkDeclare {m : Memory} {id : ScopeId} {name : Text}
    (h : m.checkDeclare id name = .ok ()) : m.bound id name = none := by
  unfold checkDeclare at h
  split at h
  · cases h
  · next hnone => exact hnone

/-! ## Bindings are kept -/

/-- **Keeping bindings.** What was bound stays bound, with a value of the same type, and a
function stays the same function. -/
def Keeps (m m' : Memory) : Prop :=
  ∀ (id : ScopeId) (name : Text) (v : Value), m.bound id name = some v →
    ∃ v', m'.bound id name = some v' ∧ v'.tag = v.tag ∧ (v.tag = .fxn → v' = v)

theorem Keeps.refl (m : Memory) : Keeps m m := fun _ _ v h => ⟨v, h, rfl, fun _ => rfl⟩

theorem Keeps.trans {m m' m'' : Memory} (h : Keeps m m') (h' : Keeps m' m'') : Keeps m m'' := by
  intro id name v hv
  obtain ⟨v', hv', htag', hsame'⟩ := h id name v hv
  obtain ⟨v'', hv'', htag'', hsame''⟩ := h' id name v' hv'
  refine ⟨v'', hv'', htag''.trans htag', fun hfxn => ?_⟩
  rw [hsame'' (htag'.trans hfxn), hsame' hfxn]

theorem keeps_add (m : Memory) (s : Scope) : Keeps m (m.add s).2 := by
  intro id name v hv
  have hne : id ≠ m.scopes.size := Nat.ne_of_lt (lt_size_of_bound hv)
  exact ⟨v, by rw [bound_add, if_neg hne, hv], rfl, fun _ => rfl⟩

theorem keeps_enclose (m : Memory) (outer : ScopeId) : Keeps m (m.enclose outer).2 := by
  unfold enclose
  split
  · exact m.keeps_add _
  · exact m.keeps_add _

/-- Declaring a name that the scope does not declare yet keeps bindings. -/
theorem keeps_bind {m : Memory} {id : ScopeId} {name : Text}
    (h : m.checkDeclare id name = .ok ()) (v : Value) : Keeps m (m.bind id name v) := by
  intro id' name' old hold
  have hother : ¬(id = id' ∧ name' = name ∧ id' < m.scopes.size) := by
    rintro ⟨rfl, rfl, -⟩
    rw [bound_of_checkDeclare h] at hold
    cases hold
  exact ⟨old, by rw [bound_bind, if_neg hother, hold], rfl, fun _ => rfl⟩

/-- An assignment that is allowed keeps bindings. -/
theorem keeps_rebind {m : Memory} {id holder : ScopeId} {name : Text} {v : Value}
    (h : m.checkSet id name v = .ok holder) : Keeps m (m.rebind holder name v) := by
  obtain ⟨old, hold, hfxn, htag⟩ := bound_of_checkSet h
  intro id' name' old' hold'
  rw [bound_rebind]
  by_cases hsame : holder = id' ∧ name' = name
  · obtain ⟨rfl, rfl⟩ := hsame
    have heq : old' = old := Option.some.inj (hold'.symm.trans hold)
    subst heq
    refine ⟨v, by simp [hold'], htag.symm, fun h => absurd h hfxn⟩
  · exact ⟨old', by rw [if_neg hsame, hold'], rfl, fun _ => rfl⟩

/-! ## Declared names -/

theorem names_eq {m m' : Memory} {id : ScopeId}
    (h : (m'.scope? id).map Scope.names = (m.scope? id).map Scope.names) :
    m'.names id = m.names id := by
  unfold names
  rw [h]

theorem names_add {m : Memory} (s : Scope) {id : ScopeId} (hid : id < m.scopes.size) :
    (m.add s).2.names id = m.names id :=
  names_eq (by rw [scope?_add, if_neg (Nat.ne_of_lt hid)])

theorem names_enclose {m : Memory} (outer : ScopeId) {id : ScopeId} (hid : id < m.scopes.size) :
    (m.enclose outer).2.names id = m.names id := by
  unfold enclose
  split
  · exact names_add _ hid
  · exact names_add _ hid

theorem names_bind {m : Memory} {id id' : ScopeId} (hne : id' ≠ id) (name : Text) (v : Value) :
    (m.bind id name v).names id' = m.names id' :=
  names_eq (by rw [bind, scope?_update, if_neg hne.symm])

theorem names_rebind (m : Memory) (id id' : ScopeId) (name : Text) (v : Value) :
    (m.rebind id name v).names id' = m.names id' := by
  refine names_eq ?_
  rw [rebind, scope?_update]
  split
  · rw [Option.map_map]
    congr 1
    funext s
    exact s.names_rebind name v
  · rfl

/-- A scope binds the names that it declares. -/
theorem bound_eq_none_iff (m : Memory) (id : ScopeId) (name : Text) :
    m.bound id name = none ↔ name ∉ m.names id := by
  unfold bound names
  cases m.scope? id with
  | none => simp
  | some scope =>
      rw [Option.bind_some, Option.map_some, Option.getD_some, Scope.lookup, Scope.names,
        List.mem_mergeSort, List.lookup_eq_none_iff]
      simp only [bne_iff_ne, ne_eq, List.mem_map, not_exists, not_and]
      exact ⟨fun h b hb heq => h b hb heq.symm, fun h b hb heq => h b hb heq.symm⟩

end Memory

end Badger
