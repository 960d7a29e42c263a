import Badger.Proofs.Scope.Lookup

/-!
# What an assignment changes

Scopes are shared, by the scopes inside them and by closures. An assignment replaces one binding,
in the scope where its name is found; whoever finds the same binding sees the new value, and
everybody else sees what they saw before.

## Main definitions

* `Memory.Shares`: a name that is found in the same scope, as seen from two scopes

## Main statements

* `Memory.search_rebind`, `Memory.get_rebind`: a search after one value was replaced stops in the
  same scope, and finds the new value there if it is the one that was replaced
* `Memory.set_shared`: **an assignment** changes one binding for all who share it, and a call that
  fails changes nothing
-/

namespace Badger.Memory

variable {m m' : Memory} {id : ScopeId}

/-! ## Searches after a value was replaced -/

/-- A search that starts in a scope that does not exist finds nothing. -/
theorem search_of_frame_eq_none (h : m.frame id = none) (limit visits : Nat) (name : Text) :
    m.search limit name (visits + 1) (some id) = .error (.undefined name) := by
  rw [search, Option.map_eq_none_iff.mp h]

/-- **A search after one value was replaced** stops in the same scope, or fails in the same way. -/
theorem search_rebind (m : Memory) (holder : ScopeId) (name name' : Text) (v : Value)
    (limit visits : Nat) (start : Option ScopeId) :
    (m.rebind holder name v).search limit name' visits start =
      (m.search limit name' visits start).map fun found =>
        (found.1, if holder = found.1 ∧ name' = name then v else found.2) := by
  induction visits generalizing start with
  | zero => cases start <;> rfl
  | succ visits ih =>
      cases start with
      | none => rfl
      | some id =>
          have hframe' := frame_rebind m holder id name v
          cases hframe : m.frame id with
          | none =>
              rw [search_of_frame_eq_none hframe, search_of_frame_eq_none (hframe'.trans hframe)]
              rfl
          | some f =>
              -- the scope declares the same names as before, so the search stops here or goes on
              rw [search_succ hframe, search_succ (hframe'.trans hframe), bound_rebind]
              cases m.bound id name' with
              | none => simp [ih]
              | some old =>
                  by_cases hsame : holder = id ∧ name' = name
                  · simp [hsame, Except.map]
                  · simp [hsame, Except.map]

theorem resolve_rebind (m : Memory) (holder id : ScopeId) (name name' : Text) (v : Value) :
    (m.rebind holder name v).resolve id name' =
      (m.resolve id name').map fun found =>
        (found.1, if holder = found.1 ∧ name' = name then v else found.2) := by
  unfold resolve
  rw [limit_congr (frame_rebind m holder id name v), search_rebind]

/-! ## Sharing -/

/-- Whether a name as seen from one scope and a name as seen from another are found in one scope,
and are the same name. -/
def Shares (m : Memory) (id : ScopeId) (name : Text) (id' : ScopeId) (name' : Text) : Prop :=
  name' = name ∧ ∃ holder old old',
    m.resolve id name = .ok (holder, old) ∧ m.resolve id' name' = .ok (holder, old')

/-- **The value of a name after another was assigned to**, where it is shared and elsewhere. -/
theorem get_rebind {holder : ScopeId} {name : Text} {old : Value}
    (h : m.resolve id name = .ok (holder, old)) (v : Value) (id' : ScopeId) (name' : Text) :
    (m.Shares id name id' name' → (m.rebind holder name v).get id' name' = .ok v) ∧
      (¬m.Shares id name id' name' → (m.rebind holder name v).get id' name' = m.get id' name') := by
  unfold get
  rw [resolve_rebind]
  constructor
  · rintro ⟨rfl, holder', old', old'', hfound, hfound'⟩
    obtain ⟨rfl, rfl⟩ := Prod.mk.inj (Except.ok.inj (h.symm.trans hfound))
    rw [hfound']
    simp [Except.map]
  · intro hother
    rcases hfound : m.resolve id' name' with problem | ⟨holder', old'⟩
    · rfl
    · have hne : ¬(holder = holder' ∧ name' = name) := by
        rintro ⟨rfl, hname⟩
        exact hother ⟨hname, holder, old, old', h, hfound⟩
      simp [Except.map, hne]

/-- An assignment takes place in the scope in which its name is found. -/
theorem exists_resolve_of_checkSet {holder : ScopeId} {name : Text} {v : Value}
    (h : m.checkSet id name v = .ok holder) : ∃ old, m.resolve id name = .ok (holder, old) := by
  unfold checkSet at h
  split at h
  · cases h
  · next holder' old hresolve =>
    split at h
    · cases h
      exact ⟨old, hresolve⟩
    · cases h

/-- What a call that may fail gives: it stored something, or it failed and stored nothing. -/
theorem stored_eq {r : Except ScopeProblem Memory} {problem : Option ScopeProblem}
    (h : m.stored r = (m', problem)) :
    match problem with
    | none => r = .ok m'
    | some problem => r = .error problem ∧ m' = m := by
  cases r with
  | ok stored =>
      cases h
      rfl
  | error failed =>
      cases h
      exact ⟨rfl, rfl⟩

/-- **An assignment changes one binding, and every sharer sees it.** Once a name was assigned to,
every name that shares its binding has the new value as seen from every scope, every other one has
the value or the problem that it had, and all scopes declare the same names and lie as deep as
before. Whatever call fails, the values of all names, the names and the depths are the same as
before. -/
theorem set_shared (m : Memory) :
    (∀ (id : ScopeId) (name : Text) (v : Value) (m' : Memory),
      m.perform (.set id name v) = (m', none) →
        (∀ (id' : ScopeId) (name' : Text),
          (m.Shares id name id' name' → m'.get id' name' = .ok v) ∧
            (¬m.Shares id name id' name' → m'.get id' name' = m.get id' name')) ∧
        ∀ id', m'.names id' = m.names id' ∧ m'.depth id' = m.depth id') ∧
      ∀ (call : Call) (m' : Memory) (problem : ScopeProblem),
        m.perform call = (m', some problem) →
          ∀ id', (∀ name', m'.get id' name' = m.get id' name') ∧
            m'.names id' = m.names id' ∧ m'.depth id' = m.depth id' := by
  constructor
  · intro id name v m' h
    obtain ⟨holder, hcheck, rfl⟩ := set_eq_ok (stored_eq h)
    obtain ⟨old, hresolve⟩ := exists_resolve_of_checkSet hcheck
    refine ⟨fun id' name' => get_rebind hresolve v id' name', fun id' => ⟨?_, ?_⟩⟩
    · exact names_rebind m holder id' name v
    · exact depth_congr fun id'' _ => frame_rebind m holder id'' name v
  · intro call m' problem h id'
    obtain rfl : m' = m := by
      cases call with
      | openRoot limit => cases h
      | enclose outer => cases h
      | declare id name v => exact (stored_eq h).2
      | set id name v => exact (stored_eq h).2
    exact ⟨fun _ => rfl, rfl, rfl⟩

/-- Two scopes inside a root that declares a name, which the second one declares itself as well, and
a third one inside the second. -/
def sharedName : List Call :=
  [.openRoot 4, .enclose 0, .enclose 0, .enclose 2, .declare 0 (utf8 "x") (.bool true),
    .declare 2 (utf8 "x") (.bool true)]

/-- An assignment from inside is seen in the root and not from the scope that shadows the name, and
one of another type is not seen anywhere. -/
theorem set_shared_siblings :
    ∃ m', (build sharedName).perform (.set 1 (utf8 "x") (.bool false)) = (m', none) ∧
      m'.get 0 (utf8 "x") = .ok (.bool false) ∧ m'.get 3 (utf8 "x") = .ok (.bool true) ∧
      ∃ m'' problem, m'.perform (.set 3 (utf8 "x") (.num 1)) = (m'', some problem) ∧
        m''.get 3 (utf8 "x") = .ok (.bool true) := by
  have hroot : (build sharedName).Shares 1 (utf8 "x") 0 (utf8 "x") :=
    ⟨rfl, 0, .bool true, .bool true, rfl, rfl⟩
  have hshadowed : ¬(build sharedName).Shares 1 (utf8 "x") 3 (utf8 "x") := by
    rintro ⟨-, holder, old, old', hfound, hfound'⟩
    cases hfound
    cases hfound'
  obtain ⟨hseen, -⟩ := (set_shared (build sharedName)).1 1 (utf8 "x") (.bool false) _ rfl
  have h3 := (hseen 3 (utf8 "x")).2 hshadowed
  refine ⟨_, rfl, (hseen 0 (utf8 "x")).1 hroot, h3, _, _, rfl, ?_⟩
  exact (((set_shared _).2 (.set 3 (utf8 "x") (.num 1)) _ _ rfl 3).1 _).trans h3

end Badger.Memory
