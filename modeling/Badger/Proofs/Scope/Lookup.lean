import Badger.Proofs.Scope.Depth

/-!
# Looking up names

A name is looked up on the way out from a scope. The first scope that declares it wins, if it is
within reach; a name that is not found is undefined if the way out has been gone to its end, and
else the chain of scopes is too deep.

## Main definitions

* `Memory.Call`, `Memory.perform`: calls on scopes, and what they do
* `Memory.build`: the scopes that some calls build
* `Memory.Nested`: that every scope is enclosed by an older one with the same limit
* `Memory.Chain`: scopes from one out to a root

## Main statements

* `Memory.nested_build`: scopes that are built by calls are nested
* `Memory.search_chain`: a search along a chain finds the first scope that declares the name
* `Memory.get_of_chain`, `Memory.get_eq_tooDeep_iff`, `Memory.get_eq_undefined_iff`: the value of a
  name, or why there is none, by the place of the first scope that declares it
* `Memory.innermost_first`: **lookup and assignment** by the place of the name in the chain
-/

namespace Badger.Memory

variable {m : Memory} {id outer : ScopeId} {name : Text}

/-! ## Scopes built by calls -/

/-- **Calls on scopes.** -/
inductive Call where
  | openRoot (limit : Nat)
  | enclose (outer : ScopeId)
  | declare (id : ScopeId) (name : Text) (v : Value)
  | set (id : ScopeId) (name : Text) (v : Value)

/-- The memory after a call that may fail, and its problem then; a failed call stores nothing. -/
def stored (m : Memory) : Except ScopeProblem Memory → Memory × Option ScopeProblem
  | .ok m' => (m', none)
  | .error problem => (m, some problem)

/-- What holds of the memory, and of it once something is stored, holds after the call. -/
theorem stored_fst {P : Memory → Prop} {r : Except ScopeProblem Memory} (hm : P m)
    (hr : ∀ m', r = .ok m' → P m') : P (m.stored r).1 := by
  cases r with
  | ok m' => exact hr m' rfl
  | error problem => exact hm

/-- **What a call does**: the memory after it, and its problem if it fails. -/
def perform (m : Memory) : Call → Memory × Option ScopeProblem
  | .openRoot limit => ((m.openRoot limit).2, none)
  | .enclose outer => ((m.enclose outer).2, none)
  | .declare id name v => m.stored (m.declare id name v)
  | .set id name v => m.stored (m.set id name v)

/-- **The scopes that some calls build**, in their order, whether or not they succeed. -/
def build (calls : List Call) : Memory := calls.foldl (fun m call => (m.perform call).1) {}

/-- A declaration that succeeds adds a binding. -/
theorem declare_eq_ok {m' : Memory} {v : Value} (h : m.declare id name v = .ok m') :
    m.checkDeclare id name = .ok () ∧ m' = m.bind id name v := by
  unfold declare at h
  rcases hcheck : m.checkDeclare id name with problem | ⟨⟩
  all_goals rw [hcheck] at h
  · cases h
  · cases h
    exact ⟨rfl, rfl⟩

/-- An assignment that succeeds replaces the value of a binding. -/
theorem set_eq_ok {m' : Memory} {v : Value} (h : m.set id name v = .ok m') :
    ∃ holder, m.checkSet id name v = .ok holder ∧ m' = m.rebind holder name v := by
  unfold set at h
  rcases hcheck : m.checkSet id name v with problem | holder
  all_goals rw [hcheck] at h
  · cases h
  · cases h
    exact ⟨holder, rfl, rfl⟩

/-! ## Nesting -/

/-- **Nesting.** Every scope is enclosed by an older one, which has the same limit. -/
def Nested (m : Memory) : Prop :=
  ∀ (id outer : ScopeId) (limit : Nat), m.frame id = some (some outer, limit) →
    outer < id ∧ ∃ around, m.frame outer = some (around, limit)

namespace Nested

theorem ordered (hm : m.Nested) : m.Ordered := fun id outer limit h => (hm id outer limit h).1

theorem of_frame_eq {m' : Memory} (hm : m.Nested) (h : ∀ id, m'.frame id = m.frame id) :
    m'.Nested := by
  intro id outer limit hframe
  rw [h] at hframe
  rw [h]
  exact hm id outer limit hframe

theorem add (hm : m.Nested) {s : Scope} (hs : ∀ outer, s.outer = some outer →
    ∃ around, m.frame outer = some (around, s.limit)) : (m.add s).2.Nested := by
  intro id outer limit hframe
  rw [frame_add] at hframe
  split at hframe
  · next hid =>
    obtain ⟨houter, rfl⟩ := Prod.mk.inj (Option.some.inj hframe)
    obtain ⟨around, haround⟩ := hs outer houter
    have hlt := lt_size_of_frame haround
    exact ⟨hid ▸ hlt, around, (frame_add_of_lt s hlt).trans haround⟩
  · obtain ⟨hlt, around, haround⟩ := hm id outer limit hframe
    exact ⟨hlt, around, (frame_add_of_lt s (lt_size_of_frame haround)).trans haround⟩

theorem openRoot (hm : m.Nested) (limit : Nat) : (m.openRoot limit).2.Nested := hm.add nofun

theorem enclose (hm : m.Nested) (outer : ScopeId) : (m.enclose outer).2.Nested := by
  unfold Memory.enclose
  split
  · next s hs =>
    refine hm.add ?_
    rintro _ ⟨⟩
    exact ⟨s.outer, by rw [frame, hs]; rfl⟩
  · exact hm.openRoot _

/-- **Every call keeps the nesting**, whether or not it succeeds. -/
theorem perform (hm : m.Nested) (call : Call) : (m.perform call).1.Nested := by
  cases call with
  | openRoot limit => exact hm.openRoot limit
  | enclose outer => exact hm.enclose outer
  | declare id name v =>
      refine stored_fst hm fun m' hdeclare => ?_
      obtain ⟨-, rfl⟩ := declare_eq_ok hdeclare
      exact hm.of_frame_eq fun id' => frame_bind m id id' name v
  | set id name v =>
      refine stored_fst hm fun m' hset => ?_
      obtain ⟨holder, -, rfl⟩ := set_eq_ok hset
      exact hm.of_frame_eq fun id' => frame_rebind m holder id' name v

end Nested

/-- **Scopes that are built by calls are nested.** -/
theorem nested_build (calls : List Call) : (build calls).Nested := by
  have hall : ∀ m : Memory, m.Nested →
      (calls.foldl (fun m call => (m.perform call).1) m).Nested := by
    induction calls with
    | nil => exact fun _ hm => hm
    | cons call calls ih => exact fun m hm => ih _ (hm.perform call)
  exact hall {} fun id outer limit h => absurd (lt_size_of_frame h) (Nat.not_lt_zero id)

/-! ## Chains -/

/-- **Chains of scopes.** Each scope lies directly inside the next one, and the last one is a
root. -/
inductive Chain (m : Memory) : List ScopeId → Prop where
  | root {id : ScopeId} {limit : Nat} (h : m.frame id = some (none, limit)) : Chain m [id]
  | inside {id outer : ScopeId} {limit : Nat} {around : List ScopeId}
      (h : m.frame id = some (some outer, limit)) (hrest : Chain m (outer :: around)) :
      Chain m (id :: outer :: around)

namespace Nested

/-- **Every scope starts a chain.** -/
theorem exists_chain (hm : m.Nested) (hid : id < m.scopes.size) :
    ∃ around, m.Chain (id :: around) := by
  induction id using Nat.strongRecOn with
  | _ id ih =>
    obtain ⟨⟨_ | outer, limit⟩, hframe⟩ := exists_frame hid
    · exact ⟨[], .root hframe⟩
    · obtain ⟨hlt, around, houter⟩ := hm id outer limit hframe
      obtain ⟨rest, hchain⟩ := ih outer hlt (lt_size_of_frame houter)
      exact ⟨outer :: rest, .inside hframe hchain⟩

/-- **A chain** has one limit, and as many scopes around the first one as this is deep. -/
theorem limit_eq_of_chain (hm : m.Nested) {around : List ScopeId} (h : m.Chain (id :: around)) :
    (∀ e ∈ around, m.limit e = m.limit id) ∧ around.length = m.depth id := by
  generalize hchain : id :: around = chain at h
  induction h generalizing id around with
  | root hframe =>
      cases hchain
      exact ⟨List.forall_mem_nil _, (depth_root hframe).symm⟩
  | @inside id outer limit rest hframe _ ih =>
      cases hchain
      obtain ⟨hlt, beyond, houter⟩ := hm _ _ _ hframe
      obtain ⟨hlimits, hlength⟩ := ih rfl
      have hsame : m.limit outer = m.limit id := by
        rw [limit_of_frame houter, limit_of_frame hframe]
      refine ⟨List.forall_mem_cons.mpr ⟨hsame, fun e he => (hlimits e he).trans hsame⟩, ?_⟩
      rw [List.length_cons, hlength, depth_of_frame hframe hlt]

end Nested

/-! ## Searches along a chain -/

/-- Where a search looks first. -/
theorem search_succ {around : Option ScopeId} {limit : Nat} (h : m.frame id = some (around, limit))
    (bound visits : Nat) (name : Text) :
    m.search bound name (visits + 1) (some id) =
      match m.bound id name with
      | some v => .ok (id, v)
      | none => m.search bound name visits around := by
  obtain ⟨s, hs, hframe⟩ := Option.map_eq_some_iff.mp h
  cases hframe
  rw [search, Memory.bound, hs]
  rfl

/-- **A search along a chain** finds the first scope that declares the name among those that it may
visit. If there is none, the name is undefined unless the chain goes on. -/
theorem search_chain {around : List ScopeId} (h : m.Chain (id :: around)) (limit visits : Nat)
    (name : Text) :
    m.search limit name visits (some id) =
      match ((id :: around).take visits).findSome? fun e => (m.bound e name).map (e, ·) with
      | some found => .ok found
      | none =>
        if around.length < visits then .error (.undefined name) else .error (.tooDeep limit) := by
  generalize hchain : id :: around = chain at h
  induction h generalizing id around visits with
  | @root inner _ hframe =>
      cases hchain
      cases visits with
      | zero => rfl
      | succ visits =>
          rw [search_succ hframe]
          cases hbound : m.bound inner name with
          | some v => simp [hbound]
          | none => simp [hbound]
  | @inside inner outer _ rest hframe _ ih =>
      cases hchain
      cases visits with
      | zero => rfl
      | succ visits =>
          rw [search_succ hframe]
          cases hbound : m.bound inner name with
          | some v => simp [hbound]
          | none =>
              rw [ih visits rfl]
              simp [hbound]

/-- The first of some elements that has a value, if it is one of the first few. -/
theorem findSome?_take {α β : Type} (f : α → Option β) (as : List α) (n : Nat) :
    (as.take n).findSome? f =
      (as.findIdx? fun a => (f a).isSome).bind fun i => if i < n then as[i]?.bind f else none := by
  induction as generalizing n with
  | nil => simp
  | cons a as ih =>
      cases n with
      | zero => simp
      | succ n =>
          rw [List.take_succ_cons, List.findSome?_cons, List.findIdx?_cons]
          cases hfa : f a with
          | some b => simp [hfa]
          | none =>
              simp only [ih]
              cases as.findIdx? fun a => (f a).isSome <;> simp

/-- An assignment fails like the lookup, or by the types, and else succeeds. -/
theorem set_of_get (m : Memory) (id : ScopeId) (name : Text) (v : Value) :
    match m.get id name with
    | .error problem => m.set id name v = .error problem
    | .ok old =>
      if old.tag ≠ .fxn ∧ v.tag ≠ .fxn ∧ old.tag = v.tag then ∃ m', m.set id name v = .ok m'
      else m.set id name v = .error (.mismatch v.tag name old.tag) := by
  unfold get set checkSet
  rcases m.resolve id name with problem | ⟨holder, old⟩
  · rfl
  · have hreplaceable : replaceable old v = true ↔
        old.tag ≠ .fxn ∧ v.tag ≠ .fxn ∧ old.tag = v.tag := by
      simp only [replaceable, Bool.and_eq_true, bne_iff_ne, beq_iff_eq]
      exact ⟨fun h => ⟨h.1, h.2 ▸ h.1, h.2⟩, fun h => ⟨h.1, h.2.2⟩⟩
    simp only [Except.map, ← hreplaceable]
    split
    · exact ⟨_, rfl⟩
    · rfl

/-! ## Lookup by the place of the name -/

/-- The place in a chain of the first scope that declares a name. -/
def holderIn (m : Memory) (name : Text) (chain : List ScopeId) : Option Nat :=
  chain.findIdx? fun e => (m.bound e name).isSome

/-- The scope at that place. -/
theorem exists_of_holderIn {chain : List ScopeId} {h : Nat} (hh : m.holderIn name chain = some h) :
    h < chain.length ∧ ∃ e v, chain[h]? = some e ∧ m.bound e name = some v := by
  obtain ⟨hlt, hsome, -⟩ := List.findIdx?_eq_some_iff_getElem.mp hh
  obtain ⟨v, hv⟩ := Option.isSome_iff_exists.mp hsome
  exact ⟨hlt, _, v, List.getElem?_eq_getElem hlt, hv⟩

/-- **The value of a name**, by the place of the first scope that declares it. -/
theorem get_of_chain {around : List ScopeId} (h : m.Chain (id :: around)) (name : Text) :
    match m.holderIn name (id :: around) with
    | some h =>
      if h ≤ m.limit id then
        ∃ e v, (id :: around)[h]? = some e ∧ m.bound e name = some v ∧ m.get id name = .ok v
      else m.get id name = .error (.tooDeep (m.limit id))
    | none =>
      m.get id name = .error
        (if around.length ≤ m.limit id then .undefined name else .tooDeep (m.limit id)) := by
  have hsearch := search_chain h (m.limit id) (m.limit id + 1) name
  have hget : m.get id name =
      (m.search (m.limit id) name (m.limit id + 1) (some id)).map Prod.snd := rfl
  rw [hget, hsearch, findSome?_take]
  have hholder : ((id :: around).findIdx? fun e =>
      ((m.bound e name).map fun v => (e, v)).isSome) = m.holderIn name (id :: around) := by
    simp [holderIn]
  rw [hholder]
  cases hplace : m.holderIn name (id :: around) with
  | none =>
      simp only [Option.bind_none, Nat.lt_succ_iff]
      split <;> rfl
  | some h =>
      obtain ⟨hlt, e, v, he, hv⟩ := exists_of_holderIn hplace
      simp only [Option.bind_some, Nat.lt_succ_iff]
      split
      · exact ⟨e, v, he, hv, by simp [he, hv, Except.map]⟩
      · next hdeep =>
        have hbeyond : ¬around.length ≤ m.limit id := by
          rw [List.length_cons] at hlt
          omega
        simp [hbeyond, Except.map]

/-- A lookup is cut short if the chain goes on beyond the limit and the name is not declared within
it. -/
theorem get_eq_tooDeep_iff {around : List ScopeId} (h : m.Chain (id :: around)) (name : Text) :
    m.get id name = .error (.tooDeep (m.limit id)) ↔
      m.limit id < around.length ∧ ∀ h ∈ m.holderIn name (id :: around), m.limit id < h := by
  have hget := get_of_chain h name
  cases hplace : m.holderIn name (id :: around) with
  | none =>
      rw [hplace] at hget
      simp only at hget
      rw [hget]
      split <;> simp <;> omega
  | some place =>
      have hlt : place < around.length + 1 := (exists_of_holderIn hplace).1
      rw [hplace] at hget
      simp only at hget
      split at hget
      · next hnear =>
        obtain ⟨e, old, -, -, hget⟩ := hget
        rw [hget]
        simp
        omega
      · next hfar =>
        rw [hget]
        simp
        omega

/-- A name is undefined if no scope of the chain declares it, and none lies beyond the limit. -/
theorem get_eq_undefined_iff {around : List ScopeId} (h : m.Chain (id :: around)) (name : Text) :
    m.get id name = .error (.undefined name) ↔
      m.holderIn name (id :: around) = none ∧ around.length ≤ m.limit id := by
  have hget := get_of_chain h name
  cases hplace : m.holderIn name (id :: around) with
  | none =>
      rw [hplace] at hget
      simp only at hget
      rw [hget]
      split <;> simp <;> omega
  | some place =>
      rw [hplace] at hget
      simp only at hget
      split at hget
      · obtain ⟨e, old, -, -, hget⟩ := hget
        simp [hget]
      · simp [hget]

/-- **Lookup is innermost-first within the limit.** In whatever order scopes are opened and names
are declared and assigned to, every scope starts a chain. Let `k` scopes lie around it, let `D` be
the limit, and `h` the place of the first scope in the chain that declares a name. The value is that
of this scope if `h` is at most `D`; the chain is too deep if `k` is above `D` and `h` is above `D`
or missing; and the name is undefined if `h` is missing and `k` is at most `D`. An assignment fails
in the same cases with the same problem, and otherwise if the types do not fit or one of the values
is a function. -/
theorem innermost_first (calls : List Call) :
    let m := build calls
    (∀ id < m.scopes.size, ∃ around, m.Chain (id :: around)) ∧
      ∀ (id : ScopeId) (around : List ScopeId), m.Chain (id :: around) →
        let k := around.length
        let D := m.limit id
        m.depth id = k ∧ (∀ e ∈ around, m.limit e = D) ∧
          ∀ (name : Text) (v : Value),
            let holder := m.holderIn name (id :: around)
            (∀ h ∈ holder, h ≤ D → ∃ e old, (id :: around)[h]? = some e ∧
              m.bound e name = some old ∧ m.get id name = .ok old) ∧
            (m.get id name = .error (.tooDeep D) ↔ D < k ∧ ∀ h ∈ holder, D < h) ∧
            (m.get id name = .error (.undefined name) ↔ holder = none ∧ k ≤ D) ∧
            (∀ problem, m.get id name = .error problem → m.set id name v = .error problem) ∧
            ∀ old, m.get id name = .ok old →
              if old.tag ≠ .fxn ∧ v.tag ≠ .fxn ∧ old.tag = v.tag then
                ∃ m', m.set id name v = .ok m'
              else m.set id name v = .error (.mismatch v.tag name old.tag) := by
  intro m
  have hm : m.Nested := nested_build calls
  refine ⟨fun id hid => hm.exists_chain hid, fun id around hchain => ?_⟩
  obtain ⟨hlimits, hdepth⟩ := hm.limit_eq_of_chain hchain
  refine ⟨hdepth.symm, hlimits, fun name v => ⟨fun h hplace hnear => ?_,
    get_eq_tooDeep_iff hchain name, get_eq_undefined_iff hchain name, fun problem hget => ?_,
    fun old hget => ?_⟩⟩
  · have hget := get_of_chain hchain name
    rw [hplace] at hget
    simp only at hget
    rwa [if_pos hnear] at hget
  · have hset := set_of_get m id name v
    rw [hget] at hset
    exact hset
  · have hset := set_of_get m id name v
    rw [hget] at hset
    exact hset

/-- Three scopes, one in the other, with a limit of one, and a name in each of the outer two. -/
def threeScopes : List Call :=
  [.openRoot 1, .enclose 0, .enclose 1, .declare 0 (utf8 "x") (.bool true),
    .declare 1 (utf8 "y") (.bool false)]

/-- From the innermost scope the name of the root is out of reach, by one. -/
theorem innermost_first_limit :
    let m := build threeScopes
    m.Chain [2, 1, 0] ∧ m.limit 2 = 1 ∧
      m.holderIn (utf8 "x") [2, 1, 0] = some 2 ∧ m.get 2 (utf8 "x") = .error (.tooDeep 1) ∧
      m.holderIn (utf8 "y") [2, 1, 0] = some 1 ∧ m.get 2 (utf8 "y") = .ok (.bool false) ∧
      ∃ m', m.set 2 (utf8 "y") (.bool true) = .ok m' := by
  intro m
  have hroot : m.frame 0 = some (none, 1) := by decide
  have hmiddle : m.frame 1 = some (some 0, 1) := by decide
  have hinner : m.frame 2 = some (some 1, 1) := by decide
  have hchain : m.Chain [2, 1, 0] := .inside hinner (.inside hmiddle (.root hroot))
  have hlimit : m.limit 2 = 1 := by decide
  have hx : m.holderIn (utf8 "x") [2, 1, 0] = some 2 := by decide
  have hy : m.holderIn (utf8 "y") [2, 1, 0] = some 1 := by decide
  obtain ⟨-, -, hlookup⟩ := (innermost_first threeScopes).2 2 [1, 0] hchain
  obtain ⟨-, hdeep, -⟩ := hlookup (utf8 "x") (.bool true)
  obtain ⟨hfound, -, -, -, hset⟩ := hlookup (utf8 "y") (.bool true)
  obtain ⟨e, old, he, hold, hget⟩ := hfound 1 hy (Nat.le_of_eq hlimit.symm)
  obtain rfl : 1 = e := Option.some.inj he
  have hy' : m.bound 1 (utf8 "y") = some (.bool false) := rfl
  obtain rfl : .bool false = old := Option.some.inj (hy'.symm.trans hold)
  rw [hlimit, hx] at hdeep
  exact ⟨hchain, hlimit, hx, hdeep.mpr ⟨by decide, by decide⟩, hy, hget, hset _ hget⟩

end Badger.Memory
