import Badger.Proofs.Scope.Binding
import Badger.Value.Operation
import Mathlib.Data.Option.Defs

/-!
# Memories cast anew

A memory can be cast anew: with other functions in the place of those that it holds, with more
scopes in front of its own, with wider limits. What is done with names then comes to the same, as
long as functions keep their names and their parameters, but for searches that a wider limit does
not cut short.

## Main definitions

* `Recast`: how a memory is cast anew
* `Recast.value`, `Recast.scope`: what becomes of values and of the numbers of scopes
* `Recast.OfMemory`: that one memory is another one cast anew
* `Recast.castMemory`: the memory cast anew, where that is only one

## Main statements

* `Recast.unary_value`, `Recast.binary_value`: operators do not see the difference
* `Recast.OfMemory.get`, `Recast.OfMemory.checkSet`, `Recast.OfMemory.checkDeclare`: names mean the
  same
* `Recast.OfMemory.bind`, `Recast.OfMemory.rebind`, `Recast.OfMemory.enclose`: changes keep pace

## Design notes

Scopes are compared one by one and not as a list, so that scopes in front of them do not matter.
A limit is only known to be as wide as the other one or wider; where no limit is wider, nothing is
cut short on one side only.
-/

namespace Badger

/-- **How a memory is cast anew**: which function takes the place of a declared one, how many
scopes there are before those of the memory, and whether limits may be wider. -/
structure Recast where
  closure : Closure → Closure
  name_closure : ∀ c, (closure c).name = c.name
  arity_closure : ∀ c, (closure c).arity = c.arity
  params_closure : ∀ c, (closure c).params = c.params
  older : Nat := 0
  wider : Bool := false

namespace Recast

variable (r : Recast)

/-! ## Values -/

/-- The function cast anew. -/
def callable : Callable → Callable
  | .unassigned => .unassigned
  | .native n => .native n
  | .custom c => .custom (r.closure c)

/-- **The value cast anew.** Only functions change. -/
def value : Value → Value
  | .num x => .num x
  | .str s => .str s
  | .bool b => .bool b
  | .fxn f => .fxn (r.callable f)

@[simp] theorem arity?_callable (f : Callable) : (r.callable f).arity? = f.arity? := by
  cases f with
  | unassigned | native _ => rfl
  | custom c => exact congrArg some (r.arity_closure c)

@[simp] theorem tag_value (v : Value) : (r.value v).tag = v.tag := by
  cases v <;> rfl

@[simp] theorem text_value (v : Value) : (r.value v).text = v.text := by
  rcases v with _ | _ | _ | ⟨_ | _ | c⟩
  case fxn.custom =>
    show (Packed.ofText (Callable.custom (r.closure c)).text).toText = _
    rw [Callable.text, r.name_closure c]
    rfl
  all_goals rfl

@[simp] theorem truthy_value (v : Value) : (r.value v).truthy = v.truthy := by
  rcases v with _ | _ | _ | ⟨_ | _ | _⟩ <;> rfl

@[simp] theorem isCustom_value (v : Value) : (r.value v).isCustom = v.isCustom := by
  rcases v with _ | _ | _ | ⟨_ | _ | _⟩ <;> rfl

@[simp] theorem replaceable_value (old new : Value) :
    Memory.replaceable (r.value old) (r.value new) = Memory.replaceable old new := by
  rw [Memory.replaceable, tag_value, tag_value]
  rfl

theorem unary_value (op : UnaryOp) (v : Value) :
    Value.unary op (r.value v) = (Value.unary op v).map r.value := by
  cases op with
  | not => rw [Value.unary, Value.unary, truthy_value]; rfl
  | negate => cases v <;> rfl
  | other lexeme => rfl

theorem map_repeated (s : Packed) (x : Float) :
    (Value.repeated s x).map r.value = Value.repeated s x := by
  unfold Value.repeated
  split
  · rfl
  · split
    · rfl
    · split <;> rfl

theorem binary?_value (op : BinaryOp) (v w : Value) :
    Value.binary? op (r.value v) (r.value w) =
      (Value.binary? op v w).map (Except.map r.value) := by
  cases op with
  | mul =>
      rcases v with _ | s | _ | _ <;> rcases w with y | _ | _ | _ <;> first
        | rfl
        | exact congrArg some (r.map_repeated s y).symm
  | _ => cases v <;> cases w <;> rfl

theorem binary_value (op : BinaryOp) (v w : Value) :
    Value.binary op (r.value v) (r.value w) = (Value.binary op v w).map r.value := by
  unfold Value.binary
  rw [binary?_value, tag_value, tag_value]
  cases Value.binary? op v w <;> rfl

/-! ## Bindings -/

/-- Bindings cast anew. -/
def bindings (bs : List (Text × Value)) : List (Text × Value) :=
  bs.map fun b => (b.1, r.value b.2)

theorem lookup_bindings (bs : List (Text × Value)) (name : Text) :
    (r.bindings bs).lookup name = (bs.lookup name).map r.value := by
  induction bs with
  | nil => rfl
  | cons b bs ih =>
      show ((b.1, r.value b.2) :: r.bindings bs).lookup name = _
      rw [List.lookup_cons, List.lookup_cons, ih]
      cases name == b.1 <;> rfl

theorem replaceIn_bindings (name : Text) (v : Value) (bs : List (Text × Value)) :
    Scope.replaceIn name (r.value v) (r.bindings bs) =
      r.bindings (Scope.replaceIn name v bs) := by
  induction bs with
  | nil => rfl
  | cons b bs ih =>
      show Scope.replaceIn name (r.value v) ((b.1, r.value b.2) :: r.bindings bs) = _
      rw [Scope.replaceIn, Scope.replaceIn, ih]
      split <;> rfl

/-! ## Memories -/

/-- The number of the scope cast anew. -/
def scope (id : ScopeId) : ScopeId := id + r.older

/-- A limit in the place of another: the same, or a wider one where that is admitted. -/
def Admits (limit limit' : Nat) : Prop := limit' = limit ∨ r.wider = true ∧ limit ≤ limit'

/-- One scope is another one cast anew. -/
structure OfScope (s s' : Scope) : Prop where
  bindings_eq : s'.bindings = r.bindings s.bindings
  outer_eq : s'.outer = s.outer.map r.scope
  limit : r.Admits s.limit s'.limit

/-- **One memory is another one cast anew.** -/
structure OfMemory (m m' : Memory) : Prop where
  size_eq : m'.scopes.size = r.scope m.scopes.size
  scope : ∀ id, Option.Rel r.OfScope (m.scope? id) (m'.scope? (r.scope id))

/-- The scope cast anew, with the same limit. -/
def castScope (s : Scope) : Scope :=
  { bindings := r.bindings s.bindings, outer := s.outer.map r.scope, limit := s.limit }

/-- **The memory cast anew**, with the same limits and with no scopes before its own. -/
def castMemory (m : Memory) : Memory := ⟨m.scopes.map r.castScope⟩

variable {r}

theorem scope_inj {id id' : ScopeId} : r.scope id = r.scope id' ↔ id = id' :=
  Nat.add_right_cancel_iff

theorem OfScope.lookup {s s' : Scope} (h : r.OfScope s s') (name : Text) :
    s'.lookup name = (s.lookup name).map r.value := by
  unfold Scope.lookup
  rw [h.bindings_eq, lookup_bindings]

theorem OfScope.eq_cast (hwider : r.wider = false) {s s' : Scope} (h : r.OfScope s s') :
    s' = r.castScope s := by
  obtain ⟨bindings, outer, limit⟩ := s'
  obtain ⟨rfl, rfl, hlimit⟩ := h
  have hlimit : limit = s.limit := hlimit.resolve_right fun h => by simp [hwider] at h
  rw [hlimit]
  rfl

theorem scope?_castMemory (m : Memory) (id : ScopeId) :
    (r.castMemory m).scope? id = (m.scope? id).map r.castScope :=
  Array.getElem?_map

/-- Any memory is an empty one cast anew, with all its scopes before. -/
theorem ofMemory_empty {m : Memory} (hold : r.older = m.scopes.size) : r.OfMemory {} m := by
  refine ⟨?_, fun id => ?_⟩
  · rw [Recast.scope, hold]
    exact (Nat.zero_add _).symm
  · have hnone : m.scope? (r.scope id) = none := by
      refine Array.getElem?_eq_none ?_
      rw [Recast.scope, hold]
      exact Nat.le_add_left _ _
    rw [hnone]
    exact .none

theorem ofMemory_cast (hold : r.older = 0) (m : Memory) : r.OfMemory m (r.castMemory m) := by
  have hscope (id : ScopeId) : r.scope id = id := by rw [Recast.scope, hold, Nat.add_zero]
  refine ⟨?_, fun id => ?_⟩
  · rw [hscope]
    exact Array.size_map
  · rw [hscope, scope?_castMemory]
    cases m.scope? id with
    | none => exact .none
    | some s => exact .some ⟨rfl, rfl, .inl rfl⟩

namespace OfMemory

variable {m m' : Memory} (h : r.OfMemory m m')

include h

/-- A scope exists on both sides, and then one is the other cast anew, or on none. -/
theorem scope_cases (id : ScopeId) :
    (m.scope? id = none ∧ m'.scope? (r.scope id) = none) ∨
      ∃ s s', m.scope? id = some s ∧ m'.scope? (r.scope id) = some s' ∧ r.OfScope s s' := by
  have hrel := h.scope id
  generalize m.scope? id = s?, m'.scope? (r.scope id) = s?' at hrel ⊢
  cases hrel with
  | none => exact .inl ⟨rfl, rfl⟩
  | some hs => exact .inr ⟨_, _, rfl, rfl, hs⟩

/-- With no scopes before and no wider limits, a memory is cast anew in one way. -/
theorem eq_cast (hold : r.older = 0) (hwider : r.wider = false) : m' = r.castMemory m := by
  have hscopes : m'.scopes = (r.castMemory m).scopes := by
    refine Array.ext_getElem? fun id => ?_
    show m'.scope? id = (r.castMemory m).scope? id
    have hid : r.scope id = id := by rw [Recast.scope, hold, Nat.add_zero]
    rw [scope?_castMemory]
    rcases h.scope_cases id with ⟨hs, hs'⟩ | ⟨s, s', hs, hs', hscope⟩
    all_goals rw [hid] at hs'
    · rw [hs, hs']
      rfl
    · rw [hs, hs', hscope.eq_cast hwider]
      rfl
  exact congrArg Memory.mk hscopes

theorem admits_limit (id : ScopeId) : r.Admits (m.limit id) (m'.limit (r.scope id)) := by
  unfold Memory.limit
  rcases h.scope_cases id with ⟨hs, hs'⟩ | ⟨s, s', hs, hs', hscope⟩
  · rw [hs, hs']
    exact .inl rfl
  · rw [hs, hs']
    exact hscope.limit

/-- **A search finds the same**, or a wider limit does not cut it short. -/
theorem search {visits visits' limit limit' : Nat}
    (hvisits : visits' = visits ∧ limit' = limit ∨ r.wider = true ∧ visits ≤ visits')
    (name : Text) (start : Option ScopeId) :
    m'.search limit' name visits' (start.map r.scope) =
        (m.search limit name visits start).map (Prod.map r.scope r.value) ∨
      r.wider = true ∧ m.search limit name visits start = .error (.tooDeep limit) := by
  induction visits generalizing visits' start with
  | zero =>
      cases start with
      | none => exact .inl (by simp [Except.map])
      | some id =>
          rcases hvisits with ⟨rfl, rfl⟩ | ⟨hwider, -⟩
          · exact .inl rfl
          · exact .inr ⟨hwider, rfl⟩
  | succ visits ih =>
      cases start with
      | none => exact .inl (by simp [Except.map])
      | some id =>
          have hpos : visits + 1 ≤ visits' :=
            hvisits.elim (fun h => h.1 ▸ Nat.le_refl _) fun h => h.2
          obtain ⟨visits', rfl⟩ : ∃ n, visits' = n + 1 := ⟨visits' - 1, by omega⟩
          have hrest :=
            hvisits.imp (And.imp_left Nat.succ.inj) (And.imp_right Nat.le_of_succ_le_succ)
          rw [Option.map_some, Memory.search, Memory.search]
          rcases h.scope_cases id with ⟨hs, hs'⟩ | ⟨s, s', hs, hs', hscope⟩
          · rw [hs, hs']
            exact .inl rfl
          · rw [hs, hs']
            dsimp only
            rw [hscope.lookup name, hscope.outer_eq]
            cases s.lookup name with
            | some v => exact .inl rfl
            | none => exact ih hrest s.outer

theorem resolve (id : ScopeId) (name : Text) :
    m'.resolve (r.scope id) name = (m.resolve id name).map (Prod.map r.scope r.value) ∨
      r.wider = true ∧ m.resolve id name = .error (.tooDeep (m.limit id)) := by
  refine h.search ?_ name (some id)
  rcases h.admits_limit id with hlimit | ⟨hwider, hlimit⟩
  · exact .inl ⟨by rw [hlimit], hlimit⟩
  · exact .inr ⟨hwider, Nat.succ_le_succ hlimit⟩

/-- **A name has the same value**, or a wider limit does not cut the search short. -/
theorem get (id : ScopeId) (name : Text) :
    m'.get (r.scope id) name = (m.get id name).map r.value ∨
      r.wider = true ∧ m.get id name = .error (.tooDeep (m.limit id)) := by
  unfold Memory.get
  rcases h.resolve id name with hresolve | ⟨hwider, hresolve⟩
  · rw [hresolve]
    cases m.resolve id name <;> exact .inl rfl
  · rw [hresolve]
    exact .inr ⟨hwider, rfl⟩

/-- **An assignment takes place in the same scope**, or a wider limit does not cut the search
short. -/
theorem checkSet (id : ScopeId) (name : Text) (v : Value) :
    m'.checkSet (r.scope id) name (r.value v) = (m.checkSet id name v).map r.scope ∨
      r.wider = true ∧ m.checkSet id name v = .error (.tooDeep (m.limit id)) := by
  unfold Memory.checkSet
  rcases h.resolve id name with hresolve | ⟨hwider, hresolve⟩
  · left
    rw [hresolve]
    cases m.resolve id name with
    | error e => rfl
    | ok found =>
        simp only [Except.map, Prod.map, replaceable_value, tag_value]
        split <;> rfl
  · rw [hresolve]
    exact .inr ⟨hwider, rfl⟩

theorem checkDeclare (id : ScopeId) (name : Text) :
    m'.checkDeclare (r.scope id) name = m.checkDeclare id name := by
  unfold Memory.checkDeclare
  rcases h.scope_cases id with ⟨hs, hs'⟩ | ⟨s, s', hs, hs', hscope⟩
  · rw [hs, hs']
  · rw [hs, hs', Option.bind_some, Option.bind_some, hscope.lookup name]
    cases s.lookup name <;> rfl

/-- Changing a scope on both sides. -/
theorem update {f g : Scope → Scope} (hf : ∀ s s', r.OfScope s s' → r.OfScope (f s) (g s'))
    (id : ScopeId) : r.OfMemory (m.update id f) (m'.update (r.scope id) g) := by
  refine ⟨?_, fun id' => ?_⟩
  · simp [Memory.update, h.size_eq]
  · rw [Memory.scope?_update, Memory.scope?_update]
    rcases h.scope_cases id' with ⟨hs, hs'⟩ | ⟨s, s', hs, hs', hscope⟩
    · rw [hs, hs', Option.map_none, Option.map_none, ite_self, ite_self]
      exact .none
    · rw [hs, hs', Option.map_some, Option.map_some]
      by_cases hid : id = id'
      · rw [if_pos hid, if_pos (congrArg r.scope hid)]
        exact .some (hf s s' hscope)
      · rw [if_neg hid, if_neg (hid ∘ scope_inj.mp)]
        exact .some hscope

theorem bind (id : ScopeId) (name : Text) (v : Value) :
    r.OfMemory (m.bind id name v) (m'.bind (r.scope id) name (r.value v)) :=
  h.update (f := (·.bind name v)) (g := (·.bind name (r.value v)))
    (fun _ _ hs => ⟨congrArg (_ :: ·) hs.bindings_eq, hs.outer_eq, hs.limit⟩) id

theorem rebind (id : ScopeId) (name : Text) (v : Value) :
    r.OfMemory (m.rebind id name v) (m'.rebind (r.scope id) name (r.value v)) := by
  refine h.update (f := (·.rebind name v)) (g := (·.rebind name (r.value v)))
    (fun s s' hs => ⟨?_, hs.outer_eq, hs.limit⟩) id
  show Scope.replaceIn name (r.value v) s'.bindings = _
  rw [hs.bindings_eq, replaceIn_bindings]
  rfl

/-- Adding a scope on both sides. -/
theorem add {s s' : Scope} (hs : r.OfScope s s') :
    (m'.add s').1 = r.scope (m.add s).1 ∧ r.OfMemory (m.add s).2 (m'.add s').2 := by
  have hsize : m'.scopes.size = m.scopes.size + r.older := h.size_eq
  refine ⟨h.size_eq, ?_, fun id => ?_⟩
  · show (m'.scopes.push s').size = (m.scopes.push s).size + r.older
    rw [Array.size_push, Array.size_push]
    omega
  · rw [Memory.scope?_add, Memory.scope?_add, h.size_eq]
    by_cases hid : id = m.scopes.size
    · rw [if_pos hid, if_pos (congrArg r.scope hid)]
      exact .some hs
    · rw [if_neg hid, if_neg (hid ∘ scope_inj.mp)]
      exact h.scope id

/-- **Opening a scope** inside another on both sides. -/
theorem enclose (outer : ScopeId) :
    (m'.enclose (r.scope outer)).1 = r.scope (m.enclose outer).1 ∧
      r.OfMemory (m.enclose outer).2 (m'.enclose (r.scope outer)).2 := by
  unfold Memory.enclose
  rcases h.scope_cases outer with ⟨hs, hs'⟩ | ⟨s, s', hs, hs', hscope⟩
  · rw [hs, hs']
    exact h.add ⟨rfl, rfl, .inl rfl⟩
  · rw [hs, hs']
    exact h.add ⟨rfl, rfl, hscope.limit⟩

end OfMemory

end Recast

end Badger
