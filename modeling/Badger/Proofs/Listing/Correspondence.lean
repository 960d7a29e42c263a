import Badger.Proofs.Listing.Shape
import Badger.Proofs.Scope.Binding

/-!
# Sessions and machines

When a session and a machine are in corresponding states. The machine knows two scopes, the global
one and that of the active call; the session may be in a scope further inside, opened by a block.
As long as nothing is declared there, names mean the same on both sides.

## Main definitions

* `Stmt.isFlat`: that nothing is declared inside a block
* `Stmt.fxnBodies`: the bodies of the functions declared in a statement
* `Stmt.isValued`: that the listing of a statement tells its value
* `Machine.Similar`: corresponding values
* `Machine.Reaches`: that nothing is declared on the way out to the scope of the call
* `Machine.Related`: corresponding states

## Main statements

* `Related.lookup`: names have corresponding values
* `Related.assign`, `Related.declare`: and still have them after an assignment or a declaration

## Design notes

A session keeps every scope it ever opened, and a function could keep its own. Here functions are
declared in the global scope only, so that a scope of a call is seen by that call alone; `Spares`
says that whatever runs leaves the scopes of waiting calls as they are.
-/

namespace Badger

/-! ## Flat programs -/

mutual

/-- **Flat statements.** Whether nothing is declared inside a block, where `inBlock` tells whether
the statement itself stands in one. The body of a function is no block. -/
def Stmt.isFlat (inBlock : Bool) : Stmt → Bool
  | .missing | .expr _ _ | .ret _ _ => true
  | .block _ body => Stmt.areFlat true body
  | .declare _ _ _ _ => !inBlock
  | .ifThen _ _ yes => yes.isFlat inBlock
  | .ifElse _ _ yes no => yes.isFlat inBlock && no.isFlat inBlock
  | .loop _ _ body => body.isFlat inBlock
  | .fxn _ _ _ body => !inBlock && Stmt.areFlat false body

/-- Whether all statements of a list are flat. -/
def Stmt.areFlat (inBlock : Bool) : List Stmt → Bool
  | [] => true
  | s :: ss => s.isFlat inBlock && Stmt.areFlat inBlock ss

end

mutual

/-- The bodies of the functions declared in a statement. -/
def Stmt.fxnBodies : Stmt → List (List Stmt)
  | .missing | .expr _ _ | .ret _ _ | .declare _ _ _ _ => []
  | .block _ body => Stmt.listFxnBodies body
  | .ifThen _ _ yes => yes.fxnBodies
  | .ifElse _ _ yes no => yes.fxnBodies ++ no.fxnBodies
  | .loop _ _ body => body.fxnBodies
  | .fxn _ _ _ body => body :: Stmt.listFxnBodies body

/-- The bodies of the functions declared in statements. -/
def Stmt.listFxnBodies : List Stmt → List (List Stmt)
  | [] => []
  | s :: ss => s.fxnBodies ++ Stmt.listFxnBodies ss

end

/-- Whether there are instructions for an expression; for a literal there are none. -/
def Expr.emits : Expr → Bool
  | .missing | .num _ _ | .str _ _ | .bool _ _ => false
  | .group _ inner => inner.emits
  | _ => true

mutual

/-- Whether there are instructions for a statement. -/
def Stmt.emits : Stmt → Bool
  | .missing => false
  | .expr _ e => e.emits
  | .block _ body => Stmt.anyEmits body
  | _ => true

/-- Whether there are instructions for one of some statements. -/
def Stmt.anyEmits : List Stmt → Bool
  | [] => false
  | s :: ss => s.emits || Stmt.anyEmits ss

end

mutual

/-- **Valued statements.** Whether the instructions of a statement tell its value, if nothing comes
before them: where the value is that of another statement, there are instructions for that one. -/
def Stmt.isValued : Stmt → Bool
  | .missing => false
  | .expr _ e => e.emits
  | .ret _ _ | .declare _ _ _ _ | .fxn _ _ _ _ => true
  | .block _ body => Stmt.areValued body
  | .ifThen _ _ yes => yes.isValued
  | .ifElse _ _ yes no => yes.isValued && no.isValued
  | .loop _ _ body => body.isValued

/-- Whether the instructions of statements tell the value of the last one, for which there are some
if it comes after others. -/
def Stmt.areValued : List Stmt → Bool
  | [] => true
  | [s] => s.emits && s.isValued
  | _ :: s :: ss => Stmt.areValued (s :: ss)

end

namespace Machine

variable {code : List Instr} {g b : ScopeId}

/-! ## Code in its place -/

/-- Whether instructions stand in a listing from a line on. -/
def Holds (code : List Instr) : Nat → List Instr → Prop
  | _, [] => True
  | line, i :: rest => code[line]? = some i ∧ Holds code (line + 1) rest

theorem holds_append {line : Nat} {part part' : List Instr} :
    Holds code line (part ++ part') ↔
      Holds code line part ∧ Holds code (line + part.length) part' := by
  induction part generalizing line with
  | nil => simp [Holds]
  | cons i part ih =>
      rw [List.cons_append, Holds, Holds, ih, List.length_cons, and_assoc,
        show line + 1 + part.length = line + (part.length + 1) by omega]

theorem holds_self (code : List Instr) : Holds code 0 code := by
  have hgeneral (front part : List Instr) : Holds (front ++ part) front.length part := by
    induction part generalizing front with
    | nil => trivial
    | cons i part ih =>
        refine ⟨by simp, ?_⟩
        have hrest := ih (front ++ [i])
        rwa [List.append_assoc, List.singleton_append, List.length_append] at hrest
  exact hgeneral [] code

/-- The line with a label that is carried once. -/
theorem lineOf?_eq_some {n line : Nat} (hnodup : (Lower.marks code).Nodup)
    (h : code[line]? = some (.label n)) : lineOf? code n = some line := by
  induction code generalizing line with
  | nil => cases h
  | cons i code ih =>
      rw [Lower.marks_cons] at hnodup
      cases line with
      | zero =>
          obtain rfl : i = .label n := Option.some.inj h
          simp [lineOf?, List.findIdx?_cons, Instr.marked?]
      | succ line =>
          rw [List.getElem?_cons_succ] at h
          have hmem : n ∈ Lower.marks code :=
            List.mem_filterMap.mpr ⟨_, List.mem_of_getElem? h, rfl⟩
          have hne : i.marked? ≠ some n := by
            intro hi
            rw [hi] at hnodup
            exact (List.nodup_cons.mp hnodup).1 hmem
          have hrest := ih (List.nodup_append'.mp hnodup).2.1 h
          unfold lineOf? at hrest ⊢
          simp [List.findIdx?_cons, hne, hrest]

/-! ## Values -/

/-- A declared function and the line at which its body begins. -/
structure Installed (code : List Instr) (g : ScopeId) (c : Closure) (line : Nat) : Prop where
  scope : c.scope = g
  arity : c.arity = c.params.length
  flat : Stmt.areFlat false c.body = true
  valued : ∀ body ∈ c.body :: Stmt.listFxnBodies c.body, Stmt.areValued body = true
  placed : ∃ part k k', Lower.stmts true c.body k = .ok ((), part, k') ∧
    Holds code line (part ++ [.endFunc])

/-- **Corresponding values**: equal ones, and a declared function and where it is. -/
inductive Similar (code : List Instr) (g : ScopeId) : Value → Value → Prop where
  | refl {v : Value} (h : v.isCustom = false) : Similar code g v v
  | custom {c : Closure} {line : Nat} (h : Installed code g c line) :
      Similar code g (.fxn (.custom c)) (function c.name c.params line)

namespace Similar

variable {v w v' w' : Value}

theorem truthy_eq (h : Similar code g v w) : w.truthy = v.truthy := by
  cases h <;> rfl

theorem text_eq (h : Similar code g v w) : w.text = v.text := by
  cases h <;> rfl

/-- What is no function corresponds to itself only. -/
theorem eq_of_tag (h : Similar code g v w) (htag : v.tag ≠ .fxn) : w = v := by
  cases h with
  | refl _ => rfl
  | custom _ => exact absurd rfl htag

theorem unary {op : UnaryOp} {r : Value} (h : Similar code g v w) (hr : Value.unary op v = .ok r) :
    Value.unary op w = .ok r ∧ Similar code g r r := by
  cases op with
  | not =>
      obtain rfl : Value.bool (!v.truthy) = r := Except.ok.inj hr
      exact ⟨by rw [Value.unary, h.truthy_eq], .refl rfl⟩
  | negate =>
      cases v with
      | num x =>
          obtain rfl : Value.num (-x) = r := Except.ok.inj hr
          rw [h.eq_of_tag (by simp [Value.tag])]
          exact ⟨rfl, .refl rfl⟩
      | str _ | bool _ | fxn _ => cases hr
  | other _ => cases hr

/-- A repeated string is a string. -/
theorem isCustom_of_repeated {s : Packed} {x : Float} {r : Value}
    (hr : Value.repeated s x = .ok r) : r.isCustom = false := by
  unfold Value.repeated at hr
  split at hr
  · cases hr
  · split at hr
    · cases hr
      rfl
    · split at hr
      · cases hr
      · cases hr
        rfl

/-- A binary operator has a value on what are no functions only. -/
theorem tags_of_binary {op : BinaryOp} {r : Value} (hr : Value.binary op v v' = .ok r) :
    v.tag ≠ .fxn ∧ v'.tag ≠ .fxn ∧ r.isCustom = false := by
  cases op <;> cases v <;> cases v' <;>
    first
    | cases hr <;> done
    | exact ⟨by simp [Value.tag], by simp [Value.tag], isCustom_of_repeated hr⟩
    | cases hr
      exact ⟨by simp [Value.tag], by simp [Value.tag], rfl⟩

theorem binary {op : BinaryOp} {r : Value} (h : Similar code g v w) (h' : Similar code g v' w')
    (hr : Value.binary op v v' = .ok r) :
    Value.binary op w w' = .ok r ∧ Similar code g r r := by
  obtain ⟨hv, hv', hcustom⟩ := tags_of_binary hr
  rw [h.eq_of_tag hv, h'.eq_of_tag hv']
  exact ⟨hr, .refl hcustom⟩

end Similar

/-! ## Variables -/

/-- Corresponding variables of a scope, in the order of their declarations. -/
def Matches (code : List Instr) (g : ScopeId) : List (Text × Value) → Variables → Prop :=
  List.Forall₂ fun binding var =>
    var.1 = binding.1 ∧ ∃ w, var.2 = some w ∧ Similar code g binding.2 w

namespace Matches

variable {bindings : List (Text × Value)} {vars : Variables} {name : Text} {v w : Value}

theorem lookup (h : Matches code g bindings vars) (name : Text) :
    (bindings.lookup name = none ∧ vars.lookup name = none) ∨
      ∃ v w, bindings.lookup name = some v ∧ vars.lookup name = some (some w) ∧
        Similar code g v w := by
  induction h with
  | nil => exact .inl ⟨rfl, rfl⟩
  | @cons binding var _ _ hhead _ ih =>
      obtain ⟨hname, w, hw, hsimilar⟩ := hhead
      rw [List.lookup_cons, List.lookup_cons, hname]
      by_cases heq : name = binding.1
      · exact .inr ⟨binding.2, w, by simp [heq], by simp [heq, hw], hsimilar⟩
      · have hne : (name == binding.1) = false := by simpa using heq
        rw [hne]
        exact ih

theorem assign (h : Matches code g bindings vars) {old : Value}
    (hold : bindings.lookup name = some old) (hw : Similar code g v w) :
    ∃ vars', assign? name w vars = some (vars', w) ∧
      Matches code g (Scope.replaceIn name v bindings) vars' := by
  induction h with
  | nil => cases hold
  | @cons binding var bindings vars hhead htail ih =>
      obtain ⟨n, x⟩ := var
      obtain ⟨n', v'⟩ := binding
      obtain ⟨rfl, w', rfl, hsimilar⟩ := hhead
      rw [List.lookup_cons] at hold
      rw [assign?, Scope.replaceIn]
      by_cases heq : n = name
      · rw [if_pos heq, if_pos heq]
        exact ⟨_, rfl, .cons ⟨rfl, w, rfl, hw⟩ htail⟩
      · rw [if_neg heq, if_neg heq]
        have hne : (name == n) = false := by simpa using Ne.symm heq
        rw [hne] at hold
        obtain ⟨vars', hassign, hmatches⟩ := ih hold
        exact ⟨(n, some w') :: vars', by rw [hassign]; rfl,
          .cons ⟨rfl, w', rfl, hsimilar⟩ hmatches⟩

theorem assign_none (h : Matches code g bindings vars) (hnone : bindings.lookup name = none) :
    assign? name w vars = none := by
  induction h with
  | nil => rfl
  | @cons binding var bindings vars hhead htail ih =>
      obtain ⟨n, x⟩ := var
      obtain ⟨n', v'⟩ := binding
      obtain ⟨rfl, w', rfl, -⟩ := hhead
      rw [List.lookup_cons] at hnone
      by_cases heq : name = n
      · simp [heq] at hnone
      · have hne : (name == n) = false := by simpa using heq
        rw [hne] at hnone
        rw [assign?, if_neg (Ne.symm heq), ih hnone]
        rfl

end Matches

/-! ## Scopes -/

/-- Whether nothing is declared on the way from a scope out to the scope `b`. -/
inductive Reaches (m : Memory) (g b : ScopeId) : ScopeId → Prop where
  | base : Reaches m g b b
  | inner {id outer : ScopeId} {limit : Nat} (hb : id ≠ b) (hg : id ≠ g)
      (hid : m.scope? id = some { bindings := [], outer := some outer, limit := limit })
      (h : Reaches m g b outer) : Reaches m g b id

/-- What leaves alone every scope but two. -/
structure Spares (g b : ScopeId) (m m' : Memory) : Prop where
  size : m.scopes.size ≤ m'.scopes.size
  scope : ∀ id < m.scopes.size, id ≠ g → id ≠ b → m'.scope? id = m.scope? id

namespace Spares

variable {m m' m'' : Memory}

theorem refl (m : Memory) : Spares g b m m := ⟨Nat.le_refl _, fun _ _ _ _ => rfl⟩

theorem trans (h : Spares g b m m') (h' : Spares g b m' m'') : Spares g b m m'' where
  size := h.size.trans h'.size
  scope id hid hg hb :=
    (h'.scope id (hid.trans_le h.size) hg hb).trans (h.scope id hid hg hb)

/-- A change of one of the two scopes. -/
theorem update (m : Memory) {id : ScopeId} (hid : id = g ∨ id = b) (f : Scope → Scope) :
    Spares g b m (m.update id f) where
  size := by simp [Memory.update]
  scope id' _ hg hb := by
    rw [Memory.scope?_update, if_neg]
    rintro rfl
    exact hid.elim hg hb

theorem add (m : Memory) (scope : Scope) : Spares g b m (m.add scope).2 where
  size := by simp [Memory.add]
  scope id hid _ _ := by rw [Memory.scope?_add, if_neg (Nat.ne_of_lt hid)]

end Spares

theorem lt_size_of_scope? {m : Memory} {id : ScopeId} {scope : Scope}
    (h : m.scope? id = some scope) : id < m.scopes.size :=
  (Array.getElem?_eq_some_iff.mp h).1

theorem Reaches.spares {m m' : Memory} {id : ScopeId} (h : Reaches m g b id)
    (hspares : Spares g b m m') : Reaches m' g b id := by
  induction h with
  | base => exact .base
  | inner hb hg hid _ ih =>
      exact .inner hb hg ((hspares.scope _ (lt_size_of_scope? hid) hg hb).trans hid) ih

/-- A search inside comes to a search from the scope `b`. -/
theorem Reaches.search {m : Memory} {id : ScopeId} (h : Reaches m g b id) {limit visits : Nat}
    {name : Text} {r : ScopeId × Value} (hr : m.search limit name visits (some id) = .ok r) :
    ∃ visits', m.search limit name visits' (some b) = .ok r := by
  induction h generalizing visits with
  | base => exact ⟨visits, hr⟩
  | inner _ _ hid _ ih =>
      cases visits with
      | zero => cases hr
      | succ visits =>
          rw [Memory.search, hid] at hr
          exact ih hr

/-! ## States -/

/-- **Corresponding states**: the session runs a call whose scope is `b`, or the program outside
every call if `b` is the global scope `g`. -/
structure Related (code : List Instr) (g b : ScopeId) (s : Session) (σ : State) : Prop where
  globals : s.globals = g
  echoes : s.options.echoReturns = true
  output : σ.output = s.output
  root : ∃ scope, s.memory.scope? g = some scope ∧ scope.outer = none ∧
    Matches code g scope.bindings σ.globals
  own : (b = g ∧ σ.frame.locals = none) ∨
    (b ≠ g ∧ ∃ scope vars, s.memory.scope? b = some scope ∧ scope.outer = some g ∧
      σ.frame.locals = some vars ∧ Matches code g scope.bindings vars)

namespace Related

variable {s s' : Session} {σ σ' : State} {id : ScopeId} {name : Text} {v w : Value}

/-- What corresponds to a machine corresponds to another one with the same variables and output. -/
theorem congr (h : Related code g b s σ) (hglobals : σ'.globals = σ.globals)
    (hlocals : σ'.frame.locals = σ.frame.locals) (houtput : σ'.output = σ.output) :
    Related code g b s σ' where
  globals := h.globals
  echoes := h.echoes
  output := houtput.trans h.output
  root := hglobals ▸ h.root
  own := hlocals ▸ h.own

theorem exists_base (h : Related code g b s σ) : ∃ scope, s.memory.scope? b = some scope := by
  rcases h.own with ⟨rfl, -⟩ | ⟨-, scope, _, hscope, -⟩
  · exact h.root.imp fun _ => And.left
  · exact ⟨scope, hscope⟩

/-- Where a name is found: in the scope of the call, or else in the global one. -/
theorem resolve (h : Related code g b s σ) (hreach : Reaches s.memory g b id) {holder : ScopeId}
    (hr : s.memory.resolve id name = .ok (holder, v)) :
    (holder = b ∧ s.memory.bound b name = some v) ∨
      (b ≠ g ∧ s.memory.bound b name = none ∧ holder = g ∧ s.memory.bound g name = some v) := by
  obtain ⟨visits, hsearch⟩ := hreach.search hr
  obtain ⟨root, hroot, hrootOuter, -⟩ := h.root
  obtain ⟨base, hbase⟩ := h.exists_base
  cases visits with
  | zero => cases hsearch
  | succ visits =>
      rw [Memory.search, hbase] at hsearch
      simp only at hsearch
      unfold Memory.bound
      rw [hbase, Option.bind_some]
      cases hlookup : base.lookup name with
      | some old =>
          rw [hlookup] at hsearch
          cases hsearch
          exact .inl ⟨rfl, rfl⟩
      | none =>
          rw [hlookup] at hsearch
          rcases h.own with ⟨rfl, -⟩ | ⟨hne, scope, _, hscope, houter, -⟩
          · obtain rfl : base = root := Option.some.inj (hbase.symm.trans hroot)
            rw [hrootOuter] at hsearch
            simp at hsearch
          · obtain rfl : base = scope := Option.some.inj (hbase.symm.trans hscope)
            rw [houter] at hsearch
            refine .inr ⟨hne, rfl, ?_⟩
            cases visits with
            | zero => cases hsearch
            | succ visits =>
                rw [Memory.search, hroot] at hsearch
                simp only at hsearch
                rw [hroot, Option.bind_some]
                cases hglobal : root.lookup name with
                | none =>
                    rw [hglobal, hrootOuter] at hsearch
                    simp at hsearch
                | some old =>
                    rw [hglobal] at hsearch
                    cases hsearch
                    exact ⟨rfl, rfl⟩

/-- The variables of the machine from the session's bindings. -/
theorem lookup_eq (h : Related code g b s σ) (hbound : s.memory.bound b name = some v ∨
      (b ≠ g ∧ s.memory.bound b name = none ∧ s.memory.bound g name = some v)) :
    ∃ w, σ.lookup name = some w ∧ Similar code g v w := by
  obtain ⟨root, hroot, -, hglobals⟩ := h.root
  unfold Memory.bound at hbound
  rw [hroot, Option.bind_some] at hbound
  unfold State.lookup
  rcases h.own with ⟨rfl, hlocals⟩ | ⟨hne, scope, vars, hscope, -, hlocals, hmatches⟩
  · rw [hroot, Option.bind_some] at hbound
    have hv : root.bindings.lookup name = some v := by
      rcases hbound with hv | ⟨hne, -⟩
      · exact hv
      · exact absurd rfl hne
    rcases hglobals.lookup name with ⟨hnone, -⟩ | ⟨v', w, hv', hw, hsimilar⟩
    · rw [hnone] at hv
      cases hv
    · rw [hv'] at hv
      cases hv
      exact ⟨w, by rw [hlocals, hw]; rfl, hsimilar⟩
  · rw [hscope, Option.bind_some] at hbound
    rcases hmatches.lookup name with ⟨hnone, hnone'⟩ | ⟨v', w, hv', hw, hsimilar⟩
    · rcases hbound with hv | ⟨-, -, hv⟩
      · rw [Scope.lookup, hnone] at hv
        cases hv
      · rcases hglobals.lookup name with ⟨hglobal, -⟩ | ⟨v', w, hv', hw, hsimilar⟩
        · rw [Scope.lookup, hglobal] at hv
          cases hv
        · rw [Scope.lookup, hv'] at hv
          cases hv
          exact ⟨w, by rw [hlocals, Option.bind_some, hnone', hw]; rfl, hsimilar⟩
    · rcases hbound with hv | ⟨-, hnone, -⟩
      · rw [Scope.lookup, hv'] at hv
        cases hv
        exact ⟨w, by rw [hlocals, Option.bind_some, hw], hsimilar⟩
      · rw [Scope.lookup, hv'] at hnone
        cases hnone

/-- **Names have corresponding values.** -/
theorem lookup (h : Related code g b s σ) (hreach : Reaches s.memory g b id)
    (hget : s.memory.get id name = .ok v) : ∃ w, σ.lookup name = some w ∧ Similar code g v w := by
  unfold Memory.get at hget
  cases hr : s.memory.resolve id name with
  | error p =>
      rw [hr] at hget
      cases hget
  | ok r =>
      rw [hr] at hget
      cases hget
      refine h.lookup_eq ?_
      rcases h.resolve hreach hr with ⟨-, hbound⟩ | ⟨hne, hnone, -, hbound⟩
      · exact .inl hbound
      · exact .inr ⟨hne, hnone, hbound⟩

/-- A change of the global variables. -/
theorem change_root (h : Related code g b s σ) (hne : b ≠ g) (f : Scope → Scope)
    {vars : Variables} (houter : ∀ scope : Scope, (f scope).outer = scope.outer)
    (hvars : ∀ scope, s.memory.scope? g = some scope → Matches code g (f scope).bindings vars)
    (last : Value) :
    Related code g b (s.updateMemory fun m => m.update g f)
      { σ with globals := vars, frame := { σ.frame with last := last } } where
  globals := h.globals
  echoes := h.echoes
  output := h.output
  root := by
    obtain ⟨root, hroot, hrootOuter, -⟩ := h.root
    refine ⟨f root, ?_, (houter root).trans hrootOuter, hvars root hroot⟩
    show (s.memory.update g f).scope? g = _
    rw [Memory.scope?_update, if_pos rfl, hroot]
    rfl
  own := by
    rcases h.own with ⟨heq, -⟩ | ⟨_, scope, locals, hscope, hrest⟩
    · exact absurd heq hne
    · refine .inr ⟨hne, scope, locals, ?_, hrest⟩
      show (s.memory.update g f).scope? b = _
      rw [Memory.scope?_update, if_neg (Ne.symm hne), hscope]

/-- A change of the variables of the call, or of the global ones outside every call. -/
theorem change_own (h : Related code g b s σ) (f : Scope → Scope)
    (houter : ∀ scope : Scope, (f scope).outer = scope.outer) (change : Variables → Variables)
    (hchange : ∀ scope vars, s.memory.scope? b = some scope →
      Matches code g scope.bindings vars → Matches code g (f scope).bindings (change vars))
    (last : Value) :
    Related code g b (s.updateMemory fun m => m.update b f)
      { σ with
        globals := if σ.frame.locals.isSome then σ.globals else change σ.globals
        frame := { σ.frame with locals := σ.frame.locals.map change, last := last } } where
  globals := h.globals
  echoes := h.echoes
  output := h.output
  root := by
    obtain ⟨root, hroot, hrootOuter, hglobals⟩ := h.root
    rcases h.own with ⟨rfl, hlocals⟩ | ⟨hne, scope, vars, hscope, hscopeOuter, hlocals, hmatches⟩
    · refine ⟨f root, ?_, (houter root).trans hrootOuter, ?_⟩
      · show (s.memory.update b f).scope? b = _
        rw [Memory.scope?_update, if_pos rfl, hroot]
        rfl
      · simpa [hlocals] using hchange root _ hroot hglobals
    · refine ⟨root, ?_, hrootOuter, by simpa [hlocals] using hglobals⟩
      show (s.memory.update b f).scope? g = _
      rw [Memory.scope?_update, if_neg hne, hroot]
  own := by
    rcases h.own with ⟨heq, hlocals⟩ | ⟨hne, scope, vars, hscope, hscopeOuter, hlocals, hmatches⟩
    · exact .inl ⟨heq, by simp [hlocals]⟩
    · refine .inr ⟨hne, f scope, change vars, ?_, (houter scope).trans hscopeOuter,
        by simp [hlocals], hchange scope vars hscope hmatches⟩
      show (s.memory.update b f).scope? b = _
      rw [Memory.scope?_update, if_pos rfl, hscope]
      rfl

/-- **Assignments** keep the correspondence. -/
theorem assign (h : Related code g b s σ) (hreach : Reaches s.memory g b id) {holder : ScopeId}
    (hset : s.memory.checkSet id name v = .ok holder) (hw : Similar code g v w) :
    Spares g b s.memory (s.memory.rebind holder name v) ∧
      ∃ globals locals,
        σ.assign name w =
          some { σ with
            globals := globals, frame := { σ.frame with locals := locals, last := w } } ∧
        Related code g b (s.updateMemory fun m => m.rebind holder name v)
          { σ with globals := globals, frame := { σ.frame with locals := locals, last := w } } := by
  obtain ⟨old, hresolve⟩ : ∃ old, s.memory.resolve id name = .ok (holder, old) := by
    unfold Memory.checkSet at hset
    split at hset
    · cases hset
    · next r hr =>
      split at hset
      · cases hset
        exact ⟨_, hr⟩
      · cases hset
  obtain ⟨root, hroot, -, hglobals⟩ := h.root
  have hfound := h.resolve hreach hresolve
  unfold Memory.bound at hfound
  rcases hfound with ⟨rfl, hbound⟩ | ⟨hne, hnone, rfl, hbound⟩
  · -- the variable is one of the call, or a global one outside every call
    refine ⟨.update _ (.inr rfl) _, ?_⟩
    let change (vars : Variables) : Variables := ((assign? name w vars).map Prod.fst).getD vars
    have hchanged := h.change_own (·.rebind name v) (fun _ => rfl) change
      (fun scope vars hscope hmatches => by
        rw [hscope] at hbound
        obtain ⟨vars', hassign, hmatches'⟩ := hmatches.assign hbound hw
        simpa [change, hassign, Scope.rebind] using hmatches') w
    rcases h.own with ⟨rfl, hlocals⟩ | ⟨hne, scope, vars, hscope, -, hlocals, hmatches⟩
    · rw [hroot] at hbound
      obtain ⟨vars', hassign, -⟩ := hglobals.assign hbound hw
      refine ⟨_, _, ?_, hchanged⟩
      simp [State.assign, hlocals, hassign, change]
    · rw [hscope] at hbound
      obtain ⟨vars', hassign, -⟩ := hmatches.assign hbound hw
      refine ⟨_, _, ?_, hchanged⟩
      simp [State.assign, hlocals, hassign, change]
  · -- the variable is a global one, and the call has none of its name
    refine ⟨.update _ (.inl rfl) _, ?_⟩
    rw [hroot] at hbound
    obtain ⟨vars', hassign, hmatches'⟩ := hglobals.assign hbound hw
    rcases h.own with ⟨heq, -⟩ | ⟨_, scope, vars, hscope, -, hlocals, hmatches⟩
    · exact absurd heq hne
    · rw [hscope] at hnone
      refine ⟨vars', σ.frame.locals, ?_, h.change_root hne (·.rebind name v) (fun _ => rfl) ?_ w⟩
      · simp [State.assign, hlocals, hmatches.assign_none hnone, hassign]
      · intro root' hroot'
        obtain rfl : root = root' := Option.some.inj (hroot.symm.trans hroot')
        exact hmatches'

/-- **Declarations** keep the correspondence. -/
theorem declare (h : Related code g b s σ) (name : Text) (hw : Similar code g v w) :
    Spares g b s.memory (s.memory.bind b name v) ∧
      ∃ globals locals,
        (σ.declare name).assign name w = some
          { σ with
            globals := globals, frame := { σ.frame with locals := locals, last := .empty } } ∧
        Related code g b (s.updateMemory fun m => m.bind b name v)
          { σ with
            globals := globals, frame := { σ.frame with locals := locals, last := .empty } } := by
  refine ⟨.update _ (.inr rfl) _, ?_⟩
  have hchanged := h.change_own (·.bind name v) (fun _ => rfl)
    (fun vars => (name, some w) :: vars)
    (fun scope vars _ hmatches => .cons ⟨rfl, w, rfl, hw⟩ hmatches) .empty
  refine ⟨_, _, ?_, hchanged⟩
  cases hlocals : σ.frame.locals with
  | none => simp [State.declare, State.assign, hlocals, assign?]
  | some vars => simp [State.declare, State.assign, hlocals, assign?]

end Related

end Machine

end Badger
