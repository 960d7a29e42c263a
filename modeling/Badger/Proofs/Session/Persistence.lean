import Badger.Proofs.Scope.Binding
import Badger.Proofs.Session.Move

/-!
# Bindings last

A binding is made once and stays for good: no move of a session removes it, gives it a value of
another type, or replaces a function.

## Main statements

* `Session.Move.keeps`, `Session.Later.keeps`: moves keep bindings
* `Session.Later.provided`: the provided functions stay what they are
* `Session.bindings_persist`: bindings are declared once and keep their type, in every session
-/

namespace Badger

open Session

namespace Session

/-! ## Moves keep bindings -/

theorem Move.keeps {own : Set ScopeId} {s s' : Session} (h : Move own s s') :
    s.memory.Keeps s'.memory := by
  cases h with
  | opened outer => exact s.memory.keeps_enclose outer
  | declared v _ h => exact Memory.keeps_bind h v
  | assigned h => exact Memory.keeps_rebind h
  | reset => exact s.memory.keeps_add _
  | wrote | entered | left | activated => exact .refl _

theorem Later.keeps {own : Set ScopeId} {s s' : Session} (h : Later own s s') :
    s.memory.Keeps s'.memory := by
  induction h with
  | refl => exact .refl _
  | tail _ hmove ih => exact ih.trans hmove.keeps

/-- A function that a scope binds to a name is bound for good. -/
theorem Later.bound_fxn {own : Set ScopeId} {s s' : Session} (h : Later own s s') {id : ScopeId}
    {name : Text} {f : Callable} (hf : s.memory.bound id name = some (.fxn f)) :
    s'.memory.bound id name = some (.fxn f) := by
  obtain ⟨v', hv', -, hsame⟩ := h.keeps id name _ hf
  rw [hv', hsame rfl]

/-! ## Provided functions -/

/-- The provided functions are bound in the global scope. -/
def Provided (s : Session) : Prop :=
  ∀ n ∈ [Native.print, Native.println],
    s.memory.bound s.globals n.name = some (.fxn (.native n))

theorem provided_reset (s : Session) : Provided s.reset := by
  intro n hn
  show (s.memory.add { bindings := provided, limit := s.options.scopeDepth }).2.bound
    s.memory.scopes.size n.name = _
  rw [Memory.bound_add, if_pos rfl]
  simp only [List.mem_cons, List.not_mem_nil, or_false] at hn
  rcases hn with rfl | rfl <;> rfl

/-- Every move but a reset leaves the global scope where it is. -/
theorem Move.globals_eq_or_reset {own : Set ScopeId} {s s' : Session} (h : Move own s s') :
    s'.globals = s.globals ∨ s' = s.reset := by
  cases h with
  | reset => exact .inr rfl
  | _ => exact .inl rfl

theorem Move.provided {own : Set ScopeId} {s s' : Session} (h : Move own s s')
    (hs : Provided s) : Provided s' := by
  rcases h.globals_eq_or_reset with hglobals | rfl
  · intro n hn
    rw [hglobals]
    exact (Later.of_move h).bound_fxn (hs n hn)
  · exact provided_reset s

theorem Later.provided {own : Set ScopeId} {s s' : Session} (h : Later own s s')
    (hs : Provided s) : Provided s' := by
  induction h with
  | refl => exact hs
  | tail _ hmove ih => exact hmove.provided ih

end Session

/-! ## Declarations -/

/-- A declaration that succeeds binds its name. -/
theorem bound_of_declareName {scope : ScopeId} {name : Text} {v : Value} {pos : Int}
    {s s' : Session} {u : Unit} (hscope : scope < s.memory.scopes.size)
    (h : Run.declareName scope name v pos s = (.value u, s')) :
    s'.memory.bound scope name = some v := by
  unfold Run.declareName at h
  split at h
  · cases h
    show (s.memory.bind scope name v).bound scope name = some v
    rw [Memory.bound_bind, if_pos ⟨rfl, rfl, hscope⟩]
  · cases h

/-- A variable declaration that succeeds binds the name to a value that its type admits. -/
theorem bound_of_declare {fuel : Nat} {pos : Int} {type : DeclaredType} {name : Text}
    {init : Expr} {scope : ScopeId} {s s' : Session} {v : Value}
    (hscope : scope < s.memory.scopes.size)
    (h : Eval.stmt fuel (.declare pos type name init) scope s = (.value v, s')) :
    ∃ w, s'.memory.bound scope name = some w ∧ type.admits w.tag = true := by
  cases fuel with
  | zero => cases h
  | succ fuel =>
      obtain ⟨w, s₁, hinit, h⟩ := Run.bind_eq_value h
      have hlater := ((Eval.evalConfined fuel).expr init scope s).later
      rw [hinit] at hlater
      split at h
      · next hadmits =>
        obtain ⟨_, s₂, hdeclare, h⟩ := Run.bind_eq_value h
        cases h
        exact ⟨w, bound_of_declareName (hscope.trans_le hlater.size_le) hdeclare, hadmits⟩
      · cases h

/-- A function declaration that succeeds binds the name to the function. -/
theorem bound_of_fxn {fuel : Nat} {pos : Int} {name : Text} {params : List Text}
    {body : List Stmt} {scope : ScopeId} {s s' : Session} {v : Value}
    (hscope : scope < s.memory.scopes.size)
    (h : Eval.stmt fuel (.fxn pos name params body) scope s = (.value v, s')) :
    s'.memory.bound scope name =
      some (.fxn (.custom (.declared name params body scope s.chunk))) := by
  cases fuel with
  | zero => cases h
  | succ fuel =>
      obtain ⟨chunk, s₁, hchunk, h⟩ := Run.bind_eq_value h
      cases hchunk
      obtain ⟨_, s₂, hdeclare, h⟩ := Run.bind_eq_value h
      cases h
      exact bound_of_declareName hscope hdeclare

/-! ## Sessions -/

/-- **Bindings are declared once and keep their type for ever.** Whatever is done with a session
is a sequence of moves, and so is the run of every statement and expression in it, however it
ends. From any session on the way to any later one: what a scope binds it still
binds, to a value of the same type, and to the very same function; a variable that was declared
with a type holds a value of that type; a declared function is what its name denotes in its scope;
and `print` and `println` are the provided functions in the global scope. -/
theorem Session.bindings_persist (options : Options) :
    (∀ steps steps' : List Step,
      Later Set.univ ((new options).after steps) ((new options).after (steps ++ steps'))) ∧
    (∀ (fuel : Nat) (st : Stmt) (scope : ScopeId) (s : Session),
      Later Set.univ s (Eval.stmt fuel st scope s).2) ∧
    (∀ (fuel : Nat) (e : Expr) (scope : ScopeId) (s : Session),
      Later Set.univ s (Eval.expr fuel e scope s).2) ∧
    ∀ s s' : Session, Later Set.univ (new options) s → Later Set.univ s s' →
      (∀ (id : ScopeId) (name : Text) (v : Value), s.memory.bound id name = some v →
        ∃ v', s'.memory.bound id name = some v' ∧ v'.tag = v.tag ∧ (v.tag = .fxn → v' = v)) ∧
      (∀ (fuel : Nat) (pos : Int) (type : DeclaredType) (name : Text) (init : Expr)
        (scope : ScopeId) (before : Session) (v : Value), scope < before.memory.scopes.size →
        Eval.stmt fuel (.declare pos type name init) scope before = (.value v, s) →
        ∃ w, s'.memory.bound scope name = some w ∧ type.admits w.tag = true) ∧
      (∀ (fuel : Nat) (pos : Int) (name : Text) (params : List Text) (body : List Stmt)
        (scope : ScopeId) (before : Session) (v : Value), scope < before.memory.scopes.size →
        Eval.stmt fuel (.fxn pos name params body) scope before = (.value v, s) →
        s'.memory.bound scope name =
          some (.fxn (.custom (.declared name params body scope before.chunk)))) ∧
      ∀ n ∈ [Native.print, Native.println],
        s'.memory.bound s'.globals n.name = some (.fxn (.native n)) := by
  refine ⟨fun steps steps' => ?_, fun fuel st scope s => ?_, fun fuel e scope s => ?_,
    fun s s' hs hlater => ⟨hlater.keeps, ?_, ?_, ?_⟩⟩
  · rw [after_append]
    exact later_after _ steps'
  · exact ((Eval.evalConfined fuel).stmt st scope s).later.univ
  · exact ((Eval.evalConfined fuel).expr e scope s).later.univ
  · intro fuel pos type name init scope before v hscope h
    obtain ⟨w, hw, hadmits⟩ := bound_of_declare hscope h
    obtain ⟨w', hw', htag, -⟩ := hlater.keeps scope name w hw
    exact ⟨w', hw', by rw [htag, hadmits]⟩
  · intro fuel pos name params body scope before v hscope h
    exact hlater.bound_fxn (bound_of_fxn hscope h)
  · exact (hs.trans hlater).provided (provided_reset _)

/-- A number declared in the global scope, then assigned to from inside a function, refused a
string, and left behind by a reset. -/
theorem Session.bindings_persist_num :
    let declared := (Eval.stmt 2 (.declare 4 .num (utf8 "x") (.num 8 1)) 0 (new {})).2
    let later := declared.after
      [.eval 40 (utf8 "b") (utf8 "fxn f() \x7b x = 2; \x7d f(); x = f;"), .reset]
    (∃ w, later.memory.bound 0 (utf8 "x") = some w ∧ DeclaredType.num.admits w.tag = true) ∧
      later.globals = 2 ∧
      later.memory.bound 2 (utf8 "print") = some (.fxn (.native .print)) := by
  intro declared later
  obtain ⟨-, hstmt, -, hlasts⟩ := bindings_persist {}
  obtain ⟨-, hdeclare, -, hprovided⟩ := hlasts declared later (hstmt 2 _ 0 _) (later_after _ _)
  have hglobals : later.globals = 2 := by rfl
  refine ⟨hdeclare 2 4 .num (utf8 "x") (.num 8 1) 0 (new {}) .empty (by decide) rfl, hglobals, ?_⟩
  rw [← hglobals]
  exact hprovided .print (by simp)

end Badger
