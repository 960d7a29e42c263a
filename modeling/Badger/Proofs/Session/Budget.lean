import Badger.Proofs.Session.Moment

/-!
# The step budget

The step budget only bounds how long a part of a program may run: a run that ends within a budget
ends in the same way within every larger one.

## Main definitions

* `Run.Extends`: a part of a program that does what another does, unless that one exhausts its
  budget

## Main statements

* `EvalExtends`, `evalExtends`: a larger budget changes nothing
* `block_append`, `exists_block_append_iff`: statements one after the other
* `Session.eval_of_le`: a larger budget changes nothing for the evaluation of a text
-/

namespace Badger

namespace Run

variable {α β : Type}

/-- **Extension.** Unless `x` exhausts its budget, `y` does the same. -/
def Extends (x y : Run α) : Prop := ∀ s, (x s).1 ≠ .outOfFuel → y s = x s

namespace Extends

theorem refl (x : Run α) : Extends x x := fun _ _ => rfl

theorem exhausted (y : Run α) : Extends Run.exhausted y := fun _ h => absurd rfl h

theorem bind {x y : Run α} {f g : α → Run β} (hx : Extends x y) (hf : ∀ a, Extends (f a) (g a)) :
    Extends (x >>= f) (y >>= g) := by
  intro s hfuel
  rw [bind_apply] at hfuel
  rw [bind_apply, bind_apply]
  have hfirst := hx s
  rcases hresult : x s with ⟨a | v | d | _, s'⟩
  all_goals rw [hresult] at hfirst hfuel
  · rw [hfirst (by simp)]
    exact hf a s' hfuel
  · rw [hfirst (by simp)]
    rfl
  · rw [hfirst (by simp)]
    rfl
  · exact absurd rfl hfuel

theorem ite {p : Prop} [Decidable p] {x y x' y' : Run α} (hx : Extends x x')
    (hy : Extends y y') : Extends (if p then x else y) (if p then x' else y') := by
  split
  · exact hx
  · exact hy

theorem catchReturn {x y : Run Value} (h : Extends x y) :
    Extends (Run.catchReturn x) (Run.catchReturn y) := by
  intro s hfuel
  have hbody := h s
  unfold Run.catchReturn at hfuel ⊢
  rcases hresult : x s with ⟨a | v | d | _, s'⟩
  all_goals rw [hresult] at hbody hfuel
  · rw [hbody (by simp)]
  · rw [hbody (by simp)]
  · rw [hbody (by simp)]
  · exact absurd rfl hfuel

theorem within (c : Closure) {x y : Run Value} (h : Extends x y) :
    Extends (Run.within c x) (Run.within c y) := by
  intro s hfuel
  unfold Run.within at hfuel ⊢
  simp only [h _ hfuel]

end Extends

end Run

namespace Eval

open Run (Extends)

/-- **A larger budget changes nothing**: whatever ends within the budget `n` ends in the same way
within the budget `m`. -/
structure EvalExtends (n m : Nat) : Prop where
  expr (e : Expr) (scope : ScopeId) : Extends (expr n e scope) (expr m e scope)
  args (es : List Expr) (scope : ScopeId) : Extends (args n es scope) (args m es scope)
  apply (f : Callable) (vs : List Value) (pos : Int) :
    Extends (apply n f vs pos) (apply m f vs pos)
  stmt (st : Stmt) (scope : ScopeId) : Extends (stmt n st scope) (stmt m st scope)
  block (ss : List Stmt) (scope : ScopeId) (last : Value) :
    Extends (block n ss scope last) (block m ss scope last)
  loop (cond : Expr) (body : Stmt) (scope : ScopeId) (last : Value) :
    Extends (loop n cond body scope last) (loop m cond body scope last)

section

variable {n m : Nat} (ih : EvalExtends n m)

include ih

private theorem expr_extends (e : Expr) (scope : ScopeId) :
    Extends (expr (n + 1) e scope) (expr (m + 1) e scope) := by
  cases e with
  | missing | num _ _ | str _ _ | bool _ _ | ident _ _ | symbol _ _ => exact .refl _
  | group _ inner => exact ih.expr inner scope
  | assign pos name value => exact .bind (ih.expr value scope) fun v => .refl _
  | unary pos op operand => exact .bind (ih.expr operand scope) fun v => .refl _
  | binary pos op left right =>
      refine .bind (ih.expr left scope) fun l => ?_
      exact .bind (ih.expr right scope) fun r => .refl _
  | call pos callee arguments =>
      refine .bind (ih.expr callee scope) fun f => ?_
      refine .bind (ih.args arguments scope) fun vs => ?_
      cases f with
      | fxn f =>
          cases hn : f.arity? with
          | some k =>
              simp only [hn]
              exact .ite (ih.apply f vs pos) (.refl _)
          | none =>
              simp only [hn]
              exact ih.apply f vs pos
      | num _ | str _ | bool _ => exact .refl _

private theorem args_extends (es : List Expr) (scope : ScopeId) :
    Extends (args (n + 1) es scope) (args (m + 1) es scope) := by
  cases es with
  | nil => exact .refl _
  | cons e es =>
      refine .bind (ih.expr e scope) fun v => ?_
      exact .bind (ih.args es scope) fun vs => .refl _

private theorem apply_extends (f : Callable) (vs : List Value) (pos : Int) :
    Extends (apply (n + 1) f vs pos) (apply (m + 1) f vs pos) := by
  cases f with
  | unassigned | native _ => exact .refl _
  | custom c =>
      refine .bind (.refl _) fun _ => ?_
      refine .bind (.refl _) fun scope => ?_
      refine .bind (.refl _) fun _ => ?_
      exact .within c (.catchReturn (ih.block c.body scope _))

private theorem stmt_extends (st : Stmt) (scope : ScopeId) :
    Extends (stmt (n + 1) st scope) (stmt (m + 1) st scope) := by
  cases st with
  | missing | fxn _ _ _ _ => exact .refl _
  | expr _ e => exact ih.expr e scope
  | ret _ value => exact .bind (ih.expr value scope) fun v => .refl _
  | block _ body => exact .bind (.refl _) fun inner => ih.block body inner _
  | declare pos type name init => exact .bind (ih.expr init scope) fun v => .refl _
  | ifThen _ cond yes =>
      exact .bind (ih.expr cond scope) fun c => .ite (ih.stmt yes scope) (.refl _)
  | ifElse _ cond yes no =>
      exact .bind (ih.expr cond scope) fun c => .ite (ih.stmt yes scope) (ih.stmt no scope)
  | loop _ cond body => exact ih.loop cond body scope _

private theorem block_extends (ss : List Stmt) (scope : ScopeId) (last : Value) :
    Extends (block (n + 1) ss scope last) (block (m + 1) ss scope last) := by
  cases ss with
  | nil => exact .refl _
  | cons st rest =>
      rw [block_cons, block_cons]
      refine .ite (ih.block rest scope last) ?_
      exact .bind (ih.stmt st scope) fun v => ih.block rest scope v

private theorem loop_extends (cond : Expr) (body : Stmt) (scope : ScopeId) (last : Value) :
    Extends (loop (n + 1) cond body scope last) (loop (m + 1) cond body scope last) := by
  rw [loop, loop]
  refine .bind (ih.expr cond scope) fun c => .ite ?_ (.refl _)
  exact .bind (ih.stmt body scope) fun v => ih.loop cond body scope v

end

theorem evalExtends {n m : Nat} (hle : n ≤ m) : EvalExtends n m := by
  induction n generalizing m with
  | zero =>
      exact ⟨fun _ _ => .exhausted _, fun _ _ => .exhausted _, fun _ _ _ => .exhausted _,
        fun _ _ => .exhausted _, fun _ _ _ => .exhausted _, fun _ _ _ _ => .exhausted _⟩
  | succ n ih =>
      obtain ⟨m, rfl⟩ : ∃ m', m = m' + 1 := ⟨m - 1, by omega⟩
      have ih := ih (Nat.le_of_succ_le_succ hle)
      exact ⟨expr_extends ih, args_extends ih, apply_extends ih, stmt_extends ih,
        block_extends ih, loop_extends ih⟩

/-! ## Statements one after the other -/

/-- The value so far is forgotten if there are more statements. -/
theorem block_last {ss : List Stmt} (hne : ss ≠ []) (hwhole : ∀ st ∈ ss, st.isMissing = false)
    (fuel : Nat) (scope : ScopeId) (last last' : Value) :
    block fuel ss scope last = block fuel ss scope last' := by
  cases fuel with
  | zero => rfl
  | succ fuel =>
      cases ss with
      | nil => exact absurd rfl hne
      | cons st rest =>
          have hst := hwhole st List.mem_cons_self
          rw [block_cons_present hst, block_cons_present hst]

/-- **Statements one after the other.** Where the first ones end with a value, the others go on
from there, with what is left of the budget. -/
theorem block_append {n m : Nat} (hle : n ≤ m) {ss : List Stmt} {scope : ScopeId} {last v : Value}
    {s s' : Session} (h : block n ss scope last s = (.value v, s')) (more : List Stmt) :
    block m (ss ++ more) scope last s = block (m - ss.length) more scope v s' := by
  induction n generalizing m ss last s with
  | zero => cases h
  | succ n ih =>
      obtain ⟨m, rfl⟩ : ∃ m', m = m' + 1 := ⟨m - 1, by omega⟩
      have hle := Nat.le_of_succ_le_succ hle
      cases ss with
      | nil =>
          cases h
          rfl
      | cons st rest =>
          rw [List.cons_append, List.length_cons, Nat.add_sub_add_right]
          cases hmissing : st.isMissing with
          | true =>
              rw [block_cons_missing hmissing] at h ⊢
              exact ih hle h
          | false =>
              rw [block_cons_present hmissing] at h ⊢
              obtain ⟨w, s'', hfirst, hrest⟩ := Run.bind_eq_value h
              have hfirst' := (evalExtends hle).stmt st scope s (by rw [hfirst]; simp)
              rw [hfirst] at hfirst'
              rw [Run.bind_value hfirst']
              exact ih hle hrest

/-- How statements end that follow others, where the others end with a value. -/
theorem exists_block_append_iff {n : Nat} {ss : List Stmt} {scope : ScopeId} {last v : Value}
    {s s' : Session} (h : block n ss scope last s = (.value v, s')) (more : List Stmt)
    {r : Outcome Value × Session} (hr : r.1 ≠ .outOfFuel) :
    (∃ m, block m (ss ++ more) scope last s = r) ↔ ∃ m, block m more scope v s' = r := by
  constructor
  · rintro ⟨m, rfl⟩
    have hlarger := (evalExtends (Nat.le_max_left m n)).block (ss ++ more) scope last s hr
    rw [block_append (Nat.le_max_right m n) h] at hlarger
    exact ⟨_, hlarger⟩
  · rintro ⟨m, rfl⟩
    have hle : n ≤ n + m + ss.length := by omega
    have hlarger := (evalExtends (Nat.le_add_left m n)).block more scope v s' hr
    refine ⟨n + m + ss.length, ?_⟩
    rw [block_append hle h, Nat.add_sub_cancel, hlarger]

end Eval

/-! ## Texts -/

/-- Whether an evaluation ends within its budget can be decided. -/
instance (r : Answer) : Decidable (r = .outOfFuel) :=
  match r with
  | .outOfFuel => isTrue rfl
  | .value _ | .failure _ => isFalse nofun

/-- **An evaluation that ends** ends in the same way within a larger budget. -/
theorem Session.eval_of_le {n m : Nat} (hle : n ≤ m) {s : Session} {file text : Text}
    (h : (s.eval n file text).1 ≠ .outOfFuel) : s.eval m file text = s.eval n file text := by
  unfold eval at h ⊢
  cases hread : readChunk s.options.strict text with
  | error f => rfl
  | ok read =>
      simp only [hread] at h ⊢
      unfold runProgram at h ⊢
      rw [(Eval.evalExtends hle).block _ _ _ _ fun hfuel => h (congrArg answer hfuel)]

end Badger
