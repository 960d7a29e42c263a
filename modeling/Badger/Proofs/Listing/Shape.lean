import Mathlib.Data.List.Nodup
import Mathlib.Order.Nat
import Badger.Proofs.Listing.Machine

/-!
# The shape of listings

What the instructions for a tree look like: one statement for each kind of tree, and what follows
for all of them about temporaries, labels and the ends of functions.

## Main statements

* `Lower.expr_assign`, ..., `Lower.stmt_fxn`: the instructions for a tree in terms of those for its
  parts
* `Lower.expr_computes`: the instructions for an expression only compute, and take the temporaries
  from the next one on
* `Lower.stmt_labelled`: labels are taken in order, so that no label is marked twice; and inside a
  function no function begins or ends
-/

namespace Badger

namespace Emit

variable {α β : Type}

/-- **One part after another**: the instructions of both, in order. -/
theorem bind_eq_ok {x : Emit α} {f : α → Emit β} {k k' : Fresh} {b : β} {code : List Instr} :
    (x >>= f) k = .ok (b, code, k') ↔
      ∃ a c c' k₁, x k = .ok (a, c, k₁) ∧ f a k₁ = .ok (b, c', k') ∧ code = c ++ c' := by
  simp only [bind]
  rcases x k with e | ⟨a, c, k₁⟩
  · simp
  · rcases hf : f a k₁ with e | ⟨b', c', k₂⟩
    · simp [hf]
    · simp only [hf, Except.ok.injEq, Prod.mk.injEq]
      constructor
      · rintro ⟨rfl, rfl, rfl⟩
        exact ⟨a, c, c', k₁, ⟨rfl, rfl, rfl⟩, hf, rfl⟩
      · rintro ⟨a', d, d', k₃, ⟨rfl, rfl, rfl⟩, hf', rfl⟩
        cases hf.symm.trans hf'
        exact ⟨rfl, rfl, rfl⟩

/-- A label is taken. -/
theorem label_bind_eq_ok {f : Nat → Emit β} {k k' : Fresh} {b : β} {code : List Instr} :
    (label >>= f) k = .ok (b, code, k') ↔
      f k.label { k with label := k.label + 1 } = .ok (b, code, k') := by
  simp only [bind, label]
  rcases f k.label { k with label := k.label + 1 } with e | ⟨b', c, k₁⟩ <;> simp

/-- One instruction, and those that follow. -/
theorem instr_bind_eq_ok {i : Instr} {f : Unit → Emit β} {k k' : Fresh} {b : β}
    {code : List Instr} :
    (instr i >>= f) k = .ok (b, code, k') ↔ ∃ c, f () k = .ok (b, c, k') ∧ code = i :: c := by
  rw [bind_eq_ok]
  constructor
  · rintro ⟨_, _, c, _, hi, hf, rfl⟩
    cases hi
    exact ⟨c, hf, rfl⟩
  · rintro ⟨c, hf, rfl⟩
    exact ⟨(), [i], c, k, rfl, hf, rfl⟩

/-- What fails first is what is reported. -/
theorem bind_eq_error {x : Emit α} {f : α → Emit β} {k : Fresh} {e : Finding}
    (h : x k = .error e) : (x >>= f) k = .error e := by
  simp only [bind]
  rw [h]

theorem bind_eq_error_of_ok {x : Emit α} {f : α → Emit β} {k k₁ : Fresh} {a : α}
    {code : List Instr} {e : Finding} (h : x k = .ok (a, code, k₁)) (hf : f a k₁ = .error e) :
    (x >>= f) k = .error e := by
  simp only [bind]
  rw [h]
  simp only [hf]

theorem pure_bind (a : α) (f : α → Emit β) : pure a >>= f = f a := by
  funext k
  simp only [bind, pure]
  rcases f a k with e | ⟨b, c, k'⟩ <;> rfl

/-- One instruction for each element of a list. -/
theorem each_apply (f : α → Instr) (as : List α) (k : Fresh) :
    each f as k = .ok ((), as.map f, k) := by
  induction as with
  | nil => rfl
  | cons a as ih => simp [each, bind, instr, ih]

end Emit

namespace Lower

open Emit

variable {k k' : Fresh} {o : Operand} {code : List Instr} {pos : Int}

/-! ## Expressions -/

theorem expr_assign {name : Text} {e : Expr}
    (h : expr (.assign pos name e) k = .ok (o, code, k')) :
    ∃ c, expr e k = .ok (o, c, k') ∧ code = c ++ [.store name o] := by
  rw [expr, bind_eq_ok] at h
  obtain ⟨v, c, c', k₁, he, h, rfl⟩ := h
  cases h
  exact ⟨c, he, rfl⟩

theorem expr_unary {op : UnaryOp} {e : Expr}
    (h : expr (.unary pos op e) k = .ok (o, code, k')) :
    ∃ v c k₁, expr e k = .ok (v, c, k₁) ∧ op.mnemonic?.isSome = true ∧ o = .temp k₁.temp ∧
      code = c ++ [.unary k₁.temp op v] ∧ k' = { k₁ with temp := k₁.temp + 1 } := by
  rw [expr, bind_eq_ok] at h
  obtain ⟨v, c, c', k₁, he, h, rfl⟩ := h
  cases hop : op.mnemonic? with
  | none =>
      rw [if_pos (by rw [hop]; rfl)] at h
      cases h
  | some w =>
      rw [if_neg (by rw [hop]; simp)] at h
      cases h
      exact ⟨v, c, k₁, he, rfl, rfl, rfl, rfl⟩

theorem expr_binary {op : BinaryOp} {e e' : Expr}
    (h : expr (.binary pos op e e') k = .ok (o, code, k')) :
    ∃ v c k₁ v' c' k₂, expr e k = .ok (v, c, k₁) ∧ expr e' k₁ = .ok (v', c', k₂) ∧
      op.mnemonic?.isSome = true ∧ o = .temp k₂.temp ∧
      code = c ++ c' ++ [.binary k₂.temp op v v'] ∧ k' = { k₂ with temp := k₂.temp + 1 } := by
  rw [expr, bind_eq_ok] at h
  obtain ⟨v, c, _, k₁, he, h, rfl⟩ := h
  rw [bind_eq_ok] at h
  obtain ⟨v', c', _, k₂, he', h, rfl⟩ := h
  cases hop : op.mnemonic? with
  | none =>
      rw [if_pos (by rw [hop]; rfl)] at h
      cases h
  | some w =>
      rw [if_neg (by rw [hop]; simp)] at h
      cases h
      exact ⟨v, c, k₁, v', c', k₂, he, he', rfl, rfl, by simp, rfl⟩

/-- What a call calls: a name as it is, and any other callee by its value. -/
inductive Calls (k : Fresh) : Expr → Target → List Instr → Fresh → Prop where
  | named (pos : Int) (name : Text) : Calls k (.ident pos name) (.named name) [] k
  | computed {e : Expr} {o : Operand} {code : List Instr} {k' : Fresh}
      (h : expr e k = .ok (o, code, k')) (hname : ∀ pos name, e ≠ .ident pos name) :
      Calls k e (.computed o) code k'

theorem expr_call {callee : Expr} {arguments : List Expr}
    (h : expr (.call pos callee arguments) k = .ok (o, code, k')) :
    ∃ f c k₁ vs c' k₂, Calls k callee f c k₁ ∧ args arguments k₁ = .ok (vs, c', k₂) ∧
      o = .temp k₂.temp ∧
      code = c ++ (c' ++ (vs.map .param ++ [.call k₂.temp f vs.length])) ∧
      k' = { k₂ with temp := k₂.temp + 1 } := by
  obtain ⟨f, c, c', k₁, hf, hrest, rfl⟩ : ∃ f c c' k₁, Calls k callee f c k₁ ∧
      (do
        let vs ← args arguments
        Emit.each .param vs
        let t ← Emit.temp
        Emit.instr (.call t f vs.length)
        pure (Operand.temp t)) k₁ = .ok (o, c', k') ∧ code = c ++ c' := by
    by_cases hcallee : ∃ pos name, callee = .ident pos name
    · obtain ⟨pos', name, rfl⟩ := hcallee
      rw [expr, bind_eq_ok] at h
      obtain ⟨f, c, c', k₁, hf, h, rfl⟩ := h
      cases hf
      exact ⟨_, [], c', k, .named pos' name, h, rfl⟩
    · rw [expr, bind_eq_ok] at h
      · obtain ⟨v, c, c', k₁, hv, h, rfl⟩ := h
        rw [pure_bind] at h
        exact ⟨_, c, c', k₁, .computed hv fun pos' name heq => hcallee ⟨pos', name, heq⟩, h, rfl⟩
      · rintro pos' name rfl
        exact hcallee ⟨pos', name, rfl⟩
  rw [bind_eq_ok] at hrest
  obtain ⟨vs, c', _, k₂, hargs, hrest, rfl⟩ := hrest
  rw [bind_eq_ok] at hrest
  obtain ⟨_, _, _, k₃, heach, hrest, rfl⟩ := hrest
  rw [each_apply] at heach
  cases heach
  cases hrest
  exact ⟨f, c, k₁, vs, c', _, hf, hargs, rfl, rfl, rfl⟩

theorem args_cons {e : Expr} {es : List Expr} {vs : List Operand}
    (h : args (e :: es) k = .ok (vs, code, k')) :
    ∃ v c k₁ vs' c', expr e k = .ok (v, c, k₁) ∧ args es k₁ = .ok (vs', c', k') ∧
      vs = v :: vs' ∧ code = c ++ c' := by
  rw [args, bind_eq_ok] at h
  obtain ⟨v, c, _, k₁, he, h, rfl⟩ := h
  rw [bind_eq_ok] at h
  obtain ⟨vs', c', _, k₂, hes, h, rfl⟩ := h
  cases h
  exact ⟨v, c, k₁, vs', c', he, hes, rfl, by simp⟩

/-! ## Statements -/

variable {inside : Bool} {u : Unit}

theorem stmt_expr {e : Expr} (h : stmt inside (.expr pos e) k = .ok (u, code, k')) :
    ∃ o, expr e k = .ok (o, code, k') := by
  rw [stmt, bind_eq_ok] at h
  obtain ⟨o, c, _, k₁, he, h, rfl⟩ := h
  cases h
  exact ⟨o, by simpa using he⟩

theorem stmt_ret {e : Expr} (h : stmt inside (.ret pos e) k = .ok (u, code, k')) :
    ∃ o c, expr e k = .ok (o, c, k') ∧ code = c ++ [.print o, .ret o] := by
  rw [stmt, bind_eq_ok] at h
  obtain ⟨o, c, _, k₁, he, h, rfl⟩ := h
  cases h
  exact ⟨o, c, he, rfl⟩

theorem stmt_declare {type : DeclaredType} {name : Text} {e : Expr}
    (h : stmt inside (.declare pos type name e) k = .ok (u, code, k')) :
    ∃ o c, expr e k = .ok (o, c, k') ∧ code = c ++ [.declare name, .store name o] := by
  rw [stmt, bind_eq_ok] at h
  obtain ⟨o, c, _, k₁, he, h, rfl⟩ := h
  cases h
  exact ⟨o, c, he, rfl⟩

theorem stmt_ifThen {cond : Expr} {yes : Stmt}
    (h : stmt inside (.ifThen pos cond yes) k = .ok (u, code, k')) :
    ∃ o c k₁ c', expr cond k = .ok (o, c, k₁) ∧
      stmt inside yes { k₁ with label := k₁.label + 1 } = .ok ((), c', k') ∧
      code = c ++ (.jumpUnless o k₁.label :: (c' ++ [.label k₁.label])) := by
  rw [stmt, bind_eq_ok] at h
  obtain ⟨o, c, _, k₁, hcond, h, rfl⟩ := h
  rw [label_bind_eq_ok, instr_bind_eq_ok] at h
  obtain ⟨_, h, rfl⟩ := h
  rw [bind_eq_ok] at h
  obtain ⟨_, c', _, k₂, hyes, h, rfl⟩ := h
  cases h
  exact ⟨o, c, k₁, c', hcond, hyes, rfl⟩

theorem stmt_ifElse {cond : Expr} {yes no : Stmt}
    (h : stmt inside (.ifElse pos cond yes no) k = .ok (u, code, k')) :
    ∃ o c k₁ c' k₂ c'', expr cond k = .ok (o, c, k₁) ∧
      stmt inside yes { k₁ with label := k₁.label + 1 } = .ok ((), c', k₂) ∧
      stmt inside no { k₂ with label := k₂.label + 1 } = .ok ((), c'', k') ∧
      code = c ++ (.jumpUnless o k₁.label :: (c' ++ (.jump k₂.label :: .label k₁.label ::
        (c'' ++ [.label k₂.label])))) := by
  rw [stmt, bind_eq_ok] at h
  obtain ⟨o, c, _, k₁, hcond, h, rfl⟩ := h
  rw [label_bind_eq_ok, instr_bind_eq_ok] at h
  obtain ⟨_, h, rfl⟩ := h
  rw [bind_eq_ok] at h
  obtain ⟨_, c', _, k₂, hyes, h, rfl⟩ := h
  rw [label_bind_eq_ok, instr_bind_eq_ok] at h
  obtain ⟨_, h, rfl⟩ := h
  rw [instr_bind_eq_ok] at h
  obtain ⟨_, h, rfl⟩ := h
  rw [bind_eq_ok] at h
  obtain ⟨_, c'', _, k₃, hno, h, rfl⟩ := h
  cases h
  exact ⟨o, c, k₁, c', k₂, c'', hcond, hyes, hno, rfl⟩

theorem stmt_loop {cond : Expr} {body : Stmt}
    (h : stmt inside (.loop pos cond body) k = .ok (u, code, k')) :
    ∃ o c k₁ c', expr cond { k with label := k.label + 2 } = .ok (o, c, k₁) ∧
      stmt inside body k₁ = .ok ((), c', k') ∧
      code = .label k.label :: (c ++ (.jumpUnless o (k.label + 1) ::
        (c' ++ [.jump k.label, .label (k.label + 1)]))) := by
  rw [stmt, label_bind_eq_ok, label_bind_eq_ok, instr_bind_eq_ok] at h
  obtain ⟨_, h, rfl⟩ := h
  rw [bind_eq_ok] at h
  obtain ⟨o, c, _, k₁, hcond, h, rfl⟩ := h
  rw [instr_bind_eq_ok] at h
  obtain ⟨_, h, rfl⟩ := h
  rw [bind_eq_ok] at h
  obtain ⟨_, c', _, k₂, hbody, h, rfl⟩ := h
  cases h
  exact ⟨o, c, k₁, c', hcond, hbody, rfl⟩

theorem stmt_fxn {name : Text} {params : List Text} {body : List Stmt}
    (h : stmt inside (.fxn pos name params body) k = .ok (u, code, k')) :
    inside = false ∧ ∃ c, stmts true body k = .ok ((), c, k') ∧
      code = .func name :: (params.map .arg ++ (c ++ [.endFunc])) := by
  rw [stmt] at h
  split at h
  · cases h
  · next hinside =>
    rw [instr_bind_eq_ok] at h
    obtain ⟨_, h, rfl⟩ := h
    rw [bind_eq_ok] at h
    obtain ⟨_, _, _, _, heach, h, rfl⟩ := h
    rw [each_apply] at heach
    cases heach
    rw [bind_eq_ok] at h
    obtain ⟨_, c, _, _, hbody, h, rfl⟩ := h
    cases h
    exact ⟨by simpa using hinside, c, hbody, rfl⟩

/-- A statement that is not missing comes before those behind it. -/
theorem stmts_cons_eq (inside : Bool) {s : Stmt} (hs : s.isMissing = false) (ss : List Stmt) :
    stmts inside (s :: ss) = (do stmt inside s; stmts inside ss) := by
  refine stmts.eq_3 _ _ _ ?_
  rintro rfl
  cases hs

theorem stmts_cons {s : Stmt} {ss : List Stmt} (hs : s.isMissing = false)
    (h : stmts inside (s :: ss) k = .ok (u, code, k')) :
    ∃ c k₁ c', stmt inside s k = .ok ((), c, k₁) ∧ stmts inside ss k₁ = .ok ((), c', k') ∧
      code = c ++ c' := by
  rw [stmts_cons_eq inside hs, bind_eq_ok] at h
  obtain ⟨_, c, c', k₁, hhead, h, rfl⟩ := h
  exact ⟨c, k₁, c', hhead, h, rfl⟩

/-! ## Temporaries, labels and the ends of functions -/

end Lower

/-- Whether an operand is no temporary from `n` on. -/
def Operand.Below (n : Nat) : Operand → Prop
  | .temp t => t < n
  | _ => True

theorem Operand.Below.mono {n m : Nat} (hle : n ≤ m) {o : Operand} (h : o.Below n) : o.Below m := by
  cases o with
  | temp t => exact Nat.lt_of_lt_of_le h hle
  | _ => trivial

/-- Whether an instruction is one of those that compute a value: no declaration, no jump, and no
part of the frame of a function. -/
def Instr.computes : Instr → Bool
  | .load _ _ | .store _ _ | .unary _ _ _ | .binary _ _ _ _ | .param _ | .call _ _ _ => true
  | _ => false

/-- Whether an instruction opens or closes a function. -/
def Instr.frames : Instr → Bool
  | .func _ | .arg _ | .endFunc => true
  | _ => false

theorem Instr.marked?_of_computes {i : Instr} (h : i.computes = true) : i.marked? = none := by
  cases i <;> first | rfl | cases h

theorem Instr.frames_of_computes {i : Instr} (h : i.computes = true) : i.frames = false := by
  cases i <;> first | rfl | cases h

namespace Lower

variable {k k' : Fresh} {o : Operand} {code : List Instr} {inside : Bool} {u : Unit}

/-- What the instructions for an expression take and leave: temporaries are taken in order, and no
label is taken. -/
structure Computes (k k' : Fresh) (os : List Operand) (code : List Instr) : Prop where
  temps : k.temp ≤ k'.temp
  label : k'.label = k.label
  below : ∀ o ∈ os, o.Below k'.temp
  computes : ∀ i ∈ code, i.computes = true

namespace Computes

variable {k₁ : Fresh} {os os' : List Operand} {code' : List Instr}

theorem append (h : Computes k k₁ os code) (h' : Computes k₁ k' os' code') :
    Computes k k' (os ++ os') (code ++ code') where
  temps := h.temps.trans h'.temps
  label := h'.label.trans h.label
  below := by
    intro o ho
    rcases List.mem_append.mp ho with ho | ho
    · exact (h.below o ho).mono h'.temps
    · exact h'.below o ho
  computes := by
    intro i hi
    rcases List.mem_append.mp hi with hi | hi
    · exact h.computes i hi
    · exact h'.computes i hi

/-- One more instruction, whose result is in the next temporary. -/
theorem produce {i : Instr} (h : Computes k k' os code) (hi : i.computes = true) :
    Computes k { k' with temp := k'.temp + 1 } [.temp k'.temp] (code ++ [i]) where
  temps := h.temps.trans (Nat.le_succ _)
  label := h.label
  below := by simp [Operand.Below]
  computes := by
    intro j hj
    rcases List.mem_append.mp hj with hj | hj
    · exact h.computes j hj
    · rwa [List.mem_singleton.mp hj]

/-- More instructions that leave the operands as they are. -/
theorem more (h : Computes k k' os code) (hmore : ∀ i ∈ code', i.computes = true) :
    Computes k k' os (code ++ code') where
  temps := h.temps
  label := h.label
  below := h.below
  computes := by
    intro i hi
    rcases List.mem_append.mp hi with hi | hi
    · exact h.computes i hi
    · exact hmore i hi

theorem nil (k : Fresh) (hos : ∀ o ∈ os, ∀ t, o ≠ .temp t) : Computes k k os [] where
  temps := Nat.le_refl _
  label := rfl
  below := by
    intro o ho
    cases o with
    | temp t => exact absurd rfl (hos _ ho t)
    | _ => trivial
  computes := by simp

end Computes

mutual

/-- **The instructions for an expression** only compute. -/
theorem expr_computes (e : Expr) {k k' : Fresh} {o : Operand} {code : List Instr}
    (h : expr e k = .ok (o, code, k')) : Computes k k' [o] code := by
  cases e with
  | missing => cases h
  | num _ _ | str _ _ | bool _ _ =>
      cases h
      exact .nil k (by simp)
  | ident _ name | symbol _ name =>
      cases h
      have hnil : Computes k k [] [] := .nil k (by simp)
      exact hnil.produce rfl
  | group _ inner => exact expr_computes inner h
  | assign _ name value =>
      obtain ⟨c, hc, rfl⟩ := expr_assign h
      exact (expr_computes value hc).more (by simp [Instr.computes])
  | unary _ op operand =>
      obtain ⟨v, c, k₁, hc, -, rfl, rfl, rfl⟩ := expr_unary h
      exact (expr_computes operand hc).produce rfl
  | binary _ op left right =>
      obtain ⟨v, c, k₁, v', c', k₂, hc, hc', -, rfl, rfl, rfl⟩ := expr_binary h
      exact ((expr_computes left hc).append (expr_computes right hc')).produce rfl
  | call _ callee arguments =>
      obtain ⟨f, c, k₁, vs, c', k₂, hf, hc', rfl, rfl, rfl⟩ := expr_call h
      have hfirst : Computes k k₁ [] c := by
        cases hf with
        | named => exact .nil k (by simp)
        | computed hc =>
            have hcallee := expr_computes callee hc
            exact ⟨hcallee.temps, hcallee.label, by simp, hcallee.computes⟩
      have hparams : ∀ i ∈ vs.map Instr.param, i.computes = true := by simp [Instr.computes]
      rw [← List.append_assoc, ← List.append_assoc]
      exact ((hfirst.append (args_computes arguments hc')).more hparams).produce rfl

/-- The instructions for arguments only compute. -/
theorem args_computes (es : List Expr) {k k' : Fresh} {vs : List Operand} {code : List Instr}
    (h : args es k = .ok (vs, code, k')) : Computes k k' vs code := by
  cases es with
  | nil =>
      cases h
      exact .nil k (by simp)
  | cons e es =>
      obtain ⟨v, c, k₁, vs', c', hc, hc', rfl, rfl⟩ := args_cons h
      exact (expr_computes e hc).append (args_computes es hc')

end

/-- The labels that instructions carry. -/
def marks (code : List Instr) : List Nat := code.filterMap Instr.marked?

/-- What the instructions for a statement take: labels are taken in order, none is carried twice,
and inside a function nothing opens or closes one. -/
structure Labelled (inside : Bool) (k k' : Fresh) (code : List Instr) : Prop where
  label : k.label ≤ k'.label
  nodup : (marks code).Nodup
  taken : ∀ n ∈ marks code, k.label ≤ n ∧ n < k'.label
  frames : inside = true → ∀ i ∈ code, i.frames = false

@[simp] theorem marks_nil : marks [] = [] := rfl

@[simp] theorem marks_append (code code' : List Instr) :
    marks (code ++ code') = marks code ++ marks code' :=
  List.filterMap_append

@[simp] theorem marks_cons (i : Instr) (code : List Instr) :
    marks (i :: code) = i.marked?.toList ++ marks code := by
  cases h : i.marked? <;> simp [marks, h]

theorem Computes.marks_eq {os : List Operand} (h : Computes k k' os code) : marks code = [] := by
  refine List.filterMap_eq_nil_iff.mpr fun i hi => ?_
  exact Instr.marked?_of_computes (h.computes i hi)

theorem Computes.frames {os : List Operand} (h : Computes k k' os code) :
    ∀ i ∈ code, i.frames = false :=
  fun i hi => Instr.frames_of_computes (h.computes i hi)

theorem Computes.labelled {os : List Operand} (h : Computes k k' os code) :
    Labelled inside k k' code where
  label := h.label.ge
  nodup := by rw [h.marks_eq]; exact .nil
  taken := by rw [h.marks_eq]; simp
  frames _ := h.frames

namespace Labelled

variable {k₁ : Fresh} {code' : List Instr}

theorem append (h : Labelled inside k k₁ code) (h' : Labelled inside k₁ k' code') :
    Labelled inside k k' (code ++ code') where
  label := h.label.trans h'.label
  nodup := by
    rw [marks_append]
    refine List.nodup_append'.mpr ⟨h.nodup, h'.nodup, fun n hn hn' => ?_⟩
    have hlt := (h.taken n hn).2
    have hle := (h'.taken n hn').1
    omega
  taken := by
    intro n hn
    rw [marks_append] at hn
    rcases List.mem_append.mp hn with hn | hn
    · exact ⟨(h.taken n hn).1, (h.taken n hn).2.trans_le h'.label⟩
    · exact ⟨h.label.trans (h'.taken n hn).1, (h'.taken n hn).2⟩
  frames hinside i hi := by
    rcases List.mem_append.mp hi with hi | hi
    · exact h.frames hinside i hi
    · exact h'.frames hinside i hi

/-- Instructions that carry no label, after labels were taken. -/
theorem skip {k k' : Fresh} (hle : k.label ≤ k'.label) (hmarks : marks code = [])
    (hframes : inside = true → ∀ i ∈ code, i.frames = false) : Labelled inside k k' code where
  label := hle
  nodup := by rw [hmarks]; exact .nil
  taken := by rw [hmarks]; simp
  frames := hframes

/-- A jump, after labels were taken. -/
theorem jumps (o : Operand) (n : Nat) {k k' : Fresh} (hle : k.label ≤ k'.label) :
    Labelled inside k k' [.jumpUnless o n] :=
  .skip hle rfl (by simp [Instr.frames])

/-- A label that was taken is carried. -/
theorem carry {n : Nat} (h : Labelled inside k k' code) (hn : k.label ≤ n ∧ n < k'.label)
    (hfresh : n ∉ marks code) : Labelled inside k k' (code ++ [.label n]) where
  label := h.label
  nodup := by
    rw [marks_append]
    refine List.nodup_append'.mpr ⟨h.nodup, List.nodup_singleton n, ?_⟩
    simpa [Instr.marked?] using hfresh
  taken := by
    intro m hm
    rw [marks_append] at hm
    rcases List.mem_append.mp hm with hm | hm
    · exact h.taken m hm
    · obtain rfl : m = n := by simpa [Instr.marked?] using hm
      exact hn
  frames hinside i hi := by
    rcases List.mem_append.mp hi with hi | hi
    · exact h.frames hinside i hi
    · rw [List.mem_singleton.mp hi]
      rfl

/-- A label taken before others is carried by none of the instructions in between. -/
theorem notMem {n : Nat} (h : Labelled inside k k' code) (hn : n < k.label) : n ∉ marks code := by
  intro hmem
  have hle := (h.taken n hmem).1
  omega

end Labelled

open Labelled (jumps)

mutual

/-- **The labels of a statement** are its own. -/
theorem stmt_labelled (s : Stmt) {inside : Bool} {k k' : Fresh} {u : Unit} {code : List Instr}
    (h : stmt inside s k = .ok (u, code, k')) : Labelled inside k k' code := by
  cases s with
  | missing => cases h
  | expr _ e =>
      obtain ⟨o, hc⟩ := stmt_expr h
      exact (expr_computes e hc).labelled
  | ret _ value =>
      obtain ⟨o, c, hc, rfl⟩ := stmt_ret h
      exact (expr_computes value hc).labelled.append
        (.skip (Nat.le_refl _) rfl (by simp [Instr.frames]))
  | declare _ _ name init =>
      obtain ⟨o, c, hc, rfl⟩ := stmt_declare h
      exact (expr_computes init hc).labelled.append
        (.skip (Nat.le_refl _) rfl (by simp [Instr.frames]))
  | block _ body => exact stmts_labelled body h
  | ifThen _ cond yes =>
      obtain ⟨o, c, k₁, c', hc, hc', rfl⟩ := stmt_ifThen h
      have hcond := expr_computes cond hc
      have hyes := stmt_labelled yes hc'
      have hle : k₁.label + 1 ≤ k'.label := hyes.label
      have hall := (hcond.labelled.append (jumps o k₁.label (Nat.le_succ k₁.label))).append hyes
      have hcarried := hall.carry (n := k₁.label) ⟨hcond.label.ge, hle⟩ (by
        simpa [hcond.marks_eq, Instr.marked?] using hyes.notMem (Nat.lt_succ_self k₁.label))
      simpa using hcarried
  | ifElse _ cond yes no =>
      obtain ⟨o, c, k₁, c', k₂, c'', hc, hc', hc'', rfl⟩ := stmt_ifElse h
      have hcond := expr_computes cond hc
      have hyes := stmt_labelled yes hc'
      have hno := stmt_labelled no hc''
      have hle : k₁.label + 1 ≤ k₂.label := hyes.label
      have hle' : k₂.label + 1 ≤ k'.label := hno.label
      have hhead := (hcond.labelled.append (jumps o k₁.label (Nat.le_succ k₁.label))).append hyes
      have hjump : Labelled inside k₂ { k₂ with label := k₂.label + 1 } [.jump k₂.label] :=
        .skip (Nat.le_succ _) rfl (by simp [Instr.frames])
      have hfirst := (hhead.append hjump).carry (n := k₁.label)
        ⟨hcond.label.ge, hle.trans (Nat.le_succ _)⟩ (by
          simpa [hcond.marks_eq, Instr.marked?] using hyes.notMem (Nat.lt_succ_self k₁.label))
      have hsecond := (hfirst.append hno).carry (n := k₂.label)
        ⟨hcond.label.ge.trans ((Nat.le_succ _).trans hle), hle'⟩ (by
          have hnotYes : k₂.label ∉ marks c' := fun hmem =>
            absurd (hyes.taken _ hmem).2 (Nat.lt_irrefl _)
          have hnotNo := hno.notMem (Nat.lt_succ_self k₂.label)
          have hne : k₂.label ≠ k₁.label := Nat.ne_of_gt hle
          simp [hcond.marks_eq, Instr.marked?, hnotYes, hnotNo, hne])
      simpa using hsecond
  | loop _ cond body =>
      obtain ⟨o, c, k₁, c', hc, hc', rfl⟩ := stmt_loop h
      have hcond := expr_computes cond hc
      have hbody := stmt_labelled body hc'
      have hlabel : k₁.label = k.label + 2 := hcond.label
      have hle := hbody.label
      have htop : Labelled inside k { k with label := k.label + 2 } ([] ++ [.label k.label]) :=
        (Labelled.skip (Nat.le_add_right _ _) rfl (by simp)).carry
          ⟨Nat.le_refl _, Nat.lt_add_of_pos_right (by decide)⟩ (by simp)
      have hround :=
        (hcond.labelled.append (jumps o (k.label + 1) (Nat.le_refl k₁.label))).append hbody
      have hback : Labelled inside k' k' [.jump k.label] :=
        .skip (Nat.le_refl _) rfl (by simp [Instr.frames])
      have hall := ((htop.append hround).append hback).carry (n := k.label + 1)
        ⟨Nat.le_succ _, by omega⟩ (by
          have hnot : k.label + 1 ∉ marks c' := hbody.notMem (by omega)
          simp [hcond.marks_eq, Instr.marked?, hnot])
      simpa using hall
  | fxn _ name params body =>
      obtain ⟨rfl, c, hc, rfl⟩ := stmt_fxn h
      have hbody := stmts_labelled body hc
      have hargs : marks (params.map .arg) = [] := by
        simp [marks, List.filterMap_map, Function.comp_def, Instr.marked?]
      have hmarks : marks (.func name :: (params.map .arg ++ (c ++ [.endFunc]))) = marks c := by
        simp [hargs, Instr.marked?]
      exact ⟨hbody.label, by rw [hmarks]; exact hbody.nodup, by rw [hmarks]; exact hbody.taken,
        by simp⟩

/-- The labels of statements are their own. -/
theorem stmts_labelled (ss : List Stmt) {inside : Bool} {k k' : Fresh} {u : Unit}
    {code : List Instr} (h : stmts inside ss k = .ok (u, code, k')) :
    Labelled inside k k' code := by
  cases ss with
  | nil =>
      cases h
      exact .skip (Nat.le_refl _) rfl (by simp)
  | cons s ss =>
      cases hs : s.isMissing with
      | true =>
          obtain rfl : s = .missing := by cases s <;> first | rfl | cases hs
          exact stmts_labelled ss h
      | false =>
          obtain ⟨c, k₁, c', hc, hc', rfl⟩ := stmts_cons hs h
          exact (stmt_labelled s hc).append (stmts_labelled ss hc')

end

end Lower

end Badger
