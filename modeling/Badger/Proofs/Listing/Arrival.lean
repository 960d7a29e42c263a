import Badger.Proofs.Listing.Correspondence

/-!
# Where the machine gets

A session runs a part of a program, and a machine executes the instructions of that part. This
module says where that takes the machine.

## Main definitions

* `Machine.Reached`: the machine gets from one state to another, and the session with it
* `Machine.Computed`: the same for instructions that compute, after which a certain line comes
* `Machine.Arrives`: the machine gets to where the outcome of a statement takes it

## Main statements

* `Machine.Reached.has`: what an operand holds outlasts later instructions
* `Machine.Arrives.label`, `Machine.Arrives.jump`: how a machine goes on after a statement

## Design notes

What an expression leaves in its operand has to outlast the instructions of the expressions after
it. These use temporaries from some number on, and `Reached` says that those below are as before.
-/

namespace Badger.Machine

open Relation (ReflTransGen)

variable {code : List Instr} {g b : ScopeId} {n m : Nat} {s s' s'' : Session} {σ σ' σ'' : State}
  {o : Operand} {v w : Value}

/-! ## Corresponding runs -/

theorem Step.of_exec {i : Instr} (hi : code[σ.line]? = some i) (h : exec code i σ = some σ') :
    Step code σ σ' := by
  unfold Step step
  rw [hi]
  exact h

/-- **The machine and the session run on** to corresponding states. The scopes of waiting calls and
the temporaries below `n` are as before. -/
structure Reached (code : List Instr) (g b : ScopeId) (n : Nat) (s s' : Session) (σ σ' : State) :
    Prop where
  steps : Steps code σ σ'
  related : Related code g b s' σ'
  spares : Spares g b s.memory s'.memory
  temps : ∀ t < n, σ'.frame.temps t = σ.frame.temps t
  params : σ'.params = σ.params
  callers : σ'.callers = σ.callers

/-- An operand with the value that corresponds to the session's. -/
def Has (code : List Instr) (g : ScopeId) (σ : State) (o : Operand) (v : Value) : Prop :=
  ∃ w, σ.value o = some w ∧ Similar code g v w

namespace Reached

theorem refl (h : Related code g b s σ) (n : Nat) : Reached code g b n s s σ σ :=
  ⟨.refl, h, .refl _, fun _ _ => rfl, rfl, rfl⟩

theorem trans (h : Reached code g b n s s' σ σ') (h' : Reached code g b m s' s'' σ' σ'')
    (hle : n ≤ m) : Reached code g b n s s'' σ σ'' where
  steps := ReflTransGen.trans h.steps h'.steps
  related := h'.related
  spares := h.spares.trans h'.spares
  temps t ht := (h'.temps t (ht.trans_le hle)).trans (h.temps t ht)
  params := h'.params.trans h.params
  callers := h'.callers.trans h.callers

theorem mono (h : Reached code g b m s s' σ σ') (hle : n ≤ m) : Reached code g b n s s' σ σ' :=
  { h with temps := fun t ht => h.temps t (ht.trans_le hle) }

/-- One more step, in which the session does nothing. -/
theorem step (h : Reached code g b n s s' σ σ') (hstep : Step code σ' σ'')
    (hglobals : σ''.globals = σ'.globals) (hlocals : σ''.frame.locals = σ'.frame.locals)
    (houtput : σ''.output = σ'.output)
    (htemps : ∀ t < n, σ''.frame.temps t = σ'.frame.temps t) (hparams : σ''.params = σ'.params)
    (hcallers : σ''.callers = σ'.callers) : Reached code g b n s s' σ σ'' where
  steps := ReflTransGen.tail h.steps hstep
  related := h.related.congr hglobals hlocals houtput
  spares := h.spares
  temps t ht := (htemps t ht).trans (h.temps t ht)
  params := hparams.trans h.params
  callers := hcallers.trans h.callers

/-- One more step, which puts a value into a temporary. -/
theorem produce (h : Reached code g b n s s' σ σ') {dest : Nat} (hdest : n ≤ dest)
    (hstep : Step code σ' (σ'.produce dest w).next) :
    Reached code g b n s s' σ (σ'.produce dest w).next := by
  refine h.step hstep rfl rfl rfl (fun t ht => ?_) rfl rfl
  have hne : t ≠ dest := Nat.ne_of_lt (ht.trans_le hdest)
  simp [State.produce, State.next, hne]

/-- What an operand holds outlasts later instructions. -/
theorem has (h : Reached code g b n s s' σ σ') (ho : o.Below n) (hv : Has code g σ o v) :
    Has code g σ' o v := by
  obtain ⟨w, hw, hsimilar⟩ := hv
  refine ⟨w, ?_, hsimilar⟩
  cases o with
  | temp t => exact (h.temps t ho).trans hw
  | num _ | str _ | bool _ => exact hw

theorem reaches (h : Reached code g b n s s' σ σ') {id : ScopeId}
    (hreach : Reaches s.memory g b id) : Reaches s'.memory g b id :=
  hreach.spares h.spares

end Reached

theorem has_produce {dest : Nat} (h : Similar code g v w) :
    Has code g (σ.produce dest w).next (.temp dest) v :=
  ⟨w, by simp [State.value, State.next, State.produce], h⟩

/-- The machine has executed some instructions that compute, and is at a line after them. -/
structure Computed (code : List Instr) (g b : ScopeId) (n line : Nat) (s s' : Session)
    (σ σ' : State) : Prop extends Reached code g b n s s' σ σ' where
  line : σ'.line = line
  round : σ'.frame.round = σ.frame.round

/-- **Where a statement takes the machine**: to the line after its instructions, with the value of
the statement in mind if the instructions tell it; to a return, with its value; or anywhere, if the
session fails. -/
def Arrives (code : List Instr) (g b : ScopeId) (line : Nat) (valued : Prop) (s : Session)
    (σ : State) : Outcome Value × Session → Prop
  | (.value v, s') => ∃ σ', Reached code g b 0 s s' σ σ' ∧ σ'.line = line ∧
      σ'.frame.round = none ∧ (valued → Similar code g v σ'.frame.last)
  | (.returned v, s') => ∃ σ' o, Reached code g b 0 s s' σ σ' ∧
      code[σ'.line]? = some (.ret o) ∧ Has code g σ' o v
  | _ => True

theorem Arrives.after {line : Nat} {valued : Prop} {r : Outcome Value × Session}
    (h : Reached code g b 0 s s' σ σ') (hr : Arrives code g b line valued s' σ' r) :
    Arrives code g b line valued s σ r := by
  obtain ⟨outcome, s''⟩ := r
  cases outcome with
  | value v =>
      obtain ⟨σ'', hreached, hline, hround, hvalued⟩ := hr
      exact ⟨σ'', h.trans hreached (Nat.le_refl _), hline, hround, hvalued⟩
  | returned v =>
      obtain ⟨σ'', o, hreached, hret, hhas⟩ := hr
      exact ⟨σ'', o, h.trans hreached (Nat.le_refl _), hret, hhas⟩
  | failed _ | outOfFuel => trivial

theorem Arrives.imp {line : Nat} {valued valued' : Prop} {r : Outcome Value × Session}
    (himp : valued' → valued) (h : Arrives code g b line valued s σ r) :
    Arrives code g b line valued' s σ r := by
  obtain ⟨outcome, s'⟩ := r
  cases outcome with
  | value v =>
      obtain ⟨σ', hreached, hline, hround, hvalued⟩ := h
      exact ⟨σ', hreached, hline, hround, fun hv => hvalued (himp hv)⟩
  | returned v => exact h
  | failed _ | outOfFuel => trivial

/-! ## Single steps -/

theorem step_label {l : Nat} (h : code[σ.line]? = some (.label l)) : Step code σ σ.next :=
  .of_exec h rfl

theorem step_jump {l line : Nat} (hlabels : (Lower.marks code).Nodup)
    (h : code[σ.line]? = some (.jump l)) (hline : code[line]? = some (.label l)) :
    Step code σ { σ with
      line := line
      frame :=
        { σ.frame with round := if line ≤ σ.line then some σ.frame.last else σ.frame.round } } :=
  .of_exec h (by simp [exec, State.goto, lineOf?_eq_some hlabels hline])

theorem step_test_true {l : Nat} (h : code[σ.line]? = some (.jumpUnless o l))
    (hw : σ.value o = some w) (htrue : w.truthy = true) : Step code σ (σ.decided true).next :=
  .of_exec h (by simp [exec, hw, htrue])

theorem step_test_false {l line : Nat} (hlabels : (Lower.marks code).Nodup)
    (h : code[σ.line]? = some (.jumpUnless o l)) (hw : σ.value o = some w)
    (hfalse : w.truthy = false) (hline : code[line]? = some (.label l)) (hlt : σ.line < line) :
    Step code σ { σ.decided false with line := line } := by
  refine .of_exec h ?_
  have hnot : ¬line ≤ σ.line := Nat.not_le.mpr hlt
  simp [exec, hw, hfalse, State.goto, lineOf?_eq_some hlabels hline, State.decided, hnot]

/-- A step in which the session does nothing. -/
theorem Related.step (h : Related code g b s σ) (hstep : Step code σ σ')
    (hglobals : σ'.globals = σ.globals) (hlocals : σ'.frame.locals = σ.frame.locals)
    (houtput : σ'.output = σ.output) (hparams : σ'.params = σ.params)
    (hcallers : σ'.callers = σ.callers) : Reached code g b 0 s s σ σ' :=
  (Reached.refl h 0).step hstep hglobals hlocals houtput (by simp) hparams hcallers

/-- A label after a statement. -/
theorem Arrives.label {line l : Nat} {valued : Prop} {r : Outcome Value × Session}
    (h : Arrives code g b line valued s σ r) (hlabel : code[line]? = some (.label l)) :
    Arrives code g b (line + 1) valued s σ r := by
  obtain ⟨outcome, s'⟩ := r
  cases outcome with
  | value v =>
      obtain ⟨σ', hreached, rfl, hround, hvalued⟩ := h
      exact ⟨σ'.next, hreached.step (step_label hlabel) rfl rfl rfl (by simp) rfl rfl, rfl, hround,
        hvalued⟩
  | returned v => exact h
  | failed _ | outOfFuel => trivial

/-- A jump to a label further on, after a statement. -/
theorem Arrives.jump {line line' l : Nat} {valued : Prop} {r : Outcome Value × Session}
    (hlabels : (Lower.marks code).Nodup) (h : Arrives code g b line valued s σ r)
    (hjump : code[line]? = some (.jump l)) (hlabel : code[line']? = some (.label l))
    (hlt : line < line') : Arrives code g b (line' + 1) valued s σ r := by
  obtain ⟨outcome, s'⟩ := r
  cases outcome with
  | value v =>
      obtain ⟨σ', hreached, rfl, hround, hvalued⟩ := h
      have hstep := step_jump hlabels hjump hlabel
      rw [if_neg (Nat.not_le.mpr hlt)] at hstep
      have hjumped := hreached.step hstep rfl rfl rfl (by simp) rfl rfl
      exact .label ⟨_, hjumped, rfl, hround, hvalued⟩ hlabel
  | returned v => exact h
  | failed _ | outOfFuel => trivial

end Badger.Machine
