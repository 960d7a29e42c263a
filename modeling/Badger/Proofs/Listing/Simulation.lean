import Badger.Proofs.Listing.Evaluation

/-!
# Listings do what programs do

A session that runs a statement and a machine that executes the instructions of the statement, both
from corresponding states, end in corresponding states.

## Main statements

* `Machine.simulates_stmt`: **statements**, one lemma for each kind
* `Machine.simulates`: **the machine does what the session does**, for every step budget

## Design notes

The induction is on the step budget of the session, over all parts of a program at once.
-/

namespace Badger.Machine

open Relation (ReflTransGen)

variable {code : List Instr} {g b : ScopeId} {n m : Nat} {s s' s'' : Session} {σ σ' σ'' : State}
  {o : Operand} {v w : Value}

/-! ## Scopes and declarations -/

/-- Opening a scope inside leaves the machine where it is. -/
theorem Related.openScope {outer id : ScopeId} (h : Related code g b s σ)
    (hreach : Reaches s.memory g b outer) (hopen : Run.openScope outer s = (.value id, s')) :
    Reached code g b 0 s s' σ σ ∧ Reaches s'.memory g b id := by
  obtain ⟨scope, hscope⟩ : ∃ scope, s.memory.scope? outer = some scope := by
    cases hreach with
    | base => exact h.exists_base
    | inner _ _ hid _ => exact ⟨_, hid⟩
  obtain ⟨rfl, hglobals, hoptions, houtput, hmemory⟩ := Run.openScope_eq_value hscope hopen
  have hspares : Spares g b s.memory s'.memory := hmemory ▸ .add _ _
  have hkept {id : ScopeId} {scope : Scope} (hid : s.memory.scope? id = some scope) :
      s'.memory.scope? id = some scope := by
    rw [hmemory, Memory.scope?_add, if_neg (Nat.ne_of_lt (lt_size_of_scope? hid)), hid]
  obtain ⟨root, hroot, hrest⟩ := h.root
  obtain ⟨base, hbase⟩ := h.exists_base
  have hrelated : Related code g b s' σ := by
    refine ⟨hglobals.trans h.globals, by rw [hoptions, h.echoes], h.output.trans houtput.symm,
      ⟨root, hkept hroot, hrest⟩, ?_⟩
    rcases h.own with hown | ⟨hne, scope, vars, hscope, hrest⟩
    · exact .inl hown
    · exact .inr ⟨hne, scope, vars, hkept hscope, hrest⟩
  have hnew : s'.memory.scope? s.memory.scopes.size =
      some { outer := some outer, limit := scope.limit } := by
    rw [hmemory, Memory.scope?_add, if_pos rfl]
  exact ⟨⟨.refl, hrelated, hspares, fun _ _ => rfl, rfl, rfl⟩, .inner
    (Nat.ne_of_gt (lt_size_of_scope? hbase)) (Nat.ne_of_gt (lt_size_of_scope? hroot)) hnew
    (hreach.spares hspares)⟩

theorem assign_next (σ : State) (name : Text) (v : Value) :
    σ.next.assign name v = (σ.assign name v).map State.next := by
  unfold State.assign State.next
  cases σ.frame.locals.bind (assign? name v) with
  | some _ => rfl
  | none => cases assign? name v σ.globals <;> rfl

/-- The two lines of a declaration. -/
theorem steps_declare {name : Text} {σ₁ : State} (hnew : code[σ.line]? = some (.declare name))
    (hstore : code[σ.line + 1]? = some (.store name o)) (hw : σ.value o = some w)
    (hassign : (σ.declare name).assign name w = some σ₁) :
    Step code σ (σ.declare name).next ∧ Step code (σ.declare name).next σ₁.next.next := by
  have hvalue : (σ.declare name).next.value o = some w := by
    rw [← hw]
    cases hlocals : σ.frame.locals <;> cases o <;>
      simp [State.declare, State.next, State.value, hlocals]
  have hassign' : (σ.declare name).next.assign name w = some σ₁.next := by
    rw [assign_next, hassign]
    rfl
  have hline : (σ.declare name).next.line = σ.line + 1 := by
    cases hlocals : σ.frame.locals <;> simp [State.declare, State.next, hlocals]
  refine ⟨.of_exec hnew rfl, .of_exec (hline ▸ hstore) ?_⟩
  simp [exec, hvalue, hassign']

/-- The lines of a function. -/
theorem exists_drop_eq {line : Nat} {part : List Instr} (h : Holds code line part) :
    ∃ rest, code.drop line = part ++ rest := by
  induction part generalizing line with
  | nil => exact ⟨_, rfl⟩
  | cons i part ih =>
      obtain ⟨hi, hrest⟩ := h
      obtain ⟨rest, hdrop⟩ := ih hrest
      refine ⟨rest, ?_⟩
      obtain ⟨hlt, hget⟩ := List.getElem?_eq_some_iff.mp hi
      rw [List.drop_eq_getElem_cons hlt, hget, hdrop]
      rfl

theorem parameters_eq {params : List Text} {part rest : List Instr}
    (hpart : ∀ i ∈ part, i.frames = false) :
    parameters (params.map .arg ++ (part ++ [.endFunc]) ++ rest) = params := by
  induction params with
  | nil =>
      cases part with
      | nil => rfl
      | cons i part =>
          have hi := hpart i List.mem_cons_self
          cases i <;> first | rfl | cases hi
  | cons name params ih => exact congrArg (name :: ·) ih

theorem bodyLength_eq {params : List Text} {part rest : List Instr}
    (hpart : ∀ i ∈ part, i.frames = false) :
    bodyLength (params.map .arg ++ (part ++ [.endFunc]) ++ rest) =
      params.length + (part.length + 1) := by
  induction params with
  | nil =>
      induction part with
      | nil => rfl
      | cons i part ih =>
          have hi := hpart i List.mem_cons_self
          have hrest := ih fun j hj => hpart j (List.mem_cons_of_mem _ hj)
          cases i <;> first | cases hi <;> done | simpa [bodyLength, Nat.add_right_comm] using hrest
  | cons name params ih =>
      simp only [List.map_cons, List.cons_append, bodyLength, ih, List.length_cons]
      omega

/-- A declaration of a function. -/
theorem simulates_fxn {fuel : Nat} {name : Text} {params : List Text} {body : List Stmt} {pos : Int}
    {inside : Bool} {k k' : Fresh} {c : List Instr} {valued : Prop}
    (hlower : Lower.stmt inside (.fxn pos name params body) k = .ok ((), c, k'))
    (hflat : Stmt.areFlat false body = true)
    (hbodies : ∀ ss ∈ body :: Stmt.listFxnBodies body, Stmt.areValued ss = true)
    (hholds : Holds code σ.line c) (hrelated : Related code g g s σ)
    (hround : σ.frame.round = none) :
    Arrives code g g (σ.line + c.length) valued s σ
      (Eval.stmt (fuel + 1) (.fxn pos name params body) g s) := by
  obtain ⟨-, c, hc, rfl⟩ := Lower.stmt_fxn hlower
  obtain ⟨hfunc, hrest⟩ := hholds
  have hframes := (Lower.stmts_labelled body hc).frames rfl
  obtain ⟨rest, hdrop⟩ := exists_drop_eq hrest
  obtain ⟨-, hplaced⟩ := holds_append.mp hrest
  let closure : Closure := .declared name params body g s.chunk
  have hinstalled : Installed code g closure (σ.line + 1 + params.length) :=
    ⟨rfl, rfl, hflat, hbodies, c, k, k', hc, by simpa using hplaced⟩
  have hdefinition : Eval.stmt (fuel + 1) (.fxn pos name params body) g s =
      (do
        Run.declareName g name (.fxn (.custom closure)) pos
        pure .empty : Run Value) s := rfl
  rw [hdefinition, Run.bind_apply]
  rcases hdeclare : Run.declareName g name (.fxn (.custom closure)) pos s with ⟨u | _ | _ | _, s₁⟩
  · obtain rfl := Run.declareName_eq_value hdeclare
    obtain ⟨hspares, globals, locals, hassign, hrelated'⟩ :=
      hrelated.declare name (.custom hinstalled)
    have hstep : Step code σ { σ with
        line := σ.line + 1 + (params.length + (c.length + 1))
        globals := globals
        frame := { σ.frame with locals := locals, last := .empty } } := by
      refine .of_exec hfunc ?_
      simp only [exec, hdrop, parameters_eq hframes, bodyLength_eq hframes]
      have hassign' : (σ.declare name).assign name
          (function name params (σ.line + 1 + params.length)) = _ := hassign
      rw [hassign']
      rfl
    refine ⟨_, ⟨.single hstep, hrelated'.congr rfl rfl rfl, hspares, fun _ _ => rfl, rfl, rfl⟩, ?_,
      hround, fun _ => .refl rfl⟩
    simp
    omega
  · exact absurd (congrArg Prod.fst hdeclare) (Run.Settles.declareName g name _ pos s _)
  · trivial
  · trivial

/-! ## Statements -/

section

variable {fuel : Nat} (ih : Simulates code g fuel)

include ih

/-- A statement that is an expression. -/
theorem simulates_exprStmt {e : Expr} {k k' : Fresh} {c : List Instr} {id : ScopeId}
    (hlower : Lower.expr e k = .ok (o, c, k')) (hholds : Holds code σ.line c)
    (hrelated : Related code g b s σ) (hreach : Reaches s.memory g b id)
    (hround : σ.frame.round = none) {valued : Prop} (hvalued : valued → e.emits = true) :
    Arrives code g b (σ.line + c.length) valued s σ (Eval.expr fuel e id s) := by
  have hsettles := (Eval.evalSettles fuel).expr e id s
  rcases heval : Eval.expr fuel e id s with ⟨v | v | d | _, s'⟩
  · obtain ⟨σ', hcomputed, -, hlast⟩ := ih.expr hlower hholds hrelated hreach heval
    exact ⟨σ', hcomputed.toReached.mono (Nat.zero_le _), hcomputed.line,
      hcomputed.round.trans hround, fun h => hlast (hvalued h)⟩
  · rw [heval] at hsettles
    exact absurd rfl (hsettles v)
  · trivial
  · trivial

/-- What comes after an expression. -/
theorem simulates_after {e : Expr} {k k' : Fresh} {c : List Instr} {id : ScopeId} {line : Nat}
    {valued : Prop} {f : Value → Run Value} (hlower : Lower.expr e k = .ok (o, c, k'))
    (hholds : Holds code σ.line c) (hrelated : Related code g b s σ)
    (hreach : Reaches s.memory g b id)
    (hafter : ∀ v s' σ', Computed code g b 0 (σ.line + c.length) s s' σ σ' → Has code g σ' o v →
      Arrives code g b line valued s' σ' (f v s')) :
    Arrives code g b line valued s σ ((Eval.expr fuel e id >>= f) s) := by
  have hsettles := (Eval.evalSettles fuel).expr e id s
  rw [Run.bind_apply]
  rcases heval : Eval.expr fuel e id s with ⟨v | v | d | _, s'⟩
  · obtain ⟨σ', hcomputed, hhas, -⟩ := ih.expr hlower hholds hrelated hreach heval
    have hreached := hcomputed.toReached.mono (Nat.zero_le k.temp)
    exact .after hreached (hafter v s' σ' ⟨hreached, hcomputed.line, hcomputed.round⟩ hhas)
  · rw [heval] at hsettles
    exact absurd rfl (hsettles v)
  · trivial
  · trivial

/-- A return. -/
theorem simulates_ret {e : Expr} {pos : Int} {inside : Bool} {k k' : Fresh} {c : List Instr}
    {id : ScopeId} {valued : Prop} (hlower : Lower.stmt inside (.ret pos e) k = .ok ((), c, k'))
    (hholds : Holds code σ.line c) (hrelated : Related code g b s σ)
    (hreach : Reaches s.memory g b id) :
    Arrives code g b (σ.line + c.length) valued s σ (Eval.stmt (fuel + 1) (.ret pos e) id s) := by
  obtain ⟨o, c, hc, rfl⟩ := Lower.stmt_ret hlower
  obtain ⟨hholds, hprint, hret, -⟩ := holds_append.mp hholds
  refine simulates_after ih hc hholds hrelated hreach fun v s₁ σ₁ hcomputed hhas => ?_
  obtain ⟨w, hw, hsimilar⟩ := hhas
  rw [← hcomputed.line] at hprint hret
  have hecho : Run.echo v s₁ = (.value (), s₁.write (.echoed (v.text ++ [Text.newline]))) := by
    rw [Run.echo, if_pos hcomputed.related.echoes]
  have hrun : (do Run.echo v; Run.returns v : Run Value) s₁ =
      (.returned v, s₁.write (.echoed (v.text ++ [Text.newline]))) := by
    rw [Run.bind_value hecho]
    rfl
  rw [hrun]
  have hstep : Step code σ₁ (σ₁.write (v.text ++ [Text.newline])).next :=
    .of_exec hprint (by simp [exec, hw, hsimilar.text_eq])
  refine ⟨_, o, ⟨.single hstep, (hcomputed.related.write (.echoed _)).congr rfl rfl rfl, .refl _,
    fun _ _ => rfl, rfl, rfl⟩, hret, w, ?_, hsimilar⟩
  cases o <;> exact hw

/-- A declaration of a variable. -/
theorem simulates_declare {type : DeclaredType} {name : Text} {e : Expr} {pos : Int} {inside : Bool}
    {k k' : Fresh} {c : List Instr} {valued : Prop}
    (hlower : Lower.stmt inside (.declare pos type name e) k = .ok ((), c, k'))
    (hholds : Holds code σ.line c) (hrelated : Related code g b s σ)
    (hround : σ.frame.round = none) :
    Arrives code g b (σ.line + c.length) valued s σ
      (Eval.stmt (fuel + 1) (.declare pos type name e) b s) := by
  obtain ⟨o, c, hc, rfl⟩ := Lower.stmt_declare hlower
  obtain ⟨hholds, hnew, hstore, -⟩ := holds_append.mp hholds
  refine simulates_after ih hc hholds hrelated .base fun v s₁ σ₁ hcomputed hhas => ?_
  obtain ⟨w, hw, hsimilar⟩ := hhas
  rw [← hcomputed.line] at hnew hstore
  split
  · rw [Run.bind_apply]
    rcases hdeclare : Run.declareName b name v pos s₁ with ⟨u | _ | _ | _, s₂⟩
    · obtain rfl := Run.declareName_eq_value hdeclare
      obtain ⟨hspares, globals, locals, hassign, hrelated'⟩ :=
        hcomputed.related.declare name hsimilar
      obtain ⟨hnew, hstore⟩ := steps_declare hnew hstore hw hassign
      refine ⟨_, ⟨.tail (.single hnew) hstore, hrelated'.congr rfl rfl rfl, hspares, fun _ _ => rfl,
        rfl, rfl⟩, ?_, hcomputed.round.trans hround, fun _ => .refl rfl⟩
      simp [State.next, hcomputed.line, Nat.add_assoc]
    · exact absurd (congrArg Prod.fst hdeclare) (Run.Settles.declareName b name v pos s₁ _)
    · trivial
    · trivial
  · trivial

/-- A block. -/
theorem simulates_blockStmt {body : List Stmt} {pos : Int} {inside inBlock : Bool} {k k' : Fresh}
    {c : List Instr} {id : ScopeId}
    (hlower : Lower.stmt inside (.block pos body) k = .ok ((), c, k'))
    (hflat : (Stmt.block pos body).isFlat inBlock = true)
    (hbodies : ∀ ss ∈ (Stmt.block pos body).fxnBodies, Stmt.areValued ss = true)
    (hroot : inside = false → b = g) (hholds : Holds code σ.line c)
    (hrelated : Related code g b s σ) (hreach : Reaches s.memory g b id)
    (hround : σ.frame.round = none) :
    Arrives code g b (σ.line + c.length)
      ((Stmt.block pos body).isValued = true ∧
        ((Stmt.block pos body).emits = true ∨ σ.frame.last = .empty)) s σ
      (Eval.stmt (fuel + 1) (.block pos body) id s) := by
  rw [Eval.stmt, Run.bind_apply]
  rcases hopen : Run.openScope id s with ⟨inner | _ | _ | _, s₁⟩
  · obtain ⟨hreached, hreach'⟩ := hrelated.openScope hreach hopen
    have hinner := ih.block .empty hlower hflat hbodies (fun h => by cases h) hroot hholds
      hreached.related hreach' hround
    refine .after hreached (.imp ?_ hinner)
    rintro ⟨hvalued, hemits⟩
    refine ⟨hvalued, ?_⟩
    rintro rfl
    rw [hemits.resolve_left (by simp [Stmt.emits, Stmt.anyEmits])]
    exact .refl rfl
  all_goals cases hopen

/-- A sequence of statements. -/
theorem simulates_block {ss : List Stmt} {inside inBlock : Bool} {k k' : Fresh} {c : List Instr}
    {id : ScopeId} (last : Value) (hlower : Lower.stmts inside ss k = .ok ((), c, k'))
    (hflat : Stmt.areFlat inBlock ss = true)
    (hbodies : ∀ body ∈ Stmt.listFxnBodies ss, Stmt.areValued body = true)
    (hbase : inBlock = false → id = b) (hroot : inside = false → b = g)
    (hholds : Holds code σ.line c) (hrelated : Related code g b s σ)
    (hreach : Reaches s.memory g b id) (hround : σ.frame.round = none) :
    Arrives code g b (σ.line + c.length)
      (Stmt.areValued ss = true ∧ (ss = [] → Similar code g last σ.frame.last)) s σ
      (Eval.block (fuel + 1) ss id last s) := by
  cases ss with
  | nil =>
      cases hlower
      exact ⟨σ, .refl hrelated 0, rfl, hround, fun h => h.2 rfl⟩
  | cons st rest =>
      rw [Stmt.areFlat, Bool.and_eq_true] at hflat
      rw [Stmt.listFxnBodies] at hbodies
      cases hst : st.isMissing with
      | true =>
          obtain rfl : st = .missing := by cases st <;> first | rfl | cases hst
          refine .imp ?_ (ih.block last hlower hflat.2 hbodies hbase hroot hholds hrelated hreach
            hround)
          rintro ⟨hvalued, -⟩
          cases rest with
          | nil => cases hvalued
          | cons s rest => exact ⟨hvalued, fun h => by cases h⟩
      | false =>
          obtain ⟨c, k₁, c', hc, hc', rfl⟩ := Lower.stmts_cons hst hlower
          obtain ⟨hholds, hholds'⟩ := holds_append.mp hholds
          have hfirst := ih.stmt hc hflat.1
            (fun body hbody => hbodies body (List.mem_append_left _ hbody)) hbase hroot hholds
            hrelated hreach hround
          rw [Eval.block, hst, if_neg (by simp), Run.bind_apply]
          rcases hresult : Eval.stmt fuel st id s with ⟨v | v | d | _, s₁⟩
          · rw [hresult] at hfirst
            obtain ⟨σ₁, hreached, hline, hround₁, hvalued⟩ := hfirst
            rw [← hline] at hholds'
            have hrest := ih.block v hc' hflat.2
              (fun body hbody => hbodies body (List.mem_append_right _ hbody)) hbase hroot hholds'
              hreached.related (hreached.reaches hreach) hround₁
            rw [hline, Nat.add_assoc, ← List.length_append] at hrest
            refine .after hreached (.imp ?_ hrest)
            rintro ⟨hareValued, -⟩
            cases rest with
            | nil =>
                rw [Stmt.areValued, Bool.and_eq_true] at hareValued
                exact ⟨rfl, fun _ => hvalued ⟨hareValued.2, .inl hareValued.1⟩⟩
            | cons s rest => exact ⟨hareValued, fun h => by cases h⟩
          · rw [hresult] at hfirst
            exact hfirst
          · trivial
          · trivial

section

variable (hlabels : (Lower.marks code).Nodup)

include hlabels

/-- A conditional without `else`. -/
theorem simulates_ifThen {cond : Expr} {yes : Stmt} {pos : Int} {inside inBlock : Bool}
    {k k' : Fresh} {c : List Instr} {id : ScopeId}
    (hlower : Lower.stmt inside (.ifThen pos cond yes) k = .ok ((), c, k'))
    (hflat : yes.isFlat inBlock = true)
    (hbodies : ∀ ss ∈ yes.fxnBodies, Stmt.areValued ss = true)
    (hbase : inBlock = false → id = b) (hroot : inside = false → b = g)
    (hholds : Holds code σ.line c) (hrelated : Related code g b s σ)
    (hreach : Reaches s.memory g b id) (hround : σ.frame.round = none) :
    Arrives code g b (σ.line + c.length) (yes.isValued = true) s σ
      (Eval.stmt (fuel + 1) (.ifThen pos cond yes) id s) := by
  obtain ⟨o, c, k₁, c', hc, hc', rfl⟩ := Lower.stmt_ifThen hlower
  obtain ⟨hholds, htest, hrest⟩ := holds_append.mp hholds
  obtain ⟨hyes, hlabel, -⟩ := holds_append.mp hrest
  simp only [List.length_append, List.length_cons, List.length_nil, Nat.zero_add]
  refine simulates_after ih hc hholds hrelated hreach fun v s₁ σ₁ hcomputed hhas => ?_
  obtain ⟨w, hw, hsimilar⟩ := hhas
  rw [← hcomputed.line] at htest hyes hlabel
  have hlast : σ₁.frame.round = none := hcomputed.round.trans hround
  have hline : σ₁.line + 1 + c'.length + 1 = σ.line + (c.length + (c'.length + 1 + 1)) := by
    rw [hcomputed.line]
    omega
  split
  · next htrue =>
    have hstep := step_test_true htest hw (hsimilar.truthy_eq.trans htrue)
    have hreached := hcomputed.related.step hstep rfl rfl rfl rfl rfl
    have harrives := ih.stmt (σ := (σ₁.decided true).next) hc' hflat hbodies hbase hroot hyes
      hreached.related (hreached.reaches (hcomputed.reaches hreach)) rfl
    have hend := (harrives.imp fun h : yes.isValued = true => ⟨h, .inr rfl⟩).label hlabel
    exact .after hreached (hline ▸ hend)
  · next hfalse =>
    have hstep := step_test_false hlabels htest hw
      (hsimilar.truthy_eq.trans (by simpa using hfalse)) hlabel (by omega)
    have hreached := hcomputed.related.step hstep rfl rfl rfl rfl rfl
    have harrives : Arrives code g b (σ₁.line + 1 + c'.length) (yes.isValued = true) s₁ σ₁
        (.value .empty, s₁) :=
      ⟨_, hreached, rfl, rfl, fun _ => by simpa [State.decided, hlast] using .refl rfl⟩
    exact hline ▸ harrives.label hlabel

/-- A conditional with `else`. -/
theorem simulates_ifElse {cond : Expr} {yes no : Stmt} {pos : Int} {inside inBlock : Bool}
    {k k' : Fresh} {c : List Instr} {id : ScopeId}
    (hlower : Lower.stmt inside (.ifElse pos cond yes no) k = .ok ((), c, k'))
    (hflat : (Stmt.ifElse pos cond yes no).isFlat inBlock = true)
    (hbodies : ∀ ss ∈ (Stmt.ifElse pos cond yes no).fxnBodies, Stmt.areValued ss = true)
    (hbase : inBlock = false → id = b) (hroot : inside = false → b = g)
    (hholds : Holds code σ.line c) (hrelated : Related code g b s σ)
    (hreach : Reaches s.memory g b id) (hround : σ.frame.round = none) :
    Arrives code g b (σ.line + c.length) (yes.isValued = true ∧ no.isValued = true) s σ
      (Eval.stmt (fuel + 1) (.ifElse pos cond yes no) id s) := by
  obtain ⟨o, c, k₁, c', k₂, c'', hc, hc', hc'', rfl⟩ := Lower.stmt_ifElse hlower
  obtain ⟨hholds, htest, hrest⟩ := holds_append.mp hholds
  obtain ⟨hyes, hjump, hotherwise, hrest⟩ := holds_append.mp hrest
  obtain ⟨hno, hlabel, -⟩ := holds_append.mp hrest
  rw [Stmt.isFlat, Bool.and_eq_true] at hflat
  rw [Stmt.fxnBodies] at hbodies
  simp only [List.length_append, List.length_cons, List.length_nil, Nat.zero_add]
  refine simulates_after ih hc hholds hrelated hreach fun v s₁ σ₁ hcomputed hhas => ?_
  obtain ⟨w, hw, hsimilar⟩ := hhas
  rw [← hcomputed.line] at htest hyes hjump hotherwise hno hlabel
  have hlast : σ₁.frame.round = none := hcomputed.round.trans hround
  have hline : σ₁.line + 1 + c'.length + 1 + 1 + c''.length + 1 =
      σ.line + (c.length + (c'.length + (c''.length + 1 + 1 + 1) + 1)) := by
    rw [hcomputed.line]
    omega
  split
  · next htrue =>
    have hstep := step_test_true htest hw (hsimilar.truthy_eq.trans htrue)
    have hreached := hcomputed.related.step hstep rfl rfl rfl rfl rfl
    have harrives := ih.stmt (σ := (σ₁.decided true).next) hc' hflat.1
      (fun ss hss => hbodies ss (List.mem_append_left _ hss)) hbase hroot hyes
      hreached.related (hreached.reaches (hcomputed.reaches hreach)) rfl
    have hend := (harrives.imp fun h : yes.isValued = true ∧ no.isValued = true =>
      ⟨h.1, .inr rfl⟩).jump hlabels hjump hlabel (by simp [State.next, State.decided]; omega)
    exact .after hreached (hline ▸ hend)
  · next hfalse =>
    have hstep := step_test_false hlabels htest hw
      (hsimilar.truthy_eq.trans (by simpa using hfalse)) hotherwise (by omega)
    have hreached := (hcomputed.related.step hstep rfl rfl rfl rfl rfl).step
      (step_label hotherwise) rfl rfl rfl (by simp) rfl rfl
    have harrives := ih.stmt hc'' hflat.2
      (fun ss hss => hbodies ss (List.mem_append_right _ hss)) hbase hroot hno
      hreached.related (hreached.reaches (hcomputed.reaches hreach)) rfl
    have hend := (harrives.imp fun h : yes.isValued = true ∧ no.isValued = true =>
      ⟨h.2, .inr (by simp [State.decided, State.next, hlast])⟩).label hlabel
    exact .after hreached (hline ▸ hend)

/-- A loop. -/
theorem simulates_loop {cond : Expr} {body : Stmt} {inside inBlock : Bool} {k k₁ k' : Fresh}
    {c c' : List Instr} {top after : Nat} {id : ScopeId} (last : Value)
    (hcond : Lower.expr cond k = .ok (o, c, k₁))
    (hbody : Lower.stmt inside body k₁ = .ok ((), c', k'))
    (hflat : body.isFlat inBlock = true)
    (hbodies : ∀ ss ∈ body.fxnBodies, Stmt.areValued ss = true)
    (hbase : inBlock = false → id = b) (hroot : inside = false → b = g)
    (hholds : Holds code σ.line (.label top :: (c ++ (.jumpUnless o after ::
      (c' ++ [.jump top, .label after])))))
    (hrelated : Related code g b s σ) (hreach : Reaches s.memory g b id) :
    Arrives code g b (σ.line + (c.length + c'.length + 4))
      (body.isValued = true ∧ Similar code g last (σ.frame.round.getD .empty)) s σ
      (Eval.loop (fuel + 1) cond body id last s) := by
  have hlines := hholds
  obtain ⟨htop, hrest⟩ := hlines
  obtain ⟨hc, htest, hrest⟩ := holds_append.mp hrest
  obtain ⟨hc', hjump, hlabel, -⟩ := holds_append.mp hrest
  have hfirst := hrelated.step (step_label htop) rfl rfl rfl rfl rfl
  refine .after hfirst ?_
  refine simulates_after ih (σ := σ.next) hcond hc hfirst.related (hfirst.reaches hreach)
    fun v s₁ σ₁ hcomputed hhas => ?_
  obtain ⟨w, hw, hsimilar⟩ := hhas
  have hline : σ₁.line = σ.line + 1 + c.length := hcomputed.line
  have hround : σ₁.frame.round = σ.frame.round := hcomputed.round
  have hreach₁ := hcomputed.reaches (hfirst.reaches hreach)
  rw [← hline] at htest hc' hjump hlabel
  split
  · next htrue =>
    have hstep := step_test_true htest hw (hsimilar.truthy_eq.trans htrue)
    have hreached := hcomputed.related.step hstep rfl rfl rfl rfl rfl
    have harrives := ih.stmt (σ := (σ₁.decided true).next) hbody hflat hbodies hbase hroot hc'
      hreached.related (hreached.reaches hreach₁) rfl
    refine .after hreached ?_
    rw [Run.bind_apply]
    rcases hresult : Eval.stmt fuel body id s₁ with ⟨v' | v' | d | _, s₂⟩
    · rw [hresult] at harrives
      obtain ⟨σ₂, hreached₂, hline₂, hround₂, hvalued⟩ := harrives
      -- the jump back keeps the value of the round until the next test
      let σ₃ : State :=
        { σ₂ with line := σ.line, frame := { σ₂.frame with round := some σ₂.frame.last } }
      have hback : Step code σ₂ σ₃ := by
        have hjumps := step_jump hlabels (hline₂ ▸ hjump) htop
        rwa [if_pos (by rw [hline₂]; simp [State.next, State.decided]; omega)] at hjumps
      have hreached₃ := hreached₂.step hback rfl rfl rfl (by simp) rfl rfl
      have hloop := ih.loop (σ := σ₃) v' hcond hbody hflat hbodies hbase hroot hholds
        hreached₃.related (hreached₃.reaches (hreached.reaches hreach₁))
      exact .after hreached₃ (hloop.imp fun h => ⟨h.1, hvalued ⟨h.1, .inr rfl⟩⟩)
    · rw [hresult] at harrives
      exact harrives
    · trivial
    · trivial
  · next hfalse =>
    have hstep := step_test_false hlabels htest hw
      (hsimilar.truthy_eq.trans (by simpa using hfalse)) hlabel (by omega)
    have hreached := hcomputed.related.step hstep rfl rfl rfl rfl rfl
    have harrives : Arrives code g b (σ₁.line + 1 + c'.length + 1)
        (body.isValued = true ∧ Similar code g last (σ.frame.round.getD .empty)) s₁ σ₁
        (.value last, s₁) :=
      ⟨_, hreached, rfl, rfl, fun h => by simpa [State.decided, hround] using h.2⟩
    have hend : σ₁.line + 1 + c'.length + 1 + 1 = σ.line + (c.length + c'.length + 4) := by omega
    exact hend ▸ harrives.label hlabel

end

/-- **Statements.** -/
theorem simulates_stmt (hlabels : (Lower.marks code).Nodup) {st : Stmt} {inside inBlock : Bool}
    {k k' : Fresh} {c : List Instr} {id : ScopeId}
    (hlower : Lower.stmt inside st k = .ok ((), c, k')) (hflat : st.isFlat inBlock = true)
    (hbodies : ∀ body ∈ st.fxnBodies, Stmt.areValued body = true)
    (hbase : inBlock = false → id = b) (hroot : inside = false → b = g)
    (hholds : Holds code σ.line c) (hrelated : Related code g b s σ)
    (hreach : Reaches s.memory g b id) (hround : σ.frame.round = none) :
    Arrives code g b (σ.line + c.length)
      (st.isValued = true ∧ (st.emits = true ∨ σ.frame.last = .empty)) s σ
      (Eval.stmt (fuel + 1) st id s) := by
  cases st with
  | missing => cases hlower
  | expr _ e =>
      obtain ⟨o, hc⟩ := Lower.stmt_expr hlower
      exact simulates_exprStmt ih hc hholds hrelated hreach hround And.left
  | ret _ value => exact simulates_ret ih hlower hholds hrelated hreach
  | block _ body =>
      exact simulates_blockStmt ih hlower hflat hbodies hroot hholds hrelated hreach hround
  | declare _ type name init =>
      obtain rfl := hbase (by simpa [Stmt.isFlat] using hflat)
      exact simulates_declare ih hlower hholds hrelated hround
  | ifThen _ cond yes =>
      refine .imp (fun h => h.1) ?_
      exact simulates_ifThen ih hlabels hlower hflat hbodies hbase hroot hholds hrelated hreach
        hround
  | ifElse _ cond yes no =>
      refine .imp (fun h => by simpa [Stmt.isValued] using h.1) ?_
      exact simulates_ifElse ih hlabels hlower hflat hbodies hbase hroot hholds hrelated hreach
        hround
  | loop _ cond body =>
      obtain ⟨o, c, k₁, c', hc, hc', rfl⟩ := Lower.stmt_loop hlower
      have harrives := ih.loop .empty hc hc' hflat hbodies hbase hroot hholds hrelated hreach
      rw [hround] at harrives
      have hlength : (Instr.label k.label :: (c ++ Instr.jumpUnless o (k.label + 1) ::
          (c' ++ [Instr.jump k.label, Instr.label (k.label + 1)]))).length =
          c.length + c'.length + 4 := by
        simp
        omega
      rw [hlength]
      exact harrives.imp fun h => ⟨h.1, .refl rfl⟩
  | fxn _ name params body =>
      rw [Stmt.isFlat, Bool.and_eq_true] at hflat
      obtain rfl := hbase (by simpa using hflat.1)
      obtain ⟨hinside, -⟩ := Lower.stmt_fxn hlower
      obtain rfl := hroot hinside
      exact simulates_fxn hlower hflat.2 hbodies hholds hrelated hround

end

/-- **The machine does what the session does**, within every step budget. -/
theorem simulates (hlabels : (Lower.marks code).Nodup) (fuel : Nat) : Simulates code g fuel := by
  induction fuel with
  | zero =>
      exact
        { expr := fun _ _ _ _ h => by cases h
          args := fun _ _ _ _ h => by cases h
          apply := fun _ _ _ _ _ h => by cases h
          stmt := fun _ _ _ _ _ _ _ _ _ => trivial
          block := fun _ _ _ _ _ _ _ _ _ _ => trivial
          loop := fun _ _ _ _ _ _ _ _ _ _ => trivial }
  | succ fuel ih =>
      exact
        { expr := simulates_expr ih
          args := simulates_args ih
          apply := simulates_apply ih
          stmt := simulates_stmt ih hlabels
          block := simulates_block ih
          loop := simulates_loop ih hlabels }

end Badger.Machine
