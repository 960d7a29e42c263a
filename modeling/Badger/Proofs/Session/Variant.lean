import Badger.Proofs.Scope.Recast
import Badger.Proofs.Tree.Offsets
import Badger.Proofs.Tree.Pruning
import Badger.Session.Run

/-!
# Variants of a session

A session can differ from another one in many ways that a program does not notice: in the scopes
that were opened before, in what was written before, in wider limits, in that returns are not
echoed, in dead code, in the places of its parts, which are only ever reported.

## Main definitions

* `Variant`: in what a session differs from another one
* `Variant.OfSession`, `Variant.InStep`: that one session is a variant of another
* `Variant.session`: the variant of a session, where there is only one

## Main statements

* `Variant.inStep_session`, `Variant.InStep.eq_session`: the variant of a session, and no other
* `Variant.InStep.bind`, `Variant.InStep.write`, `Variant.InStep.enter`: changes keep in step

## Design notes

One relation serves for all differences, so that evaluation is gone through once. Each difference
has a field of its own; a field that is left out admits no difference.
-/

namespace Badger

/-- Whether something was printed, and is not the echo of a return. -/
def Write.isPrinted : Write → Bool
  | .printed _ => true
  | .echoed _ => false

/-- **The diagnostic without its place**: the problem and the active calls. -/
def Diagnostic.bare (d : Diagnostic) : Diagnostic :=
  { Diagnostic.locate d.problem 0 #[] with stack := d.stack }

/-! ## Variants -/

/-- **In what a session differs from another one.** -/
structure Variant where
  /-- How many scopes there are before those of the other session. -/
  older : Nat := 0
  /-- What was written before that of the other session. -/
  earlier : List Write := []
  /-- Whether returns are not echoed. -/
  muted : Bool := false
  /-- Whether limits may be wider. -/
  wider : Bool := false
  /-- Whether programs are without dead code. -/
  pruned : Bool := false
  /-- Whether all places are taken out. -/
  unplaced : Bool := false

namespace Variant

variable (V : Variant)

/-- The offset in the variant. -/
def pos (p : Int) : Int := if V.unplaced then 0 else p

/-- The expression that is evaluated in the variant. -/
def expr (e : Expr) : Expr := e.mapPos V.pos

/-- The statement that is run in the variant. -/
def stmt (s : Stmt) : Stmt := (if V.pruned then s.prune else s).mapPos V.pos

/-- The statements that are run in the variant. -/
def stmts (ss : List Stmt) : List Stmt :=
  (if V.pruned then Stmt.listPrune ss else ss).map (Stmt.mapPos V.pos)

/-- The chunk that is active in the variant. -/
def chunk (c : Chunk) : Chunk := if V.unplaced then {} else c

/-- The diagnostic in the variant. -/
def diagnostic (d : Diagnostic) : Diagnostic := if V.unplaced then d.bare else d

/-- How the memory of the variant differs: functions have the bodies and the chunks of the variant,
and remember their scopes by other numbers. -/
def recast : Recast where
  closure c :=
    { c with body := V.stmts c.body, scope := c.scope + V.older, chunk := V.chunk c.chunk }
  name_closure _ := rfl
  arity_closure _ := rfl
  params_closure _ := rfl
  older := V.older
  wider := V.wider

/-- The value in the variant. -/
abbrev value (v : Value) : Value := V.recast.value v

/-- The number of a scope in the variant. -/
abbrev scope (id : ScopeId) : ScopeId := V.recast.scope id

/-- Whether something is written in the variant too. -/
def shows (w : Write) : Bool := w.isPrinted || !V.muted

/-- **What is written in the variant.** -/
def writes (ws : List Write) : List Write := V.earlier ++ ws.filter V.shows

/-- **One session is a variant of another**, apart from the active chunk. -/
structure OfSession (s s' : Session) : Prop where
  memory : V.recast.OfMemory s.memory s'.memory
  globals_eq : s'.globals = V.scope s.globals
  callStack_eq : s'.callStack = s.callStack
  callDepth : V.recast.Admits s.options.callDepth s'.options.callDepth
  scopeDepth : V.recast.Admits s.options.scopeDepth s'.options.scopeDepth
  echo_eq : s'.options.echoReturns = (s.options.echoReturns && !V.muted)
  strict_eq : s'.options.strict = s.options.strict
  writes_eq : s'.writes.toList = V.writes s.writes.toList

/-- **One session is a variant of another**, the active chunk included. -/
structure InStep (s s' : Session) : Prop extends V.OfSession s s' where
  chunk_eq : s'.chunk = V.chunk s.chunk

/-! ## Programs and writes -/

theorem expr_call (pos : Int) (callee : Expr) (arguments : List Expr) :
    V.expr (.call pos callee arguments) =
      .call (V.pos pos) (V.expr callee) (arguments.map V.expr) :=
  congrArg (Expr.call _ _) (Expr.listMapPos_eq_map V.pos arguments)

theorem stmt_leaf {s : Stmt} (h : s.prune = s) : V.stmt s = s.mapPos V.pos := by
  unfold stmt
  rw [h, ite_self]

theorem stmt_block (pos : Int) (body : List Stmt) :
    V.stmt (.block pos body) = .block (V.pos pos) (V.stmts body) := by
  unfold stmt stmts
  rw [← Stmt.listMapPos_eq_map]
  split <;> rfl

theorem stmt_ifThen (pos : Int) (cond : Expr) (yes : Stmt) :
    V.stmt (.ifThen pos cond yes) = .ifThen (V.pos pos) (V.expr cond) (V.stmt yes) := by
  unfold stmt
  split <;> rfl

theorem stmt_ifElse (pos : Int) (cond : Expr) (yes no : Stmt) :
    V.stmt (.ifElse pos cond yes no) =
      .ifElse (V.pos pos) (V.expr cond) (V.stmt yes) (V.stmt no) := by
  unfold stmt
  split <;> rfl

theorem stmt_loop (pos : Int) (cond : Expr) (body : Stmt) :
    V.stmt (.loop pos cond body) = .loop (V.pos pos) (V.expr cond) (V.stmt body) := by
  unfold stmt
  split <;> rfl

theorem stmt_fxn (pos : Int) (name : Text) (params : List Text) (body : List Stmt) :
    V.stmt (.fxn pos name params body) = .fxn (V.pos pos) name params (V.stmts body) := by
  unfold stmt stmts
  rw [← Stmt.listMapPos_eq_map]
  split <;> rfl

@[simp] theorem isMissing_stmt (s : Stmt) : (V.stmt s).isMissing = s.isMissing := by
  rw [stmt, Stmt.isMissing_mapPos]
  split
  · exact s.isMissing_prune
  · rfl

@[simp] theorem stmts_nil : V.stmts [] = [] := by
  unfold stmts
  split <;> rfl

/-- Only what follows a return is left out. -/
theorem stmts_cons (s : Stmt) (ss : List Stmt) :
    V.stmts (s :: ss) = V.stmt s :: V.stmts ss ∨
      s.isReturn = true ∧ V.stmts (s :: ss) = [V.stmt s] := by
  unfold stmts stmt
  cases V.pruned with
  | false => exact .inl rfl
  | true =>
      cases hs : s.isReturn with
      | false => exact .inl (congrArg (List.map _) (Stmt.listPrune_cons hs ss))
      | true =>
          refine .inr ⟨rfl, ?_⟩
          rw [if_pos rfl, if_pos rfl, Stmt.listPrune, hs]
          rfl

theorem writes_append (ws ws' : List Write) :
    V.writes (ws ++ ws') = V.writes ws ++ ws'.filter V.shows := by
  unfold writes
  rw [List.filter_append, List.append_assoc]

variable {V}

/-- Where echoes are not left out, nothing is. -/
theorem writes_eq_append (hmuted : V.muted = false) (ws : List Write) :
    V.writes ws = V.earlier ++ ws := by
  have hshows (w : Write) : V.shows w = true := by simp [shows, hmuted]
  rw [writes, List.filter_eq_self.mpr fun w _ => hshows w]

/-- Where echoes are left out, what is printed remains. -/
theorem writes_eq_filter (hmuted : V.muted = true) (ws : List Write) :
    V.writes ws = V.earlier ++ ws.filter Write.isPrinted := by
  have hshows : V.shows = Write.isPrinted := funext fun w => by simp [shows, hmuted]
  rw [writes, hshows]

/-! ## The variant of a session -/

/-- **The session in the variant**, where only programs and places differ. -/
def session (V : Variant) (s : Session) : Session :=
  { s with memory := V.recast.castMemory s.memory, chunk := V.chunk s.chunk }

section

variable {pruned unplaced : Bool}

theorem inStep_session (s : Session) :
    ({ pruned := pruned, unplaced := unplaced } : Variant).InStep s
      (session { pruned := pruned, unplaced := unplaced } s) where
  memory := Recast.ofMemory_cast rfl s.memory
  globals_eq := rfl
  callStack_eq := rfl
  callDepth := .inl rfl
  scopeDepth := .inl rfl
  echo_eq := (Bool.and_true _).symm
  strict_eq := rfl
  writes_eq := by
    rw [writes_eq_append rfl]
    rfl
  chunk_eq := rfl

/-- Where only programs and places differ, a session has one variant. -/
theorem InStep.eq_session {s s' : Session}
    (hs : ({ pruned := pruned, unplaced := unplaced } : Variant).InStep s s') :
    s' = session { pruned := pruned, unplaced := unplaced } s := by
  have hwrites : s'.writes = s.writes :=
    Array.toList_inj.mp (hs.writes_eq.trans (writes_eq_append rfl _))
  obtain ⟨⟨scopeDepth, callDepth, echoReturns, strict⟩, memory, globals, chunk, callStack,
    writes⟩ := s'
  obtain rfl : scopeDepth = s.options.scopeDepth :=
    hs.scopeDepth.resolve_right fun h => Bool.noConfusion h.1
  obtain rfl : callDepth = s.options.callDepth :=
    hs.callDepth.resolve_right fun h => Bool.noConfusion h.1
  obtain rfl : echoReturns = s.options.echoReturns := hs.echo_eq.trans (Bool.and_true _)
  obtain rfl : strict = s.options.strict := hs.strict_eq
  obtain rfl := hs.memory.eq_cast rfl rfl
  obtain rfl : globals = s.globals := hs.globals_eq
  obtain rfl := hs.chunk_eq
  obtain rfl := hs.callStack_eq
  obtain rfl := hwrites
  rfl

end

namespace InStep

variable {s s' : Session} (hs : V.InStep s s')

include hs

theorem diagnose_eq (p : Problem) (pos : Int) :
    s'.diagnose p (V.pos pos) = V.diagnostic (s.diagnose p pos) := by
  unfold Session.diagnose Variant.diagnostic Variant.pos
  rw [hs.callStack_eq, hs.chunk_eq, Variant.chunk]
  cases V.unplaced <;> rfl

theorem bind (id : ScopeId) (name : Text) (v : Value) :
    V.InStep (s.updateMemory fun m => m.bind id name v)
      (s'.updateMemory fun m => m.bind (V.scope id) name (V.value v)) :=
  ⟨{ hs.toOfSession with memory := hs.memory.bind id name v }, hs.chunk_eq⟩

theorem rebind (id : ScopeId) (name : Text) (v : Value) :
    V.InStep (s.updateMemory fun m => m.rebind id name v)
      (s'.updateMemory fun m => m.rebind (V.scope id) name (V.value v)) :=
  ⟨{ hs.toOfSession with memory := hs.memory.rebind id name v }, hs.chunk_eq⟩

/-- Writing something that is written in the variant too. -/
theorem write {w : Write} (hw : V.shows w = true) : V.InStep (s.write w) (s'.write w) := by
  refine ⟨{ hs.toOfSession with writes_eq := ?_ }, hs.chunk_eq⟩
  show (s'.writes.push w).toList = V.writes (s.writes.push w).toList
  rw [Array.toList_push, Array.toList_push, writes_append, hs.writes_eq, List.filter_cons,
    if_pos hw]
  rfl

/-- Writing something that is left out in the variant. -/
theorem write_left {w : Write} (hw : V.shows w = false) : V.InStep (s.write w) s' := by
  refine ⟨{ hs.toOfSession with writes_eq := ?_ }, hs.chunk_eq⟩
  show s'.writes.toList = V.writes (s.writes.push w).toList
  rw [Array.toList_push, writes_append, hs.writes_eq, List.filter_cons, if_neg (by simp [hw])]
  exact (List.append_nil _).symm

theorem enter (c : Closure) : V.InStep (s.enter c) (s'.enter (V.recast.closure c)) := by
  refine ⟨{ hs.toOfSession with callStack_eq := ?_ }, ?_⟩
  · exact congrArg (Array.push · c.name) hs.callStack_eq
  · show (if (V.chunk c.chunk).lines.isSome then V.chunk c.chunk else s'.chunk) =
      V.chunk (if c.chunk.lines.isSome then c.chunk else s.chunk)
    rw [hs.chunk_eq]
    unfold Variant.chunk
    cases V.unplaced <;> rfl

theorem leave (caller : Chunk) : V.InStep (s.leave caller) (s'.leave (V.chunk caller)) :=
  ⟨{ hs.toOfSession with callStack_eq := congrArg Array.pop hs.callStack_eq }, rfl⟩

end InStep

end Variant

end Badger
