import Badger.Proofs.Grammar.Recovery
import Badger.Proofs.Listing.Source
import Badger.Proofs.Tree.Nesting

/-!
# What can be lowered

Whatever the parser makes of a text, with or without syntax errors, has a listing, unless there is a
function inside the body of another one. The first of these is what is reported then.

## Main definitions

* `Stmt.NestsFxn`: that a function stands inside the body of another one
* `Stmt.nestedFxns`: the findings for such functions, in the order of the text
* `Subtree.IsLowerable`: a node for which there are instructions
* `Emit.Stops`: instructions in the making that stop at the first of some findings

## Main statements

* `Lower.stmts_stops`: lowering stops at the first function inside another one, and nowhere else
* `Listing.ofStmts_ofText`: **everything that is read from a text can be lowered**, except functions
  inside functions
-/

namespace Badger

/-! ## Functions inside functions -/

/-- The finding for a function that stands inside another one. -/
def Subtree.nestedFinding? : Subtree → Option Finding
  | .stmt (.fxn pos name _ _) => some ⟨.lowerNested name, pos⟩
  | _ => none

/-- A function of a name at an offset stands inside the body of another one, however deep in
blocks, conditionals and loops. -/
def Stmt.NestsFxn (ss : List Stmt) (pos : Int) (name : Text) : Prop :=
  ∃ outerPos outerName outerParams outerBody params body,
    .stmt (.fxn outerPos outerName outerParams outerBody) ∈ Stmt.listSubtrees ss ∧
      .stmt (.fxn pos name params body) ∈ Stmt.listSubtrees outerBody

mutual

/-- **The functions inside functions** of a statement, in the order of the text; `inside` tells
whether the statement itself stands in the body of a function. -/
def Stmt.nestedFxns (inside : Bool) : Stmt → List Finding
  | .missing | .expr _ _ | .ret _ _ | .declare _ _ _ _ => []
  | .block _ body => Stmt.listNestedFxns inside body
  | .ifThen _ _ yes => yes.nestedFxns inside
  | .ifElse _ _ yes no => yes.nestedFxns inside ++ no.nestedFxns inside
  | .loop _ _ body => body.nestedFxns inside
  | .fxn pos name _ body =>
    (if inside then [⟨.lowerNested name, pos⟩] else []) ++ Stmt.listNestedFxns true body

/-- The functions inside functions of some statements. -/
def Stmt.listNestedFxns (inside : Bool) : List Stmt → List Finding
  | [] => []
  | s :: ss => s.nestedFxns inside ++ Stmt.listNestedFxns inside ss

end

mutual

/-- There is no function in an expression. -/
theorem Expr.filterMap_subtrees (e : Expr) :
    e.subtrees.filterMap Subtree.nestedFinding? = [] := by
  cases e with
  | missing | num | str | bool | ident | symbol => rfl
  | unary pos op operand => exact operand.filterMap_subtrees
  | binary pos op left right =>
      rw [Expr.subtrees, List.filterMap_cons_none rfl, List.filterMap_append,
        left.filterMap_subtrees, right.filterMap_subtrees]
      rfl
  | group pos inner => exact inner.filterMap_subtrees
  | assign pos name value => exact value.filterMap_subtrees
  | call pos callee args =>
      rw [Expr.subtrees, List.filterMap_cons_none rfl, List.filterMap_append,
        callee.filterMap_subtrees, Expr.filterMap_listSubtrees args]
      rfl

theorem Expr.filterMap_listSubtrees (es : List Expr) :
    (Expr.listSubtrees es).filterMap Subtree.nestedFinding? = [] := by
  cases es with
  | nil => rfl
  | cons e es =>
      rw [Expr.listSubtrees, List.filterMap_append, e.filterMap_subtrees,
        Expr.filterMap_listSubtrees es]
      rfl

end

namespace Stmt

mutual

/-- **Inside a function** every function of a statement is one inside another one. -/
theorem nestedFxns_true (s : Stmt) :
    s.nestedFxns true = s.subtrees.filterMap Subtree.nestedFinding? := by
  cases s with
  | missing => rfl
  | expr pos e => exact e.filterMap_subtrees.symm
  | ret pos value => exact value.filterMap_subtrees.symm
  | declare pos type name init => exact init.filterMap_subtrees.symm
  | block pos body => exact listNestedFxns_true body
  | ifThen pos cond yes =>
      rw [subtrees, List.filterMap_cons_none rfl, List.filterMap_append, cond.filterMap_subtrees]
      exact yes.nestedFxns_true
  | loop pos cond body =>
      rw [subtrees, List.filterMap_cons_none rfl, List.filterMap_append, cond.filterMap_subtrees]
      exact body.nestedFxns_true
  | ifElse pos cond yes no =>
      rw [subtrees, List.filterMap_cons_none rfl, List.filterMap_append, cond.filterMap_subtrees,
        List.filterMap_append, ← yes.nestedFxns_true, ← no.nestedFxns_true]
      rfl
  | fxn pos name params body => exact congrArg (_ :: ·) (listNestedFxns_true body)

theorem listNestedFxns_true (ss : List Stmt) :
    listNestedFxns true ss = (listSubtrees ss).filterMap Subtree.nestedFinding? := by
  cases ss with
  | nil => rfl
  | cons s ss =>
      rw [listNestedFxns, listSubtrees, List.filterMap_append, s.nestedFxns_true,
        listNestedFxns_true ss]

end

/-- A finding for a function inside one of the functions among some parts of a tree. -/
def FoundIn (f : Finding) (trees : List Subtree) : Prop :=
  ∃ pos name params body, .stmt (.fxn pos name params body) ∈ trees ∧
    f ∈ listNestedFxns true body

theorem not_foundIn_nil {f : Finding} : ¬FoundIn f [] := by
  simp [FoundIn]

theorem foundIn_append {f : Finding} {trees more : List Subtree} :
    FoundIn f (trees ++ more) ↔ FoundIn f trees ∨ FoundIn f more := by
  simp only [FoundIn, List.mem_append, or_and_right, exists_or]

theorem foundIn_cons {f : Finding} {s : Stmt} {trees : List Subtree} :
    FoundIn f (.stmt s :: trees) ↔
      (∃ pos name params body, s = .fxn pos name params body ∧ f ∈ listNestedFxns true body) ∨
        FoundIn f trees := by
  simp only [FoundIn, List.mem_cons, or_and_right, exists_or, Subtree.stmt.injEq, eq_comm]

theorem not_foundIn_expr {f : Finding} (e : Expr) : ¬FoundIn f e.subtrees := by
  rintro ⟨pos, name, params, body, hmem, -⟩
  have hfound := List.mem_filterMap.mpr ⟨_, hmem, (rfl : Subtree.nestedFinding? _ = some _)⟩
  rw [e.filterMap_subtrees] at hfound
  cases hfound

mutual

/-- A function in the body of a function is one inside another one. -/
theorem mem_nestedFxns {f : Finding} (s : Stmt) (h : FoundIn f s.subtrees) (inside : Bool) :
    f ∈ s.nestedFxns inside := by
  cases s with
  | missing | expr | ret | declare =>
      simp [subtrees, foundIn_cons, not_foundIn_expr, not_foundIn_nil] at h
  | block pos body =>
      simp only [subtrees, foundIn_cons, reduceCtorEq, false_and, exists_false, false_or] at h
      exact mem_listNestedFxns body h inside
  | ifThen pos cond yes =>
      simp only [subtrees, foundIn_cons, foundIn_append, not_foundIn_expr, reduceCtorEq, false_and,
        exists_false, false_or] at h
      exact mem_nestedFxns yes h inside
  | loop pos cond body =>
      simp only [subtrees, foundIn_cons, foundIn_append, not_foundIn_expr, reduceCtorEq, false_and,
        exists_false, false_or] at h
      exact mem_nestedFxns body h inside
  | ifElse pos cond yes no =>
      simp only [subtrees, foundIn_cons, foundIn_append, not_foundIn_expr, reduceCtorEq, false_and,
        exists_false, false_or] at h
      rw [nestedFxns, List.mem_append]
      exact h.imp (mem_nestedFxns yes · inside) (mem_nestedFxns no · inside)
  | fxn pos name params body =>
      rw [subtrees, foundIn_cons] at h
      refine List.mem_append_right _ ?_
      rcases h with ⟨_, _, _, _, heq, hmem⟩ | h
      · cases heq
        exact hmem
      · exact mem_listNestedFxns body h true

theorem mem_listNestedFxns {f : Finding} (ss : List Stmt) (h : FoundIn f (listSubtrees ss))
    (inside : Bool) : f ∈ listNestedFxns inside ss := by
  cases ss with
  | nil => exact absurd h not_foundIn_nil
  | cons s ss =>
      rw [listSubtrees, foundIn_append] at h
      rw [listNestedFxns, List.mem_append]
      exact h.imp (mem_nestedFxns s · inside) (mem_listNestedFxns ss · inside)

end

mutual

/-- Outside of functions there are no other ones. -/
theorem foundIn_of_mem {f : Finding} (s : Stmt) (h : f ∈ s.nestedFxns false) :
    FoundIn f s.subtrees := by
  cases s with
  | missing | expr | ret | declare => cases h
  | block pos body =>
      rw [subtrees, foundIn_cons]
      exact .inr (foundIn_of_mem_list body h)
  | ifThen pos cond yes =>
      rw [subtrees, foundIn_cons, foundIn_append]
      exact .inr (.inr (foundIn_of_mem yes h))
  | loop pos cond body =>
      rw [subtrees, foundIn_cons, foundIn_append]
      exact .inr (.inr (foundIn_of_mem body h))
  | ifElse pos cond yes no =>
      rw [nestedFxns, List.mem_append] at h
      rw [subtrees, foundIn_cons, foundIn_append, foundIn_append]
      exact .inr (.inr (h.imp (foundIn_of_mem yes) (foundIn_of_mem no)))
  | fxn pos name params body =>
      rw [subtrees, foundIn_cons]
      exact .inl ⟨pos, name, params, body, rfl, h⟩

theorem foundIn_of_mem_list {f : Finding} (ss : List Stmt) (h : f ∈ listNestedFxns false ss) :
    FoundIn f (listSubtrees ss) := by
  cases ss with
  | nil => cases h
  | cons s ss =>
      rw [listNestedFxns, List.mem_append] at h
      rw [listSubtrees, foundIn_append]
      exact h.imp (foundIn_of_mem s) (foundIn_of_mem_list ss)

end

/-- **The findings for functions inside functions.** -/
theorem mem_listNestedFxns_iff {f : Finding} {ss : List Stmt} :
    f ∈ listNestedFxns false ss ↔
      ∃ pos name, NestsFxn ss pos name ∧ f = ⟨.lowerNested name, pos⟩ := by
  constructor
  · intro h
    obtain ⟨outerPos, outerName, outerParams, outerBody, houter, hf⟩ := foundIn_of_mem_list ss h
    rw [listNestedFxns_true] at hf
    obtain ⟨t, ht, hfound⟩ := List.mem_filterMap.mp hf
    unfold Subtree.nestedFinding? at hfound
    split at hfound
    · next pos name params body =>
      exact ⟨pos, name, ⟨_, _, _, _, params, body, houter, ht⟩, (Option.some.inj hfound).symm⟩
    · cases hfound
  · rintro ⟨pos, name, ⟨outerPos, outerName, outerParams, outerBody, params, body, houter, hinner⟩,
      rfl⟩
    refine mem_listNestedFxns ss ⟨outerPos, outerName, outerParams, outerBody, houter, ?_⟩ false
    rw [listNestedFxns_true]
    exact List.mem_filterMap.mpr ⟨_, hinner, rfl⟩

mutual

/-- **Functions inside functions stand in the order of the text.** -/
theorem nestedFxns_sublist (inside : Bool) (around : Nat) (s : Stmt) :
    ((s.nestedFxns inside).map Finding.offset).Sublist ((s.nesting around).map place) := by
  cases s with
  | missing | expr | ret | declare => exact List.nil_sublist _
  | block pos body => exact (listNestedFxns_sublist inside (around + 1) body).cons _
  | ifThen pos cond yes => exact (nestedFxns_sublist inside around yes).cons _
  | loop pos cond body => exact (nestedFxns_sublist inside around body).cons _
  | ifElse pos cond yes no =>
      rw [nestedFxns, nesting, List.map_append, List.map_cons, List.map_append]
      exact ((nestedFxns_sublist inside around yes).append
        (nestedFxns_sublist inside around no)).cons _
  | fxn pos name params body =>
      have hbody := listNestedFxns_sublist true (around + 1) body
      cases inside with
      | true => exact hbody.cons_cons pos
      | false => exact hbody.cons pos

theorem listNestedFxns_sublist (inside : Bool) (around : Nat) (ss : List Stmt) :
    ((listNestedFxns inside ss).map Finding.offset).Sublist
      ((listNesting around ss).map place) := by
  cases ss with
  | nil => exact List.nil_sublist _
  | cons s ss =>
      rw [listNestedFxns, listNesting, List.map_append, List.map_append]
      exact (nestedFxns_sublist inside around s).append (listNestedFxns_sublist inside around ss)

end

/-- Missing statements hold no functions. -/
theorem listNestedFxns_kept (inside : Bool) (ss : List Stmt) :
    listNestedFxns inside (kept ss) = listNestedFxns inside ss := by
  induction ss with
  | nil => rfl
  | cons s ss ih =>
      cases s with
      | missing => exact ih
      | _ => exact congrArg (_ ++ ·) ih

end Stmt

/-! ## Instructions in the making -/

namespace Emit

variable {α β : Type}

/-- **Instructions in the making that stop at the first of some findings**, if there are any. -/
def Stops (found : List Finding) (x : Emit α) : Prop :=
  match found with
  | [] => ∀ k, ∃ r, x k = .ok r
  | f :: _ => ∀ k, x k = .error f

theorem Stops.bind {found more : List Finding} {x : Emit α} {f : α → Emit β}
    (hx : Stops found x) (hf : ∀ a, Stops more (f a)) : Stops (found ++ more) (x >>= f) := by
  cases found with
  | cons first others => exact fun k => bind_eq_error (hx k)
  | nil =>
      cases more with
      | cons first others =>
          intro k
          obtain ⟨⟨a, code, k₁⟩, hx⟩ := hx k
          exact bind_eq_error_of_ok hx (hf a k₁)
      | nil =>
          intro k
          obtain ⟨⟨a, code, k₁⟩, hx⟩ := hx k
          obtain ⟨⟨b, rest, k₂⟩, hf⟩ := hf a k₁
          exact ⟨_, bind_eq_ok.mpr ⟨a, code, rest, k₁, hx, hf, rfl⟩⟩

/-- What nothing is found in does not stop what comes after it. -/
theorem Stops.before {found : List Finding} {x : Emit α} {f : α → Emit β} (hx : Stops [] x)
    (hf : ∀ a, Stops found (f a)) : Stops found (x >>= f) :=
  hx.bind hf

/-- What nothing is found in does not stop after what comes before it. -/
theorem Stops.followedBy {found : List Finding} {x : Emit α} {f : α → Emit β} (hx : Stops found x)
    (hf : ∀ a, Stops [] (f a)) : Stops found (x >>= f) :=
  List.append_nil found ▸ hx.bind hf

theorem Stops.pure {a : α} : Stops [] (pure a) := fun _ => ⟨_, rfl⟩

theorem Stops.instr {i : Instr} : Stops [] (instr i) := fun _ => ⟨_, rfl⟩

theorem Stops.temp : Stops [] temp := fun _ => ⟨_, rfl⟩

theorem Stops.label : Stops [] label := fun _ => ⟨_, rfl⟩

theorem Stops.each {f : α → Instr} {as : List α} : Stops [] (each f as) :=
  fun k => ⟨_, each_apply f as k⟩

theorem Stops.load {name : Text} : Stops [] (load name) :=
  Stops.temp.before fun _ => Stops.instr.before fun _ => .pure

end Emit

/-! ## Lowering -/

/-- **A node for which there are instructions**, if there are some for what is below it. -/
def Subtree.IsLowerable : Subtree → Prop
  | .expr .missing | .stmt .missing => False
  | .expr (.unary _ op _) => op.mnemonic?.isSome
  | .expr (.binary _ op _ _) => op.mnemonic?.isSome
  | _ => True

/-- The nodes that the grammar makes of tokens can be lowered. -/
theorem Grammar.MadeOf.lowerable {tokens : Token → Prop} {t : Subtree}
    (h : MadeOf (· ∈ tiers) tokens t) : t.IsLowerable := by
  cases h with
  | unary _ ho => exact isSome_unaryMnemonic ho
  | binary _ htier ho => exact isSome_binaryMnemonic htier ho
  | _ => trivial

namespace Lower

open Emit

mutual

/-- **Lowerable expressions have instructions.** -/
theorem expr_stops (e : Expr) (h : ∀ t ∈ e.subtrees, t.IsLowerable) : Stops [] (expr e) := by
  have hroot := h _ e.mem_subtrees
  cases e with
  | missing => exact hroot.elim
  | num | str | bool =>
      rw [expr]
      exact .pure
  | ident | symbol =>
      rw [expr]
      exact .load
  | group pos inner =>
      simp only [Expr.subtrees, List.forall_mem_cons] at h
      rw [expr]
      exact expr_stops inner h.2
  | assign pos name value =>
      simp only [Expr.subtrees, List.forall_mem_cons] at h
      rw [expr]
      exact (expr_stops value h.2).before fun v => Stops.instr.before fun _ => .pure
  | unary pos op operand =>
      simp only [Expr.subtrees, List.forall_mem_cons] at h
      rw [expr]
      refine (expr_stops operand h.2).before fun v => ?_
      rw [if_neg (by simp [Option.isSome_iff_ne_none.mp hroot])]
      exact Stops.temp.before fun t => Stops.instr.before fun _ => .pure
  | binary pos op left right =>
      simp only [Expr.subtrees, List.forall_mem_cons, List.forall_mem_append] at h
      rw [expr]
      refine (expr_stops left h.2.1).before fun l => (expr_stops right h.2.2).before fun r => ?_
      rw [if_neg (by simp [Option.isSome_iff_ne_none.mp hroot])]
      exact Stops.temp.before fun t => Stops.instr.before fun _ => .pure
  | call pos callee arguments =>
      simp only [Expr.subtrees, List.forall_mem_cons, List.forall_mem_append] at h
      have hcallee := expr_stops callee h.2.1
      have hargs := args_stops arguments h.2.2
      have hrest (target : Target) : Stops [] (do
          let vs ← args arguments
          Emit.each .param vs
          let t ← Emit.temp
          Emit.instr (.call t target vs.length)
          pure (Operand.temp t)) :=
        hargs.before fun vs => Stops.each.before fun _ => Stops.temp.before fun t =>
          Stops.instr.before fun _ => .pure
      by_cases hident : ∃ pos name, callee = .ident pos name
      · obtain ⟨pos', name, rfl⟩ := hident
        rw [expr, pure_bind]
        exact hrest _
      · rw [expr]
        · refine hcallee.before fun c => ?_
          rw [pure_bind]
          exact hrest _
        · exact fun pos' name heq => hident ⟨pos', name, heq⟩

/-- Lowerable arguments have instructions. -/
theorem args_stops (es : List Expr) (h : ∀ t ∈ Expr.listSubtrees es, t.IsLowerable) :
    Stops [] (args es) := by
  cases es with
  | nil =>
      rw [args]
      exact .pure
  | cons e es =>
      simp only [Expr.listSubtrees, List.forall_mem_append] at h
      rw [args]
      exact (expr_stops e h.1).before fun v => (args_stops es h.2).before fun vs => .pure

end

mutual

/-- **Lowering stops at the first function inside another one**, and nowhere else. -/
theorem stmt_stops (inside : Bool) (s : Stmt) (h : ∀ t ∈ s.subtrees, t.IsLowerable) :
    Stops (s.nestedFxns inside) (stmt inside s) := by
  have hroot := h _ s.mem_subtrees
  cases s with
  | missing => exact hroot.elim
  | expr pos e =>
      simp only [Stmt.subtrees, List.forall_mem_cons] at h
      rw [stmt]
      exact (expr_stops e h.2).before fun _ => .pure
  | ret pos value =>
      simp only [Stmt.subtrees, List.forall_mem_cons] at h
      rw [stmt]
      exact (expr_stops value h.2).before fun v => Stops.instr.before fun _ => .instr
  | declare pos type name init =>
      simp only [Stmt.subtrees, List.forall_mem_cons] at h
      rw [stmt]
      exact (expr_stops init h.2).before fun v => Stops.instr.before fun _ => .instr
  | block pos body =>
      simp only [Stmt.subtrees, List.forall_mem_cons] at h
      rw [stmt]
      exact stmts_stops inside body h.2
  | ifThen pos cond yes =>
      simp only [Stmt.subtrees, List.forall_mem_cons, List.forall_mem_append] at h
      rw [stmt]
      refine (expr_stops cond h.2.1).before fun c => Stops.label.before fun after =>
        Stops.instr.before fun _ => ?_
      exact (stmt_stops inside yes h.2.2).followedBy fun _ => .instr
  | ifElse pos cond yes no =>
      simp only [Stmt.subtrees, List.forall_mem_cons, List.forall_mem_append] at h
      rw [stmt]
      refine (expr_stops cond h.2.1).before fun c => Stops.label.before fun otherwise =>
        Stops.instr.before fun _ => ?_
      refine (stmt_stops inside yes h.2.2.1).bind fun _ => Stops.label.before fun after =>
        Stops.instr.before fun _ => Stops.instr.before fun _ => ?_
      exact (stmt_stops inside no h.2.2.2).followedBy fun _ => .instr
  | loop pos cond body =>
      simp only [Stmt.subtrees, List.forall_mem_cons, List.forall_mem_append] at h
      rw [stmt]
      refine Stops.label.before fun top => Stops.label.before fun after =>
        Stops.instr.before fun _ => (expr_stops cond h.2.1).before fun c =>
          Stops.instr.before fun _ => ?_
      refine (stmt_stops inside body h.2.2).followedBy fun _ => ?_
      exact Stops.instr.before fun _ => .instr
  | fxn pos name params body =>
      simp only [Stmt.subtrees, List.forall_mem_cons] at h
      rw [stmt]
      cases inside with
      | true => exact fun _ => rfl
      | false =>
          refine Stops.instr.before fun _ => Stops.each.before fun _ => ?_
          exact (stmts_stops true body h.2).followedBy fun _ => .instr

theorem stmts_stops (inside : Bool) (ss : List Stmt)
    (h : ∀ t ∈ Stmt.listSubtrees ss, t.IsLowerable) :
    Stops (Stmt.listNestedFxns inside ss) (stmts inside ss) := by
  cases ss with
  | nil =>
      rw [stmts]
      exact .pure
  | cons s ss =>
      simp only [Stmt.listSubtrees, List.forall_mem_append] at h
      have hs : s.isMissing = false := by
        cases s with
        | missing => exact (h.1 _ (Stmt.mem_subtrees _)).elim
        | _ => rfl
      rw [stmts_cons_eq inside hs]
      exact (stmt_stops inside s h.1).bind fun _ => stmts_stops inside ss h.2

end

/-- Missing statements are passed over. -/
theorem stmts_kept (inside : Bool) (ss : List Stmt) :
    stmts inside (Stmt.kept ss) = stmts inside ss := by
  induction ss with
  | nil => rfl
  | cons s ss ih =>
      cases hs : s.isMissing with
      | true =>
          obtain rfl : s = .missing := by cases s <;> first | rfl | cases hs
          rw [stmts, ← ih]
          rfl
      | false =>
          have hkept : Stmt.kept (s :: ss) = s :: Stmt.kept ss :=
            List.filter_cons_of_pos (by rw [hs]; rfl)
          rw [hkept, stmts_cons_eq inside hs, stmts_cons_eq inside hs, ih]

end Lower

namespace Listing

open Emit

/-- **Everything that is read from a text can be lowered**, with or without syntax errors, unless a
function stands inside another one; the first such function is reported then, at its name. -/
theorem ofStmts_ofText (text : Text) :
    let ss := (Program.ofTokens (TokenStream.ofText text).tokens 0).stmts
    let lines := (TokenStream.ofText text).lines
    ((∃ code, ofStmts ss lines = .ok code) ↔ ¬∃ pos name, Stmt.NestsFxn ss pos name) ∧
      ∀ d, ofStmts ss lines = .error d → ∃ pos name, Stmt.NestsFxn ss pos name ∧
        d = Diagnostic.locate (.lowerNested name) pos lines ∧
        d.problem.message = utf8 "Cannot lower nested fxn " ++ name ∧
        ∀ pos' name', Stmt.NestsFxn ss pos' name' → pos < pos' ∨ pos' = pos ∧ name' = name := by
  intro ss lines
  obtain ⟨body, ending, htokens, hending, hbody⟩ := TokenStream.ofText_tokens text
  have hordered := TokenStream.pairwise_ofText text
  obtain ⟨read, hsub, hread⟩ := Grammar.derives_kept hending fun t ht => (hbody t ht).2.1
  rw [← htokens] at hsub hread
  have hlowerable : ∀ t ∈ Stmt.listSubtrees (Stmt.kept ss), t.IsLowerable :=
    hread.forall_subtrees (fun _ htier => htier) (fun _ => Grammar.MadeOf.lowerable)
      fun _ _ => trivial
  have hstops : Stops (Stmt.listNestedFxns false ss) (program ss) := by
    have hkept := Lower.stmts_stops false _ hlowerable
    rw [Stmt.listNestedFxns_kept, Lower.stmts_kept] at hkept
    exact hkept.followedBy fun _ => .instr
  -- the functions stand at the offsets of different tokens, in the order of the text
  have hsorted : ((Stmt.listNestedFxns false ss).map Finding.offset).Pairwise (· < ·) := by
    have hplaces := (Stmt.listNestedFxns_sublist false 0 (Stmt.kept ss)).trans
      ((hread.nesting_sublist 0).trans (hsub.map Token.offset))
    rw [Stmt.listNestedFxns_kept] at hplaces
    exact (List.pairwise_map.mpr hordered).sublist hplaces
  cases hfound : Stmt.listNestedFxns false ss with
  | nil =>
      have hnone : ¬∃ pos name, Stmt.NestsFxn ss pos name := by
        rintro ⟨pos, name, hnests⟩
        have hmem := Stmt.mem_listNestedFxns_iff.mpr ⟨pos, name, hnests, rfl⟩
        rw [hfound] at hmem
        cases hmem
      rw [hfound] at hstops
      obtain ⟨⟨done, code, k⟩, hprogram⟩ := hstops {}
      have hlisting : ofStmts ss lines = .ok code := by rw [ofStmts, hprogram]
      refine ⟨⟨fun _ => hnone, fun _ => ⟨code, hlisting⟩⟩, fun d hd => ?_⟩
      rw [hlisting] at hd
      cases hd
  | cons first others =>
      have hmem (f : Finding) := @Stmt.mem_listNestedFxns_iff f ss
      rw [hfound] at hstops hsorted hmem
      obtain ⟨pos, name, hnests, rfl⟩ := (hmem first).mp List.mem_cons_self
      have hlisting : ofStmts ss lines =
          .error (Diagnostic.locate (.lowerNested name) pos lines) := by
        rw [ofStmts, hstops {}]
        rfl
      refine ⟨⟨?_, fun hnone => absurd ⟨pos, name, hnests⟩ hnone⟩, ?_⟩
      · rintro ⟨code, hcode⟩
        rw [hlisting] at hcode
        cases hcode
      · intro d hd
        rw [hlisting] at hd
        cases hd
        refine ⟨pos, name, hnests, rfl, rfl, fun pos' name' hnests' => ?_⟩
        rw [List.map_cons, List.pairwise_cons] at hsorted
        rcases List.mem_cons.mp ((hmem _).mpr ⟨pos', name', hnests', rfl⟩) with heq | hlater
        · cases heq
          exact .inr ⟨rfl, rfl⟩
        · exact .inl (hsorted.1 _ (List.mem_map_of_mem hlater))

end Listing

end Badger
