import Badger.Proofs.Grammar.Subtree
import Badger.Proofs.Listing.Correspondence
import Badger.Proofs.Listing.Reading
import Badger.Proofs.Session.Splitting
import Badger.Proofs.Token.Lexical

/-!
# Listings of program texts

The trees that are read from a text have names, literals and operators of the language. So their
instructions are readable, and a program without functions always has a listing.

## Main definitions

* `Subtree.IsReadable`: a node whose name, literal or operator is one of the language
* `Emit.Writes`: instructions in the making that are readable

## Main statements

* `Grammar.Derives.readable`: what the grammar derives from lexical tokens is readable
* `Lower.stmts_writes`: readable trees have readable instructions
* `Session.readable_of_readChunk`: **the trees of a text are readable**, unless it has a name that
  looks like a temporary
* `Listing.mapM_read?_render`: **the lines of a listing read back**
-/

namespace Badger

/-! ## Names -/

theorem isReadableName_of_isNameText {name : Text} (h : IsNameText name)
    (hkeyword : name ∉ TokenKind.keywords.map Prod.fst) (htemp : tempNumber? name = none) :
    IsReadableName name := by
  obtain ⟨⟨b, rest, hcons, hdigit⟩, hbytes⟩ := h
  have hmark : ∀ c ∈ name, c ≠ Words.blank ∧ c ≠ 34 := by
    intro c hc
    have hname := hbytes c hc
    constructor
    all_goals
      rintro rfl
      exact absurd hname (by decide)
  refine ⟨Words.isWord_of_forall hmark, ?_⟩
  have hhead : name.head? = some b := by rw [hcons]; rfl
  have htrue : name ≠ utf8 "true" := by
    rintro rfl
    exact hkeyword (by decide)
  have hfalse : name ≠ utf8 "false" := by
    rintro rfl
    exact hkeyword (by decide)
  rw [Operand.read?, hhead]
  simp only [if_neg (hmark b (by simp [hcons])).2, if_neg htrue, if_neg hfalse, htemp, hdigit,
    Bool.false_eq_true, if_false, Option.map_none]

/-! ## Trees -/

/-- **Readable nodes.** Names are readable, numbers are finite and not negative, and operators
have a word in listings. A missing node is not readable. -/
def Subtree.IsReadable : Subtree → Prop
  | .expr .missing | .stmt .missing => False
  | .expr (.num _ x) => (Operand.num x).IsReadable
  | .expr (.ident _ name) | .expr (.symbol _ name) | .expr (.assign _ name _) =>
    IsReadableName name
  | .expr (.unary _ op _) => op.mnemonic?.isSome
  | .expr (.binary _ op _ _) => op.mnemonic?.isSome
  | .stmt (.declare _ _ name _) => IsReadableName name
  | .stmt (.fxn _ name params _) => IsReadableName name ∧ ∀ p ∈ params, IsReadableName p
  | _ => True

/-- Tokens from which readable nodes are made. -/
structure Token.IsReadable (t : Token) : Prop where
  name : t.kind = .ident → IsReadableName t.lexeme
  number : t.kind = .number → (Operand.num t.number).IsReadable

theorem Token.IsLexical.readable {t : Token} (h : t.IsLexical)
    (htemp : t.kind = .ident → tempNumber? t.lexeme = none) : t.IsReadable :=
  ⟨fun hkind => isReadableName_of_isNameText (h.name hkind).1 (h.name hkind).2 (htemp hkind),
    h.number⟩

namespace Grammar

/-- What it means for a phrase that its tree is readable. A repetition adds only readable nodes to
the tree that it starts with. -/
def Phrase.IsReadable : Phrase → Prop
  | .primary e | .call e | .unary e | .expression e => ∀ t ∈ e.subtrees, t.IsReadable
  | .operators levels e => (∀ tier ∈ levels, tier ∈ tiers) → ∀ t ∈ e.subtrees, t.IsReadable
  | .calls callee e => (∀ t ∈ callee.subtrees, t.IsReadable) → ∀ t ∈ e.subtrees, t.IsReadable
  | .operatorsAfter tier tighter left e =>
      (∀ level ∈ tier :: tighter, level ∈ tiers) → (∀ t ∈ left.subtrees, t.IsReadable) →
        ∀ t ∈ e.subtrees, t.IsReadable
  | .expressions es | .arguments es => ∀ t ∈ Expr.listSubtrees es, t.IsReadable
  | .names ns | .parameters ns => ∀ n ∈ ns, IsReadableName n
  | .statement s | .declaration s => ∀ t ∈ s.subtrees, t.IsReadable
  | .declarations ss => ∀ t ∈ Stmt.listSubtrees ss, t.IsReadable

/-- The operators of the grammar have words in listings. -/
theorem isSome_binaryMnemonic {tier : Tier} {kind : TokenKind} {o : BinaryOp} (htier : tier ∈ tiers)
    (ho : (kind, o) ∈ tier) : o.mnemonic?.isSome = true := by
  have hall : ∀ tier ∈ tiers, ∀ p ∈ tier, p.2.mnemonic?.isSome = true := by decide
  exact hall tier htier _ ho

theorem isSome_unaryMnemonic {kind : TokenKind} {o : UnaryOp} (ho : (kind, o) ∈ unaryOps) :
    o.mnemonic?.isSome = true := by
  have hall : ∀ p ∈ unaryOps, p.2.mnemonic?.isSome = true := by decide
  exact hall _ ho

theorem WrittenBy.isReadableName {name : Text} (h : WrittenBy Token.IsReadable name) :
    IsReadableName name := by
  obtain ⟨t, ht, hk, rfl⟩ := h
  exact ht.name hk

/-- The nodes that the grammar makes of readable tokens are readable. -/
theorem MadeOf.readable {t : Subtree} (h : MadeOf (· ∈ tiers) Token.IsReadable t) :
    t.IsReadable := by
  cases h with
  | num ht hk => exact ht.number hk
  | zero => exact ⟨0, by decide, by decide⟩
  | ident ht hk | assign ht hk | declare ht hk => exact ht.name hk
  | symbol _ hname => exact hname.isReadableName
  | unary _ ho => exact isSome_unaryMnemonic ho
  | binary _ htier ho => exact isSome_binaryMnemonic htier ho
  | fxn ht hk hparams => exact ⟨ht.name hk, fun n hn => (hparams n hn).isReadableName⟩
  | _ => trivial

/-- **What the grammar derives from readable tokens is readable.** -/
theorem Derives.readable {p : Phrase} {ts : List Token} (h : Derives p ts)
    (hts : ∀ t ∈ ts, t.IsReadable) : p.IsReadable := by
  have hall := h.forall_subtrees (fun _ htier => htier) (fun _ => MadeOf.readable) hts
  cases p with
  | names ns | parameters ns => exact fun n hn => (hall n hn).isReadableName
  | _ => exact hall

end Grammar

/-! ## Instructions in the making -/

namespace Emit

variable {α β : Type} {simple : Prop} {P : α → Prop} {Q : β → Prop}

/-- An instruction is readable and, if `simple`, no part of the frame of a function. -/
def Fits (simple : Prop) (i : Instr) : Prop := i.IsReadable ∧ (simple → i.frames = false)

/-- **Readable instructions in the making**: if there are any, they are readable and the result has
the property `P`. If `simple`, there are some, and none frames a function. -/
def Writes (simple : Prop) (P : α → Prop) (x : Emit α) : Prop :=
  ∀ k, match x k with
    | .ok (a, code, _) => P a ∧ ∀ i ∈ code, Fits simple i
    | .error _ => ¬simple

theorem Writes.pure {a : α} (h : P a) : Writes simple P (pure a) :=
  fun _ => ⟨h, List.forall_mem_nil _⟩

theorem Writes.bind {x : Emit α} {f : α → Emit β} (hx : Writes simple P x)
    (hf : ∀ a, P a → Writes simple Q (f a)) : Writes simple Q (x >>= f) := by
  intro k
  have hx := hx k
  simp only [Bind.bind]
  rcases hxk : x k with e | ⟨a, code, k₁⟩
  · rw [hxk] at hx
    exact hx
  · rw [hxk] at hx
    have hf := hf a hx.1 k₁
    rcases hfk : f a k₁ with e | ⟨b, more, k₂⟩
    · rw [hfk] at hf
      simpa [hfk] using hf
    · rw [hfk] at hf
      simp only [hfk]
      exact ⟨hf.1, List.forall_mem_append.mpr ⟨hx.2, hf.2⟩⟩

theorem Writes.instr {i : Instr} (h : i.IsReadable) (hframes : i.frames = false) :
    Writes simple (fun _ => True) (instr i) :=
  fun _ => ⟨trivial, List.forall_mem_singleton.mpr ⟨h, fun _ => hframes⟩⟩

theorem Writes.frame {i : Instr} (h : i.IsReadable) (hsimple : ¬simple) :
    Writes simple (fun _ => True) (Emit.instr i) :=
  fun _ => ⟨trivial, List.forall_mem_singleton.mpr ⟨h, fun hs => (hsimple hs).elim⟩⟩

theorem Writes.temp : Writes simple (fun _ => True) temp :=
  fun _ => ⟨trivial, List.forall_mem_nil _⟩

theorem Writes.label : Writes simple (fun _ => True) label :=
  fun _ => ⟨trivial, List.forall_mem_nil _⟩

theorem Writes.each {f : α → Instr} {as : List α} (h : ∀ a ∈ as, Fits simple (f a)) :
    Writes simple (fun _ => True) (each f as) := by
  intro k
  rw [each_apply]
  exact ⟨trivial, List.forall_mem_map.mpr h⟩

theorem Writes.load {name : Text} (h : IsReadableName name) :
    Writes simple Operand.IsReadable (load name) :=
  Writes.temp.bind fun _ _ => Writes.bind (.instr h rfl) fun _ _ => Writes.pure trivial

end Emit

/-! ## Listings -/

namespace Lower

open Emit

variable {simple : Prop}

mutual

/-- **Readable expressions have readable instructions**, and the operand is readable. -/
theorem expr_writes (e : Expr) (h : ∀ t ∈ e.subtrees, t.IsReadable) :
    Writes simple Operand.IsReadable (expr e) := by
  have hroot := h _ e.mem_subtrees
  cases e with
  | missing => exact hroot.elim
  | num pos x =>
      rw [expr]
      exact .pure hroot
  | str pos t =>
      rw [expr]
      exact .pure trivial
  | bool pos b =>
      rw [expr]
      exact .pure trivial
  | ident pos name =>
      rw [expr]
      exact .load hroot
  | symbol pos name =>
      rw [expr]
      exact .load hroot
  | group pos inner =>
      simp only [Expr.subtrees, List.forall_mem_cons] at h
      rw [expr]
      exact expr_writes inner h.2
  | assign pos name value =>
      simp only [Expr.subtrees, List.forall_mem_cons] at h
      rw [expr]
      refine (expr_writes value h.2).bind fun v hv => ?_
      exact Writes.bind (.instr ⟨hroot, hv⟩ rfl) fun _ _ => .pure hv
  | unary pos op operand =>
      simp only [Expr.subtrees, List.forall_mem_cons] at h
      rw [expr]
      refine (expr_writes operand h.2).bind fun v hv => ?_
      rw [if_neg (by simp [Option.isSome_iff_ne_none.mp hroot])]
      refine Writes.temp.bind fun t _ => ?_
      exact Writes.bind (.instr ⟨hroot, hv⟩ rfl) fun _ _ => .pure trivial
  | binary pos op left right =>
      simp only [Expr.subtrees, List.forall_mem_cons, List.forall_mem_append] at h
      rw [expr]
      refine (expr_writes left h.2.1).bind fun l hl => ?_
      refine (expr_writes right h.2.2).bind fun r hr => ?_
      rw [if_neg (by simp [Option.isSome_iff_ne_none.mp hroot])]
      refine Writes.temp.bind fun t _ => ?_
      exact Writes.bind (.instr ⟨hroot, hl, hr⟩ rfl) fun _ _ => .pure trivial
  | call pos callee arguments =>
      simp only [Expr.subtrees, List.forall_mem_cons, List.forall_mem_append] at h
      have hcallee : Writes simple Operand.IsReadable (expr callee) := expr_writes callee h.2.1
      have hrest : ∀ target : Target, target.IsReadable → Writes simple Operand.IsReadable (do
          let vs ← args arguments
          Emit.each .param vs
          let t ← Emit.temp
          Emit.instr (.call t target vs.length)
          pure (Operand.temp t)) := by
        intro target htarget
        refine (args_writes arguments h.2.2).bind fun vs hvs => ?_
        refine Writes.bind (.each fun v hv => ⟨hvs v hv, fun _ => rfl⟩) fun _ _ => ?_
        refine Writes.temp.bind fun t _ => ?_
        exact Writes.bind (.instr htarget rfl) fun _ _ => .pure trivial
      by_cases hident : ∃ pos name, callee = .ident pos name
      · obtain ⟨pos', name, rfl⟩ := hident
        have hname : IsReadableName name := h.2.1 _ (Expr.mem_subtrees _)
        rw [expr, pure_bind]
        exact hrest _ hname
      · rw [expr]
        · refine hcallee.bind fun c hc => ?_
          rw [pure_bind]
          exact hrest _ hc
        · rintro pos' name rfl
          exact hident ⟨pos', name, rfl⟩

/-- Readable arguments have readable instructions and operands. -/
theorem args_writes (es : List Expr) (h : ∀ t ∈ Expr.listSubtrees es, t.IsReadable) :
    Writes simple (fun vs => ∀ v ∈ vs, v.IsReadable) (args es) := by
  cases es with
  | nil =>
      rw [args]
      exact .pure (List.forall_mem_nil _)
  | cons e es =>
      simp only [Expr.listSubtrees, List.forall_mem_append] at h
      rw [args]
      refine (expr_writes e h.1).bind fun v hv => ?_
      refine (args_writes es h.2).bind fun vs hvs => ?_
      exact .pure (List.forall_mem_cons.mpr ⟨hv, hvs⟩)

end

mutual

/-- **Readable statements have readable instructions**, and have some if they declare no
function. -/
theorem stmt_writes (inside : Bool) (s : Stmt) (h : ∀ t ∈ s.subtrees, t.IsReadable)
    (hsimple : simple → s.fxnBodies = []) : Writes simple (fun _ => True) (stmt inside s) := by
  have hroot := h _ s.mem_subtrees
  cases s with
  | missing => exact hroot.elim
  | expr pos e =>
      simp only [Stmt.subtrees, List.forall_mem_cons] at h
      rw [stmt]
      exact (expr_writes e h.2).bind fun _ _ => .pure trivial
  | ret pos value =>
      simp only [Stmt.subtrees, List.forall_mem_cons] at h
      rw [stmt]
      refine (expr_writes value h.2).bind fun v hv => ?_
      exact Writes.bind (.instr hv rfl) fun _ _ => .instr hv rfl
  | declare pos type name init =>
      simp only [Stmt.subtrees, List.forall_mem_cons] at h
      rw [stmt]
      refine (expr_writes init h.2).bind fun v hv => ?_
      exact Writes.bind (.instr hroot rfl) fun _ _ => .instr ⟨hroot, hv⟩ rfl
  | block pos body =>
      simp only [Stmt.subtrees, List.forall_mem_cons] at h
      rw [stmt]
      exact stmts_writes inside body h.2 hsimple
  | ifThen pos cond yes =>
      simp only [Stmt.subtrees, List.forall_mem_cons, List.forall_mem_append] at h
      rw [stmt]
      refine (expr_writes cond h.2.1).bind fun c hc => ?_
      refine Writes.label.bind fun after _ => ?_
      refine Writes.bind (.instr hc rfl) fun _ _ => ?_
      refine (stmt_writes inside yes h.2.2 hsimple).bind fun _ _ => ?_
      exact .instr trivial rfl
  | ifElse pos cond yes no =>
      simp only [Stmt.subtrees, List.forall_mem_cons, List.forall_mem_append] at h
      have hparts : simple → yes.fxnBodies = [] ∧ no.fxnBodies = [] :=
        fun ht => List.append_eq_nil_iff.mp (hsimple ht)
      rw [stmt]
      refine (expr_writes cond h.2.1).bind fun c hc => ?_
      refine Writes.label.bind fun otherwise _ => ?_
      refine Writes.bind (.instr hc rfl) fun _ _ => ?_
      refine (stmt_writes inside yes h.2.2.1 fun ht => (hparts ht).1).bind fun _ _ => ?_
      refine Writes.label.bind fun after _ => ?_
      refine Writes.bind (.instr trivial rfl) fun _ _ => ?_
      refine Writes.bind (.instr trivial rfl) fun _ _ => ?_
      refine (stmt_writes inside no h.2.2.2 fun ht => (hparts ht).2).bind fun _ _ => ?_
      exact .instr trivial rfl
  | loop pos cond body =>
      simp only [Stmt.subtrees, List.forall_mem_cons, List.forall_mem_append] at h
      rw [stmt]
      refine Writes.label.bind fun top _ => ?_
      refine Writes.label.bind fun after _ => ?_
      refine Writes.bind (.instr trivial rfl) fun _ _ => ?_
      refine (expr_writes cond h.2.1).bind fun c hc => ?_
      refine Writes.bind (.instr hc rfl) fun _ _ => ?_
      refine (stmt_writes inside body h.2.2 hsimple).bind fun _ _ => ?_
      refine Writes.bind (.instr trivial rfl) fun _ _ => ?_
      exact .instr trivial rfl
  | fxn pos name params body =>
      simp only [Stmt.subtrees, List.forall_mem_cons] at h
      have hpartial : ¬simple := fun ht => List.cons_ne_nil _ _ (hsimple ht)
      rw [stmt]
      split
      · exact fun _ => hpartial
      · refine Writes.bind (.frame hroot.1 hpartial) fun _ _ => ?_
        refine Writes.bind (.each fun p hp => ⟨hroot.2 p hp, fun ht => (hpartial ht).elim⟩)
          fun _ _ => ?_
        refine (stmts_writes true body h.2 fun ht => (hpartial ht).elim).bind fun _ _ => ?_
        exact .frame trivial hpartial

/-- Readable lists of statements have readable instructions, and have some if they declare no
function. -/
theorem stmts_writes (inside : Bool) (ss : List Stmt)
    (h : ∀ t ∈ Stmt.listSubtrees ss, t.IsReadable) (hsimple : simple → Stmt.listFxnBodies ss = []) :
    Writes simple (fun _ => True) (stmts inside ss) := by
  cases ss with
  | nil =>
      rw [stmts]
      exact .pure trivial
  | cons s ss =>
      simp only [Stmt.listSubtrees, List.forall_mem_append] at h
      have hparts : simple → s.fxnBodies = [] ∧ Stmt.listFxnBodies ss = [] :=
        fun ht => List.append_eq_nil_iff.mp (hsimple ht)
      have hne : s = .missing → False := by
        rintro rfl
        exact h.1 _ (Stmt.mem_subtrees _)
      rw [stmts.eq_3 _ _ _ hne]
      refine (stmt_writes inside s h.1 fun ht => (hparts ht).1).bind fun _ _ => ?_
      exact stmts_writes inside ss h.2 fun ht => (hparts ht).2

end

end Lower

namespace Listing

variable {stmts : List Stmt}

theorem program_writes {simple : Prop} (h : ∀ t ∈ Stmt.listSubtrees stmts, t.IsReadable)
    (hsimple : simple → Stmt.listFxnBodies stmts = []) :
    Emit.Writes simple (fun _ => True) (program stmts) :=
  (Lower.stmts_writes false stmts h hsimple).bind fun _ _ => .instr trivial rfl

/-- **The lines of the listing of a readable program are readable.** -/
theorem readable_of_ofStmts {lines : LineTable} {code : List Instr}
    (h : ∀ t ∈ Stmt.listSubtrees stmts, t.IsReadable) (hcode : ofStmts stmts lines = .ok code) :
    ∀ i ∈ code, i.IsReadable := by
  have hwrites : Emit.Writes False (fun _ => True) (program stmts) := program_writes h False.elim
  have hwrites := hwrites {}
  unfold ofStmts at hcode
  split at hcode
  · next code' k heq =>
    cases hcode
    rw [heq] at hwrites
    exact fun i hi => (hwrites.2 i hi).1
  · cases hcode

/-- **A readable program without functions has a listing**, and nothing in it frames a
function. -/
theorem exists_ofStmts (h : ∀ t ∈ Stmt.listSubtrees stmts, t.IsReadable)
    (hfxn : Stmt.listFxnBodies stmts = []) (lines : LineTable) :
    ∃ code, ofStmts stmts lines = .ok code ∧ ∀ i ∈ code, i.frames = false := by
  have hwrites : Emit.Writes True (fun _ => True) (program stmts) := program_writes h fun _ => hfxn
  have hwrites := hwrites {}
  unfold ofStmts
  split
  · next code k heq =>
    rw [heq] at hwrites
    exact ⟨code, rfl, fun i hi => (hwrites.2 i hi).2 trivial⟩
  · next e heq =>
    rw [heq] at hwrites
    exact (hwrites trivial).elim

/-- **The lines of a listing read back.** -/
theorem mapM_read?_render {code : List Instr} (h : ∀ i ∈ code, i.IsReadable) :
    (code.map Instr.render).mapM Instr.read? = some code := by
  induction code with
  | nil => rfl
  | cons i code ih =>
    rw [List.forall_mem_cons] at h
    rw [List.map_cons, List.mapM_cons, Instr.read?_render h.1, ih h.2]
    rfl

end Listing

/-- **The trees of a text are readable**, unless a name in it looks like that of a temporary. -/
theorem Session.readable_of_readChunk {strict : Bool} {text : Text} {stmts : List Stmt}
    {stream : TokenStream} (h : readChunk strict text = .ok (stmts, stream))
    (htemp : ∀ t ∈ stream.tokens, t.kind = .ident → tempNumber? t.lexeme = none) :
    ∀ t ∈ Stmt.listSubtrees stmts, t.IsReadable := by
  have hstream := TokenStream.eq_ofText_of_read (readChunk_eq_ok_iff.mp h).1
  obtain ⟨body, ending, htokens, -, -, hderives, -⟩ := derives_of_readChunk h
  have hlexical := TokenStream.isLexical_ofText text
  rw [← hstream, htokens] at hlexical
  rw [htokens] at htemp
  refine hderives.readable fun t ht => ?_
  have hmem : t ∈ body ++ [ending] := List.mem_append_left _ ht
  exact (hlexical t hmem).readable (htemp t hmem)

end Badger
