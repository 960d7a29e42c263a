import Badger.Proofs.Parsing.Progress

/-!
# Where an error is placed

Parsers move forward through the tokens and never pass the end token. An error is placed at the
token where it is noticed, with one exception: that the target of an assignment is no name is
noticed behind the value and placed at the equals sign. Either way its token is one of those from
the start of the parser to the place where it stops.

## Main definitions

* `Passes`: the way from some tokens to what is left of them, without an end token on it
* `Finding.Within`: an error at a token on the way
* `Parser.Orderly`: a parser that passes over tokens, and whose error is placed on its way

## Main statements

* `Parser.orderly_bind`: orderly parsers one after the other
* `Parser.exprOrderly`: the parsers of expressions are orderly, at every budget
* `Recovering.orderly_variableDeclaration` and the like: so are the parts of statements

## Design notes

No rule for a failure at a given offset is among those for single parsers: whether it is in order
depends on what comes before. Only `expr` fails in this way.
-/

namespace Badger

variable {α β : Type} {ts us rest rest' : List Token}

/-! ## The way of a parser -/

/-- **The way from some tokens to what is left of them.** The end token does not lie on it. -/
def Passes (ts rest : List Token) : Prop :=
  ∃ passed, ts = passed ++ rest ∧ ∀ t ∈ passed, t.kind ≠ .eof

namespace Passes

theorem refl (ts : List Token) : Passes ts ts := ⟨[], rfl, nofun⟩

theorem trans (h : Passes ts us) (h' : Passes us rest) : Passes ts rest := by
  obtain ⟨passed, rfl, hpassed⟩ := h
  obtain ⟨more, rfl, hmore⟩ := h'
  exact ⟨passed ++ more, (List.append_assoc ..).symm,
    List.forall_mem_append.mpr ⟨hpassed, hmore⟩⟩

theorem suffix (h : Passes ts rest) : rest <:+ ts := by
  obtain ⟨passed, rfl, -⟩ := h
  exact List.suffix_append passed rest

theorem antisymm (h : Passes ts us) (h' : Passes us ts) : ts = us :=
  h'.suffix.eq_of_length_le h.suffix.length_le

/-- A token that is passed over is no end token. -/
theorem cons {t : Token} (ht : t.kind ≠ .eof) (h : Passes ts rest) : Passes (t :: ts) rest := by
  obtain ⟨passed, rfl, hpassed⟩ := h
  exact ⟨t :: passed, rfl, List.forall_mem_cons.mpr ⟨ht, hpassed⟩⟩

theorem advance (ts : List Token) : Passes ts (Parser.advance ts) := by
  cases ts with
  | nil => exact refl []
  | cons t ts =>
      by_cases ht : t.kind = .eof
      · rw [Parser.advance, if_pos ht]
        exact refl _
      · rw [Parser.advance_cons ht]
        exact cons ht (refl ts)

theorem skipAfter (previous : TokenKind) (ts : List Token) :
    Passes ts (Recovering.skipAfter previous ts) := by
  induction ts generalizing previous with
  | nil => exact refl []
  | cons t ts ih =>
      rw [Recovering.skipAfter]
      split
      · exact refl _
      · next hgo =>
        have ht : t.kind ≠ .eof := fun ht => hgo (by simp [ht])
        exact cons ht (ih t.kind)

theorem synchronize (ts : List Token) : Passes ts (Recovering.synchronize ts) := by
  cases ts with
  | nil => exact refl []
  | cons t ts =>
      rw [Recovering.synchronize]
      split
      · exact refl _
      · next ht => exact cons ht (skipAfter t.kind ts)

end Passes

/-- **An error at a token on the way.** -/
def Finding.Within (e : Finding) (ts rest : List Token) : Prop :=
  ∃ us, Passes ts us ∧ Passes us rest ∧ e.offset = (Parser.current us).offset

namespace Finding.Within

variable {e : Finding}

/-- The way may start earlier. -/
theorem of_passes (h : Passes ts us) (he : e.Within us rest) : e.Within ts rest := by
  obtain ⟨vs, hbefore, hafter, hoffset⟩ := he
  exact ⟨vs, h.trans hbefore, hafter, hoffset⟩

/-- An error at the token where the parser stops. -/
theorem here (h : Passes ts rest) (hoffset : e.offset = (Parser.current rest).offset) :
    e.Within ts rest :=
  ⟨rest, h, .refl rest, hoffset⟩

end Finding.Within

/-! ## Orderly parsers -/

namespace Parser

variable {p : Parser α} {f : α → Parser β} {pre : α → Prop} {good : β → Prop}

/-- **An orderly parser** passes over tokens, and an error of it is placed on its way; `good` holds
of its results. -/
def Orderly (p : Parser α) (good : α → Prop) : Prop :=
  ∀ ts, (p ts).Meets (fun a rest => good a ∧ Passes ts rest) (fun e rest => e.Within ts rest) True

/-- What follows an orderly parser goes on where it stops. -/
theorem Orderly.followedBy (hp : Orderly p pre) {ok : α → List Token → Prop}
    {fail : Finding → List Token → Prop} (ts : List Token)
    (hok : ∀ a rest, pre a → Passes ts rest → ok a rest)
    (hfail : ∀ e rest, e.Within ts rest → fail e rest) : (p ts).Meets ok fail True :=
  (hp ts).mono (fun a rest h => hok a rest h.1 h.2) hfail id

theorem orderly_pure {b : β} (h : good b) : Orderly (pure b) good :=
  fun ts => ⟨h, .refl ts⟩

/-- **One orderly parser after another.** -/
theorem orderly_bind (hp : Orderly p pre) (hf : ∀ a, pre a → Orderly (f a) good) :
    Orderly (p >>= f) good := by
  intro ts
  rw [meets_bind]
  refine hp.followedBy ts (fun a us ha hus => ?_) fun e rest he => he
  refine (hf a ha).followedBy us (fun b rest hb hrest => ?_) fun e rest he => ?_
  · exact ⟨hb, hus.trans hrest⟩
  · exact he.of_passes hus

theorem orderly_peek : Orderly peek fun _ => True :=
  fun ts => ⟨trivial, .refl ts⟩

theorem orderly_take : Orderly take fun _ => True :=
  fun ts => ⟨trivial, .advance ts⟩

theorem orderly_exhausted : Orderly exhausted good :=
  fun _ => trivial

theorem orderly_failHere (what : Expectation) : Orderly (failHere what) good :=
  fun ts => .here (.refl ts) rfl

theorem orderly_expect (kind : TokenKind) (what : Expectation) :
    Orderly (expect kind what) fun _ => True := by
  intro ts
  rw [meets_expect]
  split
  · exact ⟨trivial, .advance ts⟩
  · exact .here (.refl ts) rfl

/-- A token that ends a construct. -/
theorem orderly_closing (kind : TokenKind) (what : Expectation) {b : β} (h : good b) :
    Orderly (expect kind what >>= fun _ => pure b) good :=
  orderly_bind (orderly_expect kind what) fun _ _ => orderly_pure h

theorem orderly_accept (kind : TokenKind) : Orderly (accept kind) fun _ => True := by
  intro ts
  rw [meets_accept]
  split
  · exact ⟨trivial, .advance ts⟩
  · exact ⟨trivial, .refl ts⟩

/-! ## Expressions -/

/-- **The parsers of expressions are orderly**, at a budget. -/
structure ExprOrderly (fuel : Nat) : Prop where
  expr : Orderly (expr fuel) fun _ => True
  operators (tighter : List (List TokenKind)) : Orderly (operators fuel tighter) fun _ => True
  operatorsAfter (level : List TokenKind) (tighter : List (List TokenKind)) (left : Expr) :
    Orderly (operatorsAfter fuel level tighter left) fun _ => True
  unary : Orderly (unary fuel) fun _ => True
  calls (callee : Expr) : Orderly (calls fuel callee) fun _ => True
  arguments : Orderly (arguments fuel) fun _ => True
  primary : Orderly (primary fuel) fun _ => True

section

variable {fuel : Nat} (ih : ExprOrderly fuel)

include ih

/-- An error at the equals sign is placed on the way, though it is noticed behind the value. -/
private theorem expr_orderly : Orderly (expr (fuel + 1)) fun _ => True := by
  intro ts
  rw [meets_expr]
  refine (ih.operators levels).followedBy ts (fun target us _ hus => ?_) fun e rest he => he
  split
  · have hequals := Passes.advance us
    refine ih.expr.followedBy _ (fun value rest _ hrest => ?_) fun e rest he => ?_
    · have hvalue := hequals.trans hrest
      split
      · exact ⟨trivial, hus.trans hvalue⟩
      · exact ⟨us, hus, hvalue, rfl⟩
    · exact he.of_passes (hus.trans hequals)
  · exact ⟨trivial, hus⟩

private theorem operators_orderly (tiers : List (List TokenKind)) :
    Orderly (operators (fuel + 1) tiers) fun _ => True := by
  cases tiers with
  | nil =>
      rw [operators]
      exact ih.unary
  | cons level tighter =>
      rw [operators]
      exact orderly_bind (ih.operators tighter) fun left _ =>
        ih.operatorsAfter level tighter left

private theorem operatorsAfter_orderly (level : List TokenKind)
    (tighter : List (List TokenKind)) (left : Expr) :
    Orderly (operatorsAfter (fuel + 1) level tighter left) fun _ => True := by
  rw [operatorsAfter]
  refine orderly_bind orderly_peek fun t _ => ?_
  split
  · refine orderly_bind orderly_take fun op _ => ?_
    exact orderly_bind (ih.operators tighter) fun right _ => ih.operatorsAfter level tighter _
  · exact orderly_pure trivial

private theorem unary_orderly : Orderly (unary (fuel + 1)) fun _ => True := by
  rw [unary]
  refine orderly_bind orderly_peek fun t _ => ?_
  split
  · refine orderly_bind orderly_take fun op _ => ?_
    exact orderly_bind ih.unary fun operand _ => orderly_pure trivial
  · exact orderly_bind ih.primary fun callee _ => ih.calls callee

private theorem calls_orderly (callee : Expr) :
    Orderly (calls (fuel + 1) callee) fun _ => True := by
  rw [calls]
  refine orderly_bind orderly_peek fun t _ => ?_
  split
  · refine orderly_bind orderly_take fun paren _ => ?_
    refine orderly_bind orderly_peek fun t _ => ?_
    have hclosing (args : List Expr) :=
      orderly_bind (orderly_expect .rparen .parenthesisAfterArguments) fun _ _ =>
        ih.calls (.call paren.offset callee args)
    split
    · exact hclosing []
    · exact orderly_bind ih.arguments fun args _ => hclosing args
  · exact orderly_pure trivial

private theorem arguments_orderly : Orderly (arguments (fuel + 1)) fun _ => True := by
  rw [arguments]
  refine orderly_bind ih.expr fun first _ => ?_
  refine orderly_bind (orderly_accept .comma) fun more _ => ?_
  split
  · exact orderly_bind ih.arguments fun others _ => orderly_pure trivial
  · exact orderly_pure trivial

private theorem primary_orderly : Orderly (primary (fuel + 1)) fun _ => True := by
  rw [primary]
  refine orderly_bind orderly_peek fun t _ => ?_
  cases t.kind with
  | falseWord | trueWord | number | string | ident =>
      exact orderly_bind orderly_take fun _ _ => orderly_pure trivial
  | «at» =>
      refine orderly_bind orderly_take fun _ _ => ?_
      exact orderly_bind (orderly_expect .ident _) fun name _ => orderly_pure trivial
  | lparen =>
      refine orderly_bind orderly_take fun _ _ => ?_
      refine orderly_bind ih.expr fun inner _ => ?_
      exact orderly_closing .rparen _ trivial
  | _ => exact orderly_failHere _

end

/-- **The parsers of expressions are orderly**, at every budget. -/
theorem exprOrderly (fuel : Nat) : ExprOrderly fuel := by
  induction fuel with
  | zero => constructor <;> intros <;> exact orderly_exhausted
  | succ fuel ih =>
      exact ⟨expr_orderly ih, operators_orderly ih, operatorsAfter_orderly ih, unary_orderly ih,
        calls_orderly ih, arguments_orderly ih, primary_orderly ih⟩

end Parser

/-! ## Parts of statements -/

namespace Recovering

open Badger.Parser

theorem orderly_variableDeclaration (fuel : Nat) :
    Orderly (variableDeclaration fuel) fun s => s.isMissing = false := by
  unfold variableDeclaration
  refine orderly_bind orderly_take fun type _ => ?_
  refine orderly_bind (orderly_expect .ident _) fun name _ => ?_
  refine orderly_bind (orderly_accept .assign) fun given _ => ?_
  split
  · exact orderly_bind (exprOrderly fuel).expr fun init _ => orderly_closing .semi _ rfl
  · exact orderly_closing .semi _ rfl

theorem orderly_parameters (fuel : Nat) : Orderly (parameters fuel) fun _ => True := by
  induction fuel with
  | zero => exact orderly_exhausted
  | succ fuel ih =>
      rw [parameters]
      refine orderly_bind (orderly_expect .ident _) fun first _ => ?_
      refine orderly_bind (orderly_accept .comma) fun more _ => ?_
      split
      · exact orderly_bind ih fun others _ => orderly_pure trivial
      · exact orderly_pure trivial

theorem orderly_functionHead (fuel : Nat) : Orderly (functionHead fuel) fun _ => True := by
  unfold functionHead
  refine orderly_bind orderly_take fun _ _ => ?_
  refine orderly_bind (orderly_expect .ident _) fun name _ => ?_
  refine orderly_bind (orderly_expect .lparen _) fun _ _ => ?_
  refine orderly_bind orderly_peek fun t _ => ?_
  split
  · refine orderly_bind (orderly_pure trivial) fun params (_ : True) => ?_
    refine orderly_bind (orderly_expect .rparen _) fun _ _ => ?_
    exact orderly_closing .lbrace _ trivial
  · refine orderly_bind (orderly_parameters fuel) fun params _ => ?_
    refine orderly_bind (orderly_expect .rparen _) fun _ _ => ?_
    exact orderly_closing .lbrace _ trivial

theorem orderly_condition (fuel : Nat) (opening : Expectation) :
    Orderly (condition fuel opening) fun _ => True := by
  unfold condition
  refine orderly_bind orderly_take fun keyword _ => ?_
  refine orderly_bind (orderly_expect .lparen _) fun _ _ => ?_
  exact orderly_bind (exprOrderly fuel).expr fun cond _ => orderly_closing .rparen _ trivial

theorem orderly_returnStatement (fuel : Nat) :
    Orderly (returnStatement fuel) fun s => s.isMissing = false := by
  unfold returnStatement
  refine orderly_bind orderly_take fun keyword _ => ?_
  exact orderly_bind (exprOrderly fuel).expr fun value _ => orderly_closing .semi _ rfl

theorem orderly_exprStatement (fuel : Nat) :
    Orderly (exprStatement fuel) fun s => s.isMissing = false := by
  unfold exprStatement
  refine orderly_bind orderly_peek fun first _ => ?_
  exact orderly_bind (exprOrderly fuel).expr fun e _ => orderly_closing .semi _ rfl

end Recovering

end Badger
