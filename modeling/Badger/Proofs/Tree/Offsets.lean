import Badger.Proofs.Grammar.Acceptance

/-!
# Trees at other offsets

The offsets of a tree say where it stands and nothing else. They can be changed throughout a tree,
and the grammar does not care: tokens at other offsets derive the tree at those offsets.

## Main definitions

* `Token.mapPos`, `Expr.mapPos`, `Stmt.mapPos`: a token or a tree with its offsets changed
* `Expr.bare`, `Stmt.bare`: a tree with every offset zero
* `Phrase.mapPos`: the same for a phrase of the grammar

## Main statements

* `Derives.mapPos`: derivations carry over to other offsets
* `Derives.append`: two programs one after the other are a program
* `Derives.ends`: a program that is not empty ends in a semicolon or a brace
-/

namespace Badger

/-! ## Changing offsets -/

/-- The token at another offset. -/
def Token.mapPos (f : Int → Int) (t : Token) : Token := { t with offset := f t.offset }

mutual

/-- **The expression at other offsets.** -/
def Expr.mapPos (f : Int → Int) : Expr → Expr
  | .missing => .missing
  | .num pos value => .num (f pos) value
  | .str pos value => .str (f pos) value
  | .bool pos value => .bool (f pos) value
  | .ident pos name => .ident (f pos) name
  | .symbol pos name => .symbol (f pos) name
  | .unary pos op operand => .unary (f pos) op (operand.mapPos f)
  | .binary pos op left right => .binary (f pos) op (left.mapPos f) (right.mapPos f)
  | .group pos inner => .group (f pos) (inner.mapPos f)
  | .assign pos name value => .assign (f pos) name (value.mapPos f)
  | .call pos callee args => .call (f pos) (callee.mapPos f) (Expr.listMapPos f args)

/-- Some expressions at other offsets. -/
def Expr.listMapPos (f : Int → Int) : List Expr → List Expr
  | [] => []
  | e :: es => e.mapPos f :: Expr.listMapPos f es

end

mutual

/-- **The statement at other offsets.** -/
def Stmt.mapPos (f : Int → Int) : Stmt → Stmt
  | .missing => .missing
  | .expr pos e => .expr (f pos) (e.mapPos f)
  | .ret pos value => .ret (f pos) (value.mapPos f)
  | .block pos body => .block (f pos) (Stmt.listMapPos f body)
  | .declare pos type name init => .declare (f pos) type name (init.mapPos f)
  | .ifThen pos cond yes => .ifThen (f pos) (cond.mapPos f) (yes.mapPos f)
  | .ifElse pos cond yes no => .ifElse (f pos) (cond.mapPos f) (yes.mapPos f) (no.mapPos f)
  | .loop pos cond body => .loop (f pos) (cond.mapPos f) (body.mapPos f)
  | .fxn pos name params body => .fxn (f pos) name params (Stmt.listMapPos f body)

/-- Some statements at other offsets. -/
def Stmt.listMapPos (f : Int → Int) : List Stmt → List Stmt
  | [] => []
  | s :: ss => s.mapPos f :: Stmt.listMapPos f ss

end

/-- The expression with every offset zero. -/
def Expr.bare (e : Expr) : Expr := e.mapPos fun _ => 0

/-- The statement with every offset zero. -/
def Stmt.bare (s : Stmt) : Stmt := s.mapPos fun _ => 0

theorem Expr.listMapPos_eq_map (f : Int → Int) (es : List Expr) :
    Expr.listMapPos f es = es.map (Expr.mapPos f) := by
  induction es with
  | nil => rfl
  | cons e es ih => rw [Expr.listMapPos, ih, List.map_cons]

theorem Stmt.listMapPos_eq_map (f : Int → Int) (ss : List Stmt) :
    Stmt.listMapPos f ss = ss.map (Stmt.mapPos f) := by
  induction ss with
  | nil => rfl
  | cons s ss ih => rw [Stmt.listMapPos, ih, List.map_cons]

@[simp] theorem Stmt.isMissing_mapPos (f : Int → Int) (s : Stmt) :
    (s.mapPos f).isMissing = s.isMissing := by
  cases s <;> rfl

mutual

/-- Changing offsets twice is changing them once. -/
theorem Expr.mapPos_mapPos (f g : Int → Int) (e : Expr) :
    (e.mapPos f).mapPos g = e.mapPos (g ∘ f) := by
  cases e with
  | missing | num _ _ | str _ _ | bool _ _ | ident _ _ | symbol _ _ => rfl
  | unary _ _ operand => simp only [Expr.mapPos, Expr.mapPos_mapPos, Function.comp_apply]
  | binary _ _ left right => simp only [Expr.mapPos, Expr.mapPos_mapPos, Function.comp_apply]
  | group _ inner => simp only [Expr.mapPos, Expr.mapPos_mapPos, Function.comp_apply]
  | assign _ _ value => simp only [Expr.mapPos, Expr.mapPos_mapPos, Function.comp_apply]
  | call _ callee args =>
      simp only [Expr.mapPos, Expr.mapPos_mapPos, Expr.listMapPos_listMapPos, Function.comp_apply]

theorem Expr.listMapPos_listMapPos (f g : Int → Int) (es : List Expr) :
    Expr.listMapPos g (Expr.listMapPos f es) = Expr.listMapPos (g ∘ f) es := by
  cases es with
  | nil => rfl
  | cons e es => simp only [Expr.listMapPos, Expr.mapPos_mapPos, Expr.listMapPos_listMapPos]

end

mutual

/-- Changing offsets twice is changing them once. -/
theorem Stmt.mapPos_mapPos (f g : Int → Int) (s : Stmt) :
    (s.mapPos f).mapPos g = s.mapPos (g ∘ f) := by
  cases s with
  | missing => rfl
  | expr _ _ | ret _ _ | declare _ _ _ _ =>
      simp only [Stmt.mapPos, Expr.mapPos_mapPos, Function.comp_apply]
  | block _ body => simp only [Stmt.mapPos, Stmt.listMapPos_listMapPos, Function.comp_apply]
  | ifThen _ _ yes =>
      simp only [Stmt.mapPos, Expr.mapPos_mapPos, Stmt.mapPos_mapPos, Function.comp_apply]
  | ifElse _ _ yes no =>
      simp only [Stmt.mapPos, Expr.mapPos_mapPos, Stmt.mapPos_mapPos, Function.comp_apply]
  | loop _ _ body =>
      simp only [Stmt.mapPos, Expr.mapPos_mapPos, Stmt.mapPos_mapPos, Function.comp_apply]
  | fxn _ _ _ body => simp only [Stmt.mapPos, Stmt.listMapPos_listMapPos, Function.comp_apply]

theorem Stmt.listMapPos_listMapPos (f g : Int → Int) (ss : List Stmt) :
    Stmt.listMapPos g (Stmt.listMapPos f ss) = Stmt.listMapPos (g ∘ f) ss := by
  cases ss with
  | nil => rfl
  | cons s ss => simp only [Stmt.listMapPos, Stmt.mapPos_mapPos, Stmt.listMapPos_listMapPos]

end

mutual

/-- Changing no offset changes nothing. -/
theorem Expr.mapPos_id (e : Expr) : e.mapPos id = e := by
  cases e with
  | missing | num _ _ | str _ _ | bool _ _ | ident _ _ | symbol _ _ => rfl
  | unary _ _ operand => simp only [Expr.mapPos, Expr.mapPos_id, id]
  | binary _ _ left right => simp only [Expr.mapPos, Expr.mapPos_id, id]
  | group _ inner => simp only [Expr.mapPos, Expr.mapPos_id, id]
  | assign _ _ value => simp only [Expr.mapPos, Expr.mapPos_id, id]
  | call _ callee args => simp only [Expr.mapPos, Expr.mapPos_id, Expr.listMapPos_id, id]

theorem Expr.listMapPos_id (es : List Expr) : Expr.listMapPos id es = es := by
  cases es with
  | nil => rfl
  | cons e es => simp only [Expr.listMapPos, Expr.mapPos_id, Expr.listMapPos_id]

end

mutual

/-- Changing no offset changes nothing. -/
theorem Stmt.mapPos_id (s : Stmt) : s.mapPos id = s := by
  cases s with
  | missing => rfl
  | expr _ _ | ret _ _ | declare _ _ _ _ => simp only [Stmt.mapPos, Expr.mapPos_id, id]
  | block _ body => simp only [Stmt.mapPos, Stmt.listMapPos_id, id]
  | ifThen _ _ yes => simp only [Stmt.mapPos, Expr.mapPos_id, Stmt.mapPos_id, id]
  | ifElse _ _ yes no => simp only [Stmt.mapPos, Expr.mapPos_id, Stmt.mapPos_id, id]
  | loop _ _ body => simp only [Stmt.mapPos, Expr.mapPos_id, Stmt.mapPos_id, id]
  | fxn _ _ _ body => simp only [Stmt.mapPos, Stmt.listMapPos_id, id]

theorem Stmt.listMapPos_id (ss : List Stmt) : Stmt.listMapPos id ss = ss := by
  cases ss with
  | nil => rfl
  | cons s ss => simp only [Stmt.listMapPos, Stmt.mapPos_id, Stmt.listMapPos_id]

end

@[simp] theorem Stmt.endsOpen_mapPos (f : Int → Int) (s : Stmt) :
    (s.mapPos f).endsOpen = s.endsOpen := by
  cases s with
  | ifElse _ _ _ no => exact Stmt.endsOpen_mapPos f no
  | loop _ _ body => exact Stmt.endsOpen_mapPos f body
  | _ => rfl

mutual

@[simp] theorem Stmt.elseNearest_mapPos (f : Int → Int) (s : Stmt) :
    (s.mapPos f).elseNearest = s.elseNearest := by
  cases s with
  | missing | expr _ _ | ret _ _ | declare _ _ _ _ => rfl
  | block _ body => exact Stmt.elsesNearest_listMapPos f body
  | ifThen _ _ yes => exact Stmt.elseNearest_mapPos f yes
  | ifElse _ _ yes no =>
      simp only [Stmt.mapPos, Stmt.elseNearest, Stmt.endsOpen_mapPos, Stmt.elseNearest_mapPos f yes,
        Stmt.elseNearest_mapPos f no]
  | loop _ _ body => exact Stmt.elseNearest_mapPos f body
  | fxn _ _ _ body => exact Stmt.elsesNearest_listMapPos f body

@[simp] theorem Stmt.elsesNearest_listMapPos (f : Int → Int) (ss : List Stmt) :
    Stmt.elsesNearest (Stmt.listMapPos f ss) = Stmt.elsesNearest ss := by
  cases ss with
  | nil => rfl
  | cons s ss =>
      simp only [Stmt.listMapPos, Stmt.elsesNearest, Stmt.elseNearest_mapPos f s,
        Stmt.elsesNearest_listMapPos f ss]

end

namespace Grammar

/-! ## Derivations at other offsets -/

/-- The phrase with its tree at other offsets. -/
def Phrase.mapPos (f : Int → Int) : Phrase → Phrase
  | .primary e => .primary (e.mapPos f)
  | .calls callee e => .calls (callee.mapPos f) (e.mapPos f)
  | .call e => .call (e.mapPos f)
  | .unary e => .unary (e.mapPos f)
  | .operators tiers e => .operators tiers (e.mapPos f)
  | .operatorsAfter tier tighter left e =>
      .operatorsAfter tier tighter (left.mapPos f) (e.mapPos f)
  | .expression e => .expression (e.mapPos f)
  | .expressions es => .expressions (Expr.listMapPos f es)
  | .arguments es => .arguments (Expr.listMapPos f es)
  | .names ns => .names ns
  | .parameters ns => .parameters ns
  | .statement s => .statement (s.mapPos f)
  | .declaration s => .declaration (s.mapPos f)
  | .declarations ss => .declarations (Stmt.listMapPos f ss)

theorem zero_mapPos {kind : TokenKind} {type : DeclaredType} {zero : Int → Expr}
    (h : (kind, type, zero) ∈ typeWords) (f : Int → Int) (pos : Int) :
    (zero pos).mapPos f = zero (f pos) := by
  simp only [typeWords, List.mem_cons, Prod.mk.injEq, List.not_mem_nil, or_false] at h
  rcases h with ⟨-, -, rfl⟩ | ⟨-, -, rfl⟩ | ⟨-, -, rfl⟩ | ⟨-, -, rfl⟩ <;> rfl

/-- **Derivations carry over to other offsets.** -/
theorem Derives.mapPos (f : Int → Int) {p : Phrase} {ts : List Token} (h : Derives p ts) :
    Derives (p.mapPos f) (ts.map (Token.mapPos f)) := by
  have hkind {t : Token} {kind : TokenKind} (ht : t.kind = kind) : (t.mapPos f).kind = kind := ht
  induction h with
  | falseWord ht => exact .falseWord (hkind ht)
  | trueWord ht => exact .trueWord (hkind ht)
  | number ht => exact .number (hkind ht)
  | string ht => exact .string (hkind ht)
  | ident ht => exact .ident (hkind ht)
  | symbol ht hname => exact .symbol (hkind ht) (hkind hname)
  | group ho _ hc ih =>
      simp only [List.map_append, List.map_cons, List.map_nil]
      exact .group (hkind ho) ih (hkind hc)
  | noCall => exact .noCall
  | oneCall ho _ hc _ ihargs ihmore =>
      simp only [List.map_append, List.map_cons]
      exact .oneCall (hkind ho) ihargs (hkind hc) ihmore
  | call _ _ ihcallee ihcalls =>
      rw [List.map_append]
      exact .call ihcallee ihcalls
  | @unaryOp op o _ _ hop _ ih =>
      have hop : ((op.mapPos f).kind, o) ∈ unaryOps := hop
      exact .unaryOp hop ih
  | unaryCall _ ih => exact .unaryCall ih
  | tightest _ ih => exact .tightest ih
  | tier _ _ ihleft ihmore =>
      rw [List.map_append]
      exact .tier ihleft ihmore
  | noOperator => exact .noOperator
  | @oneOperator tier _ op o _ _ _ _ _ hop _ _ ihright ihmore =>
      have hop : ((op.mapPos f).kind, o) ∈ tier := hop
      simp only [List.map_append, List.map_cons]
      exact .oneOperator hop ihright ihmore
  | assign hname heq _ ih => exact .assign (hkind hname) (hkind heq) ih
  | operators _ ih => exact .operators ih
  | lastExpression _ ih => exact .lastExpression ih
  | nextExpression _ hcomma _ ihfirst ihothers =>
      rw [List.map_append, List.map_cons]
      exact .nextExpression ihfirst (hkind hcomma) ihothers
  | noArguments => exact .noArguments
  | someArguments _ ih => exact .someArguments ih
  | lastName hn => exact .lastName (hkind hn)
  | nextName hn hcomma _ ih => exact .nextName (hkind hn) (hkind hcomma) ih
  | noParameters => exact .noParameters
  | someParameters _ ih => exact .someParameters ih
  | ret hword _ hsemi ih =>
      simp only [List.map_append, List.map_cons, List.map_nil]
      exact .ret (hkind hword) ih (hkind hsemi)
  | block ho _ hc ih =>
      simp only [List.map_append, List.map_cons, List.map_nil]
      exact .block (hkind ho) ih (hkind hc)
  | ifThen hword ho _ hc _ ihcond ihyes =>
      simp only [List.map_append, List.map_cons]
      exact .ifThen (hkind hword) (hkind ho) ihcond (hkind hc) ihyes
  | ifElse hword ho _ hc _ hother _ ihcond ihyes ihno =>
      simp only [List.map_append, List.map_cons]
      exact .ifElse (hkind hword) (hkind ho) ihcond (hkind hc) ihyes (hkind hother) ihno
  | loop hword ho _ hc _ ihcond ihbody =>
      simp only [List.map_append, List.map_cons]
      exact .loop (hkind hword) (hkind ho) ihcond (hkind hc) ihbody
  | exprStatement _ hsemi ih =>
      simp only [List.map_append, List.map_cons, List.map_nil]
      exact .exprStatement ih (hkind hsemi)
  | @declare word _ _ _ type zero _ _ hword hname heq _ hsemi ih =>
      have hword : ((word.mapPos f).kind, type, zero) ∈ typeWords := hword
      simp only [List.map_append, List.map_cons, List.map_nil]
      exact .declare hword (hkind hname) (hkind heq) ih (hkind hsemi)
  | @declareZero word _ _ type zero hword hname hsemi =>
      have hword : ((word.mapPos f).kind, type, zero) ∈ typeWords := hword
      rw [Phrase.mapPos, Stmt.mapPos, zero_mapPos hword]
      exact .declareZero hword (hkind hname) (hkind hsemi)
  | function hword hname ho _ hc hbrace _ hending ihparams ihbody =>
      simp only [List.map_append, List.map_cons, List.map_nil]
      exact .function (hkind hword) (hkind hname) (hkind ho) ihparams (hkind hc)
        (hkind hbrace) ihbody (hkind hending)
  | statement _ ih => exact .statement ih
  | noDeclaration => exact .noDeclaration
  | nextDeclaration _ _ ihs ihss =>
      rw [List.map_append]
      exact .nextDeclaration ihs ihss

/-! ## Programs one after the other -/

/-- **Two programs one after the other are a program.** -/
theorem Derives.append {ss ss' : List Stmt} {ts us : List Token}
    (h : Derives (.declarations ss) ts) (h' : Derives (.declarations ss') us) :
    Derives (.declarations (ss ++ ss')) (ts ++ us) := by
  generalize hp : Phrase.declarations ss = p at h
  induction h generalizing ss with
  | noDeclaration =>
      cases hp
      exact h'
  | @nextDeclaration s ss ts us hs _ _ ih =>
      cases hp
      rw [List.cons_append, List.append_assoc]
      exact .nextDeclaration hs (ih rfl)
  | _ => cases hp

/-- **A program that is not empty ends in a semicolon or a brace**, like every statement. -/
theorem Derives.ends {p : Phrase} {ts : List Token} (h : Derives p ts) :
    match p with
    | .statement _ | .declaration _ =>
        ∃ first last, ts = first ++ [last] ∧ (last.kind = .semi ∨ last.kind = .rbrace)
    | .declarations _ => ts = [] ∨
        ∃ first last, ts = first ++ [last] ∧ (last.kind = .semi ∨ last.kind = .rbrace)
    | _ => True := by
  induction h with
  | ret _ _ hsemi | declare _ _ _ _ hsemi => exact ⟨_, _, rfl, .inl hsemi⟩
  | exprStatement _ hsemi => exact ⟨_, _, rfl, .inl hsemi⟩
  | @declareZero word name semi type zero _ _ hsemi => exact ⟨[word, name], semi, rfl, .inl hsemi⟩
  | block _ _ hc => exact ⟨_, _, rfl, .inr hc⟩
  | function _ _ _ _ _ _ _ hending => exact ⟨_, _, rfl, .inr hending⟩
  | ifThen _ _ _ _ _ _ ih | loop _ _ _ _ _ _ ih =>
      obtain ⟨first, last, rfl, hlast⟩ := ih
      exact ⟨_, last, (List.append_assoc _ (_ :: first) [last]).symm, hlast⟩
  | ifElse _ _ _ _ _ _ _ _ _ ih =>
      obtain ⟨first, last, rfl, hlast⟩ := ih
      exact ⟨_, last, (List.append_assoc _ (_ :: first) [last]).symm, hlast⟩
  | statement _ ih => exact ih
  | noDeclaration => exact .inl rfl
  | nextDeclaration _ _ ihfirst ihothers =>
      right
      rcases ihothers with rfl | ⟨first, last, rfl, hlast⟩
      · rw [List.append_nil]
        exact ihfirst
      · exact ⟨_, last, (List.append_assoc _ first [last]).symm, hlast⟩
  | _ => trivial

end Grammar

end Badger
