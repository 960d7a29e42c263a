import Badger.Proofs.Grammar.Recovery
import Badger.Proofs.Grammar.Subtree
import Badger.Proofs.Text.Delimited
import Badger.Proofs.Tree.Offsets
import Badger.Tree.Debug

/-!
# The debug form identifies a tree

A tree that is read from a text has names, numbers, operators and types of the language. Its debug
form then tells where it ends, whatever follows it, and two such trees have one debug form only if
they are the same but for their offsets.

## Main definitions

* `Subtree.IsLegible`: a node whose name, number, operator or type is one of the language
* `Expr.nodeName`, `Stmt.nodeName`: what the debug form calls a node

## Main statements

* `Expr.debugOnto_inj`, `Stmt.debugOnto_inj`: the debug form of a legible tree tells where it ends,
  and which tree it is
* `Program.legible_ofText`: what is read from a text is legible, next to errors as well
* `Stmt.debug_eq_iff`: **the debug form identifies a statement that is read from a text**
-/

namespace Badger

open Text (Stops Halts listOnto listOnto_inj)

/-! ## The debug form and offsets -/

mutual

/-- **The debug form does not show offsets.** -/
theorem Expr.debugOnto_mapPos (f : Int → Int) (e : Expr) (t : Text) :
    (e.mapPos f).debugOnto t = e.debugOnto t := by
  cases e with
  | missing | num | str | bool | ident | symbol => rfl
  | unary pos op operand => simp only [Expr.mapPos, Expr.debugOnto, Expr.debugOnto_mapPos f operand]
  | binary pos op left right =>
      simp only [Expr.mapPos, Expr.debugOnto, Expr.debugOnto_mapPos f left,
        Expr.debugOnto_mapPos f right]
  | group pos inner => simp only [Expr.mapPos, Expr.debugOnto, Expr.debugOnto_mapPos f inner]
  | assign pos name value => simp only [Expr.mapPos, Expr.debugOnto, Expr.debugOnto_mapPos f value]
  | call pos callee args =>
      simp only [Expr.mapPos, Expr.debugOnto, Expr.debugOnto_mapPos f callee,
        Expr.debugListOnto_mapPos f args]

theorem Expr.debugListOnto_mapPos (f : Int → Int) (es : List Expr) (isFirst : Bool) (t : Text) :
    Expr.debugListOnto isFirst t (Expr.listMapPos f es) = Expr.debugListOnto isFirst t es := by
  cases es with
  | nil => rfl
  | cons e es =>
      simp only [Expr.listMapPos, Expr.debugListOnto, Expr.debugOnto_mapPos f e,
        Expr.debugListOnto_mapPos f es]

end

mutual

theorem Stmt.debugOnto_mapPos (f : Int → Int) (s : Stmt) (t : Text) :
    (s.mapPos f).debugOnto t = s.debugOnto t := by
  cases s with
  | missing => rfl
  | expr pos e => simp only [Stmt.mapPos, Stmt.debugOnto, Expr.debugOnto_mapPos]
  | ret pos value => simp only [Stmt.mapPos, Stmt.debugOnto, Expr.debugOnto_mapPos]
  | block pos body => simp only [Stmt.mapPos, Stmt.debugOnto, Stmt.debugListOnto_mapPos f body]
  | declare pos type name init => simp only [Stmt.mapPos, Stmt.debugOnto, Expr.debugOnto_mapPos]
  | ifThen pos cond yes =>
      simp only [Stmt.mapPos, Stmt.debugOnto, Expr.debugOnto_mapPos, Stmt.debugOnto_mapPos f yes]
  | ifElse pos cond yes no =>
      simp only [Stmt.mapPos, Stmt.debugOnto, Expr.debugOnto_mapPos, Stmt.debugOnto_mapPos f yes,
        Stmt.debugOnto_mapPos f no]
  | loop pos cond body =>
      simp only [Stmt.mapPos, Stmt.debugOnto, Expr.debugOnto_mapPos, Stmt.debugOnto_mapPos f body]
  | fxn pos name params body =>
      simp only [Stmt.mapPos, Stmt.debugOnto, Stmt.debugListOnto_mapPos f body]

theorem Stmt.debugListOnto_mapPos (f : Int → Int) (ss : List Stmt) (isFirst : Bool) (t : Text) :
    Stmt.debugListOnto isFirst t (Stmt.listMapPos f ss) = Stmt.debugListOnto isFirst t ss := by
  cases ss with
  | nil => rfl
  | cons s ss =>
      simp only [Stmt.listMapPos, Stmt.debugListOnto, Stmt.debugOnto_mapPos f s,
        Stmt.debugListOnto_mapPos f ss]

end

/-! ## Lists of trees -/

theorem Expr.debugListOnto_eq (isFirst : Bool) (t : Text) (es : List Expr) :
    Expr.debugListOnto isFirst t es =
      listOnto (utf8 ", ") (fun e t => e.debugOnto t) isFirst t es := by
  induction es generalizing isFirst with
  | nil => rfl
  | cons e es ih =>
      rw [Expr.debugListOnto, ih]
      cases isFirst <;> rfl

theorem Stmt.debugListOnto_eq (isFirst : Bool) (t : Text) (ss : List Stmt) :
    Stmt.debugListOnto isFirst t ss =
      listOnto (utf8 "; ") (fun s t => s.debugOnto t) isFirst t ss := by
  induction ss generalizing isFirst with
  | nil => rfl
  | cons s ss ih =>
      rw [Stmt.debugListOnto, ih]
      cases isFirst <;> rfl

/-- The parts of some expressions are the parts of each of them. -/
theorem Expr.forall_listSubtrees {P : Subtree → Prop} {es : List Expr} :
    (∀ t ∈ Expr.listSubtrees es, P t) ↔ ∀ e ∈ es, ∀ t ∈ e.subtrees, P t := by
  induction es with
  | nil => exact ⟨fun _ => nofun, fun _ => nofun⟩
  | cons e es ih => rw [Expr.listSubtrees, List.forall_mem_append, List.forall_mem_cons, ih]

/-- The parts of some statements are the parts of each of them. -/
theorem Stmt.forall_listSubtrees {P : Subtree → Prop} {ss : List Stmt} :
    (∀ t ∈ Stmt.listSubtrees ss, P t) ↔ ∀ s ∈ ss, ∀ t ∈ s.subtrees, P t := by
  induction ss with
  | nil => exact ⟨fun _ => nofun, fun _ => nofun⟩
  | cons s ss ih => rw [Stmt.listSubtrees, List.forall_mem_append, List.forall_mem_cons, ih]

/-! ## Nodes -/

/-- What the debug form calls an expression. -/
def Expr.nodeName : Expr → String
  | .missing => "error"
  | .num _ _ => "Number"
  | .str _ _ => "String"
  | .bool _ _ => "Bool"
  | .ident _ _ => "Ident"
  | .symbol _ _ => "Symbol"
  | .unary _ _ _ => "Unary"
  | .binary _ _ _ _ => "Binary"
  | .group _ _ => "Group"
  | .assign _ _ _ => "Assign"
  | .call _ _ _ => "Call"

/-- What the debug form calls a statement; a conditional has one name with and without `else`. -/
def Stmt.nodeName : Stmt → String
  | .missing => "error"
  | .expr _ _ => "ExprStmt"
  | .ret _ _ => "Return"
  | .block _ _ => "Block"
  | .declare _ _ _ _ => "VarDecl"
  | .ifThen _ _ _ | .ifElse _ _ _ _ => "If"
  | .loop _ _ _ => "While"
  | .fxn _ _ _ _ => "Fxn"

theorem utf8_inj {s s' : String} (h : utf8 s = utf8 s') : s = s' :=
  String.toByteArray_inj.mp (ByteArray.ext (Array.toList_inj.mp h))

theorem isNameText_of_all {b : UInt8} {rest : Text} (hb : Number.isDigit b = false)
    (hall : (b :: rest).all isNameByte = true) : IsNameText (b :: rest) :=
  ⟨⟨b, rest, rfl, hb⟩, List.all_eq_true.mp hall⟩

theorem Expr.isNameText_nodeName (e : Expr) : IsNameText (utf8 e.nodeName) := by
  cases e <;> exact isNameText_of_all rfl rfl

theorem Stmt.isNameText_nodeName (s : Stmt) : IsNameText (utf8 s.nodeName) := by
  cases s <;> exact isNameText_of_all rfl rfl

theorem Expr.debugOnto_eq_node {e : Expr} (h : e ≠ .missing) :
    ∃ inside, ∀ t, e.debugOnto t = debugNode e.nodeName inside t := by
  cases e with
  | missing => exact absurd rfl h
  | _ => exact ⟨_, fun _ => rfl⟩

theorem Stmt.debugOnto_eq_node {s : Stmt} (h : s ≠ .missing) :
    ∃ inside, ∀ t, s.debugOnto t = debugNode s.nodeName inside t := by
  cases s with
  | missing => exact absurd rfl h
  | _ => exact ⟨_, fun _ => rfl⟩

section

variable {name name' : String} {inside inside' : Text → Text} {t t' : Text}

/-- The debug form of a node starts with its name. -/
theorem name_eq_of_debugNode_eq (hname : IsNameText (utf8 name)) (hname' : IsNameText (utf8 name'))
    (h : debugNode name inside t = debugNode name' inside' t') : name = name' := by
  have hopening : Halts isNameByte (utf8 "(") := by decide
  rw [debugNode, debugNode, List.append_assoc, List.append_assoc] at h
  exact utf8_inj (hname.append_inj hname' (hopening.append _) (hopening.append _) h).1

/-- What nodes of one name hold is written behind the same. -/
theorem inside_eq_of_debugNode_eq (h : debugNode name inside t = debugNode name inside' t') :
    inside (utf8 ")" ++ t) = inside' (utf8 ")" ++ t') :=
  List.append_cancel_left h

theorem not_stops_debugNode (hname : IsNameText (utf8 name)) :
    ¬Stops isNameByte (debugNode name inside t) := by
  rw [debugNode, List.append_assoc]
  exact hname.not_stops _

end

/-- What is written behind a node is the same if the node is. -/
theorem of_closing {t t' : Text} (h : utf8 ")" ++ t = utf8 ")" ++ t') : t = t' :=
  List.append_cancel_left h

/-- **Legible nodes.** Names are texts of names, numbers are finite and not negative, and operators
and types are those of the language. A missing node is not legible. -/
def Subtree.IsLegible : Subtree → Prop
  | .expr .missing | .stmt .missing => False
  | .expr (.num _ x) => ∃ n < Number.infinityBits, x = Number.ofBits false n
  | .expr (.ident _ name) | .expr (.symbol _ name) | .expr (.assign _ name _) => IsNameText name
  | .expr (.unary _ op _) => op ∈ Grammar.unaryOps.map Prod.snd
  | .expr (.binary _ op _ _) => op ∈ BinaryOp.proper
  | .stmt (.declare _ type name _) => type ∈ Grammar.typeWords.map (·.2.1) ∧ IsNameText name
  | .stmt (.fxn _ name params _) => IsNameText name ∧ ∀ p ∈ params, IsNameText p
  | _ => True

theorem Expr.ne_missing_of_legible {e : Expr} (h : ∀ u ∈ e.subtrees, u.IsLegible) :
    e ≠ .missing := by
  rintro rfl
  exact h _ (Expr.mem_subtrees _)

theorem Stmt.ne_missing_of_legible {s : Stmt} (h : ∀ u ∈ s.subtrees, u.IsLegible) :
    s ≠ .missing := by
  rintro rfl
  exact h _ (Stmt.mem_subtrees _)

theorem unaryOp_append_inj {op op' : UnaryOp} (hop : op ∈ Grammar.unaryOps.map Prod.snd)
    (hop' : op' ∈ Grammar.unaryOps.map Prod.snd) {t t' : Text}
    (h : op.lexeme ++ (utf8 " " ++ t) = op'.lexeme ++ (utf8 " " ++ t')) : op = op' ∧ t = t' :=
  Text.append_inj_of_words UnaryOp.ofLexeme (by decide +kernel) (by decide) hop hop' h

theorem binaryOp_append_inj {op op' : BinaryOp} (hop : op ∈ BinaryOp.proper)
    (hop' : op' ∈ BinaryOp.proper) {t t' : Text}
    (h : op.lexeme ++ (utf8 " " ++ t) = op'.lexeme ++ (utf8 " " ++ t')) : op = op' ∧ t = t' :=
  Text.append_inj_of_words BinaryOp.ofLexeme (by decide +kernel) (by decide +kernel) hop hop' h

theorem typeName_append_inj {type type' : DeclaredType}
    (htype : type ∈ Grammar.typeWords.map (·.2.1)) (htype' : type' ∈ Grammar.typeWords.map (·.2.1))
    {t t' : Text} (h : type.name ++ (utf8 " " ++ t) = type'.name ++ (utf8 " " ++ t')) :
    type = type' ∧ t = t' :=
  Text.append_inj_of_words DeclaredType.ofName (by decide +kernel) (by decide) htype htype' h

/-! ## Expressions -/

theorem Expr.not_stops_debugOnto {e : Expr} (h : e ≠ .missing) (t : Text) :
    ¬Stops isNameByte (e.debugOnto t) := by
  obtain ⟨inside, hnode⟩ := Expr.debugOnto_eq_node h
  rw [hnode]
  exact not_stops_debugNode e.isNameText_nodeName

/-- Expressions with one debug form are nodes of one name. -/
theorem Expr.nodeName_eq {e e' : Expr} (he : e ≠ .missing) (he' : e' ≠ .missing) {t t' : Text}
    (h : e.debugOnto t = e'.debugOnto t') : e.nodeName = e'.nodeName := by
  obtain ⟨inside, hnode⟩ := Expr.debugOnto_eq_node he
  obtain ⟨inside', hnode'⟩ := Expr.debugOnto_eq_node he'
  rw [hnode, hnode'] at h
  exact name_eq_of_debugNode_eq e.isNameText_nodeName e'.isNameText_nodeName h

/-- Expressions in brackets tell where they end if each of them does. -/
theorem Expr.debugListOnto_inj {es es' : List Expr} (hes : ∀ e ∈ es, e ≠ .missing)
    (hes' : ∀ e ∈ es', e ≠ .missing) (hinj : ∀ e ∈ es, ∀ e' ∈ es', ∀ t t',
      e.debugOnto t = e'.debugOnto t' → e.bare = e'.bare ∧ t = t') {t t' : Text}
    (h : Expr.debugListOnto true (utf8 "]" ++ t) es =
      Expr.debugListOnto true (utf8 "]" ++ t') es') :
    es.map Expr.bare = es'.map Expr.bare ∧ t = t' := by
  rw [debugListOnto_eq, debugListOnto_eq] at h
  exact listOnto_inj Expr.bare (by decide) (by decide) (by decide)
    (fun e he => not_stops_debugOnto (hes e he)) (fun e he => not_stops_debugOnto (hes' e he))
    (fun e he e' he' t t' _ _ => hinj e he e' he' t t') h

mutual

/-- **The debug form of an expression** tells where it ends, and which expression it is. -/
theorem Expr.debugOnto_inj (e e' : Expr) (he : ∀ u ∈ e.subtrees, u.IsLegible)
    (he' : ∀ u ∈ e'.subtrees, u.IsLegible) {t t' : Text} (h : e.debugOnto t = e'.debugOnto t') :
    e.bare = e'.bare ∧ t = t' := by
  have hname := nodeName_eq (ne_missing_of_legible he) (ne_missing_of_legible he') h
  have hroot := he _ e.mem_subtrees
  have hroot' := he' _ e'.mem_subtrees
  have hclosing : Halts isNameByte (utf8 ")") := by decide
  cases e with
  | missing => exact hroot.elim
  | num pos x =>
      cases e' with
      | num pos' y =>
          obtain ⟨m, hm, rfl⟩ := hroot
          obtain ⟨n, hn, rfl⟩ := hroot'
          have hclosing : Halts Number.isNumeralByte (utf8 ")") := by decide
          obtain ⟨hvalue, ht⟩ := Number.toText_append_inj hm hn (hclosing.append t)
            (hclosing.append t') (inside_eq_of_debugNode_eq h)
          exact ⟨congrArg (Expr.num 0) hvalue, of_closing ht⟩
      | _ => simp [nodeName] at hname
  | str pos s =>
      cases e' with
      | str pos' s' =>
          obtain ⟨rfl, ht⟩ := Quoted.text_append_inj (inside_eq_of_debugNode_eq h)
          exact ⟨rfl, of_closing ht⟩
      | _ => simp [nodeName] at hname
  | bool pos b =>
      cases e' with
      | bool pos' b' =>
          have hword (b : Bool) : IsNameText (utf8 (if b then "true" else "false")) := by
            cases b <;> exact isNameText_of_all rfl rfl
          obtain ⟨hvalue, ht⟩ := (hword b).append_inj (hword b') (hclosing.append t)
            (hclosing.append t') (inside_eq_of_debugNode_eq h)
          obtain rfl : b = b' := by
            have hwords := utf8_inj hvalue
            cases b <;> cases b' <;> simp_all
          exact ⟨rfl, of_closing ht⟩
      | _ => simp [nodeName] at hname
  | ident pos name =>
      cases e' with
      | ident pos' name' =>
          obtain ⟨rfl, ht⟩ := hroot.append_inj hroot' (hclosing.append t) (hclosing.append t')
            (inside_eq_of_debugNode_eq h)
          exact ⟨rfl, of_closing ht⟩
      | _ => simp [nodeName] at hname
  | symbol pos name =>
      cases e' with
      | symbol pos' name' =>
          have hinside := inside_eq_of_debugNode_eq h
          simp only [List.append_assoc] at hinside
          obtain ⟨rfl, ht⟩ := hroot.append_inj hroot' (hclosing.append t) (hclosing.append t')
            (List.append_cancel_left hinside)
          exact ⟨rfl, of_closing ht⟩
      | _ => simp [nodeName] at hname
  | unary pos op operand =>
      cases e' with
      | unary pos' op' operand' =>
          simp only [Expr.subtrees, List.forall_mem_cons] at he he'
          have hinside := inside_eq_of_debugNode_eq h
          simp only [List.append_assoc] at hinside
          obtain ⟨rfl, hoperand⟩ := unaryOp_append_inj hroot hroot' hinside
          obtain ⟨hbare, ht⟩ := debugOnto_inj operand operand' he.2 he'.2 hoperand
          exact ⟨congrArg (Expr.unary 0 op) hbare, of_closing ht⟩
      | _ => simp [nodeName] at hname
  | binary pos op left right =>
      cases e' with
      | binary pos' op' left' right' =>
          simp only [Expr.subtrees, List.forall_mem_cons, List.forall_mem_append] at he he'
          have hinside := inside_eq_of_debugNode_eq h
          simp only [List.append_assoc] at hinside
          obtain ⟨hleft, hmore⟩ := debugOnto_inj left left' he.2.1 he'.2.1 hinside
          obtain ⟨rfl, hrest⟩ := binaryOp_append_inj hroot hroot' (List.append_cancel_left hmore)
          obtain ⟨hright, ht⟩ := debugOnto_inj right right' he.2.2 he'.2.2 hrest
          exact ⟨congrArg₂ (Expr.binary 0 op) hleft hright, of_closing ht⟩
      | _ => simp [nodeName] at hname
  | group pos inner =>
      cases e' with
      | group pos' inner' =>
          simp only [Expr.subtrees, List.forall_mem_cons] at he he'
          obtain ⟨hbare, ht⟩ :=
            debugOnto_inj inner inner' he.2 he'.2 (inside_eq_of_debugNode_eq h)
          exact ⟨congrArg (Expr.group 0) hbare, of_closing ht⟩
      | _ => simp [nodeName] at hname
  | assign pos name value =>
      cases e' with
      | assign pos' name' value' =>
          simp only [Expr.subtrees, List.forall_mem_cons] at he he'
          have hinside := inside_eq_of_debugNode_eq h
          simp only [List.append_assoc] at hinside
          have hequals : Halts isNameByte (utf8 " = ") := by decide
          obtain ⟨rfl, hmore⟩ :=
            hroot.append_inj hroot' (hequals.append _) (hequals.append _) hinside
          obtain ⟨hbare, ht⟩ :=
            debugOnto_inj value value' he.2 he'.2 (List.append_cancel_left hmore)
          exact ⟨congrArg (Expr.assign 0 name) hbare, of_closing ht⟩
      | _ => simp [nodeName] at hname
  | call pos callee args =>
      cases e' with
      | call pos' callee' args' =>
          simp only [Expr.subtrees, List.forall_mem_cons, List.forall_mem_append,
            Expr.forall_listSubtrees] at he he'
          obtain ⟨hcallee, hmore⟩ :=
            debugOnto_inj callee callee' he.2.1 he'.2.1 (inside_eq_of_debugNode_eq h)
          obtain ⟨hargs, ht⟩ := debugListOnto_inj
            (fun e hmem => ne_missing_of_legible (he.2.2 e hmem))
            (fun e hmem => ne_missing_of_legible (he'.2.2 e hmem))
            (fun e hmem e' hmem' => debugOnto_inj_of_mem args e hmem e' (he.2.2 e hmem)
              (he'.2.2 e' hmem'))
            (List.append_cancel_left hmore)
          refine ⟨?_, of_closing ht⟩
          simp only [Expr.bare, Expr.mapPos, Expr.listMapPos_eq_map]
          exact congrArg₂ (Expr.call 0) hcallee hargs
      | _ => simp [nodeName] at hname

theorem Expr.debugOnto_inj_of_mem (es : List Expr) : ∀ e ∈ es, ∀ e' : Expr,
    (∀ u ∈ e.subtrees, u.IsLegible) → (∀ u ∈ e'.subtrees, u.IsLegible) → ∀ t t',
      e.debugOnto t = e'.debugOnto t' → e.bare = e'.bare ∧ t = t' := by
  cases es with
  | nil => exact nofun
  | cons e es =>
      exact List.forall_mem_cons.mpr
        ⟨fun e' he he' t t' => debugOnto_inj e e' he he', debugOnto_inj_of_mem es⟩

end

/-! ## Statements -/

theorem Stmt.not_stops_debugOnto {s : Stmt} (h : s ≠ .missing) (t : Text) :
    ¬Stops isNameByte (s.debugOnto t) := by
  obtain ⟨inside, hnode⟩ := Stmt.debugOnto_eq_node h
  rw [hnode]
  exact not_stops_debugNode s.isNameText_nodeName

/-- Statements with one debug form are nodes of one name. -/
theorem Stmt.nodeName_eq {s s' : Stmt} (hs : s ≠ .missing) (hs' : s' ≠ .missing) {t t' : Text}
    (h : s.debugOnto t = s'.debugOnto t') : s.nodeName = s'.nodeName := by
  obtain ⟨inside, hnode⟩ := Stmt.debugOnto_eq_node hs
  obtain ⟨inside', hnode'⟩ := Stmt.debugOnto_eq_node hs'
  rw [hnode, hnode'] at h
  exact name_eq_of_debugNode_eq s.isNameText_nodeName s'.isNameText_nodeName h

/-- Statements in brackets tell where they end if each of them does. -/
theorem Stmt.debugListOnto_inj {ss ss' : List Stmt} (hss : ∀ s ∈ ss, s ≠ .missing)
    (hss' : ∀ s ∈ ss', s ≠ .missing) (hinj : ∀ s ∈ ss, ∀ s' ∈ ss', ∀ t t',
      s.debugOnto t = s'.debugOnto t' → s.bare = s'.bare ∧ t = t') {t t' : Text}
    (h : Stmt.debugListOnto true (utf8 "]" ++ t) ss =
      Stmt.debugListOnto true (utf8 "]" ++ t') ss') :
    ss.map Stmt.bare = ss'.map Stmt.bare ∧ t = t' := by
  rw [debugListOnto_eq, debugListOnto_eq] at h
  exact listOnto_inj Stmt.bare (by decide) (by decide) (by decide)
    (fun s hs => not_stops_debugOnto (hss s hs)) (fun s hs => not_stops_debugOnto (hss' s hs))
    (fun s hs s' hs' t t' _ _ => hinj s hs s' hs' t t') h

/-- An `else` is written behind a comma, which does not close a node. -/
theorem closing_ne_else {t t' : Text} : utf8 ")" ++ t ≠ utf8 ", else " ++ t' := by
  intro h
  have hhead := congrArg List.head? h
  have hclosing : Halts isNameByte (utf8 ")") := by decide
  have helse : Halts isNameByte (utf8 ", else ") := by decide
  rw [hclosing.head?_append, helse.head?_append] at hhead
  exact absurd hhead (by decide)

mutual

/-- **The debug form of a statement** tells where it ends, and which statement it is. -/
theorem Stmt.debugOnto_inj (s s' : Stmt) (hs : ∀ u ∈ s.subtrees, u.IsLegible)
    (hs' : ∀ u ∈ s'.subtrees, u.IsLegible) {t t' : Text} (h : s.debugOnto t = s'.debugOnto t') :
    s.bare = s'.bare ∧ t = t' := by
  have hname := nodeName_eq (ne_missing_of_legible hs) (ne_missing_of_legible hs') h
  have hroot := hs _ s.mem_subtrees
  have hroot' := hs' _ s'.mem_subtrees
  cases s with
  | missing => exact hroot.elim
  | expr pos e =>
      cases s' with
      | expr pos' e' =>
          simp only [Stmt.subtrees, List.forall_mem_cons] at hs hs'
          obtain ⟨hbare, ht⟩ := Expr.debugOnto_inj e e' hs.2 hs'.2 (inside_eq_of_debugNode_eq h)
          exact ⟨congrArg (Stmt.expr 0) hbare, of_closing ht⟩
      | _ => simp [nodeName] at hname
  | ret pos value =>
      cases s' with
      | ret pos' value' =>
          simp only [Stmt.subtrees, List.forall_mem_cons] at hs hs'
          obtain ⟨hbare, ht⟩ :=
            Expr.debugOnto_inj value value' hs.2 hs'.2 (inside_eq_of_debugNode_eq h)
          exact ⟨congrArg (Stmt.ret 0) hbare, of_closing ht⟩
      | _ => simp [nodeName] at hname
  | block pos body =>
      cases s' with
      | block pos' body' =>
          simp only [Stmt.subtrees, List.forall_mem_cons, Stmt.forall_listSubtrees] at hs hs'
          have hinside := inside_eq_of_debugNode_eq h
          obtain ⟨hbody, ht⟩ := debugListOnto_inj
            (fun s hmem => ne_missing_of_legible (hs.2 s hmem))
            (fun s hmem => ne_missing_of_legible (hs'.2 s hmem))
            (fun s hmem s' hmem' => debugOnto_inj_of_mem body s hmem s' (hs.2 s hmem)
              (hs'.2 s' hmem'))
            (List.append_cancel_left hinside)
          refine ⟨?_, of_closing ht⟩
          simp only [Stmt.bare, Stmt.mapPos, Stmt.listMapPos_eq_map]
          exact congrArg (Stmt.block 0) hbody
      | _ => simp [nodeName] at hname
  | declare pos type name init =>
      cases s' with
      | declare pos' type' name' init' =>
          simp only [Stmt.subtrees, List.forall_mem_cons] at hs hs'
          have hinside := inside_eq_of_debugNode_eq h
          simp only [List.append_assoc] at hinside
          obtain ⟨rfl, hmore⟩ := typeName_append_inj hroot.1 hroot'.1 hinside
          have hequals : Halts isNameByte (utf8 " = ") := by decide
          obtain ⟨rfl, hinit⟩ :=
            hroot.2.append_inj hroot'.2 (hequals.append _) (hequals.append _) hmore
          obtain ⟨hbare, ht⟩ :=
            Expr.debugOnto_inj init init' hs.2 hs'.2 (List.append_cancel_left hinit)
          exact ⟨congrArg (Stmt.declare 0 type name) hbare, of_closing ht⟩
      | _ => simp [nodeName] at hname
  | ifThen pos cond yes =>
      cases s' with
      | ifThen pos' cond' yes' =>
          simp only [Stmt.subtrees, List.forall_mem_cons, List.forall_mem_append] at hs hs'
          obtain ⟨hcond, hmore⟩ :=
            Expr.debugOnto_inj cond cond' hs.2.1 hs'.2.1 (inside_eq_of_debugNode_eq h)
          obtain ⟨hyes, ht⟩ :=
            debugOnto_inj yes yes' hs.2.2 hs'.2.2 (List.append_cancel_left hmore)
          exact ⟨congrArg₂ (Stmt.ifThen 0) hcond hyes, of_closing ht⟩
      | ifElse pos' cond' yes' no' =>
          simp only [Stmt.subtrees, List.forall_mem_cons, List.forall_mem_append] at hs hs'
          obtain ⟨-, hmore⟩ :=
            Expr.debugOnto_inj cond cond' hs.2.1 hs'.2.1 (inside_eq_of_debugNode_eq h)
          obtain ⟨-, hends⟩ :=
            debugOnto_inj yes yes' hs.2.2 hs'.2.2.1 (List.append_cancel_left hmore)
          exact absurd hends closing_ne_else
      | _ => simp [nodeName] at hname
  | ifElse pos cond yes no =>
      cases s' with
      | ifThen pos' cond' yes' =>
          simp only [Stmt.subtrees, List.forall_mem_cons, List.forall_mem_append] at hs hs'
          obtain ⟨-, hmore⟩ :=
            Expr.debugOnto_inj cond cond' hs.2.1 hs'.2.1 (inside_eq_of_debugNode_eq h)
          obtain ⟨-, hends⟩ :=
            debugOnto_inj yes yes' hs.2.2.1 hs'.2.2 (List.append_cancel_left hmore)
          exact absurd hends.symm closing_ne_else
      | ifElse pos' cond' yes' no' =>
          simp only [Stmt.subtrees, List.forall_mem_cons, List.forall_mem_append] at hs hs'
          obtain ⟨hcond, hmore⟩ :=
            Expr.debugOnto_inj cond cond' hs.2.1 hs'.2.1 (inside_eq_of_debugNode_eq h)
          obtain ⟨hyes, hrest⟩ :=
            debugOnto_inj yes yes' hs.2.2.1 hs'.2.2.1 (List.append_cancel_left hmore)
          obtain ⟨hno, ht⟩ :=
            debugOnto_inj no no' hs.2.2.2 hs'.2.2.2 (List.append_cancel_left hrest)
          refine ⟨?_, of_closing ht⟩
          unfold Stmt.bare Stmt.mapPos
          exact congr (congrArg₂ (Stmt.ifElse 0) hcond hyes) hno
      | _ => simp [nodeName] at hname
  | loop pos cond body =>
      cases s' with
      | loop pos' cond' body' =>
          simp only [Stmt.subtrees, List.forall_mem_cons, List.forall_mem_append] at hs hs'
          obtain ⟨hcond, hmore⟩ :=
            Expr.debugOnto_inj cond cond' hs.2.1 hs'.2.1 (inside_eq_of_debugNode_eq h)
          obtain ⟨hbody, ht⟩ :=
            debugOnto_inj body body' hs.2.2 hs'.2.2 (List.append_cancel_left hmore)
          exact ⟨congrArg₂ (Stmt.loop 0) hcond hbody, of_closing ht⟩
      | _ => simp [nodeName] at hname
  | fxn pos name params body =>
      cases s' with
      | fxn pos' name' params' body' =>
          simp only [Stmt.subtrees, List.forall_mem_cons, Stmt.forall_listSubtrees] at hs hs'
          have hinside := inside_eq_of_debugNode_eq h
          simp only [List.append_assoc] at hinside
          have hopening : Halts isNameByte (utf8 "(") := by decide
          obtain ⟨rfl, hmore⟩ :=
            hroot.1.append_inj hroot'.1 (hopening.append _) (hopening.append _) hinside
          have hparams := List.append_cancel_left hmore
          rw [Text.join_append, Text.join_append] at hparams
          obtain ⟨hparams, hrest⟩ := listOnto_inj id (by decide) (by decide) (by decide)
            (fun p hp => (hroot.2 p hp).not_stops) (fun p hp => (hroot'.2 p hp).not_stops)
            (fun p hp p' hp' t t' ht ht' => (hroot.2 p hp).append_inj (hroot'.2 p' hp') ht ht')
            hparams
          rw [List.map_id, List.map_id] at hparams
          subst hparams
          obtain ⟨hbody, ht⟩ := debugListOnto_inj
            (fun s hmem => ne_missing_of_legible (hs.2 s hmem))
            (fun s hmem => ne_missing_of_legible (hs'.2 s hmem))
            (fun s hmem s' hmem' => debugOnto_inj_of_mem body s hmem s' (hs.2 s hmem)
              (hs'.2 s' hmem')) hrest
          refine ⟨?_, of_closing ht⟩
          simp only [Stmt.bare, Stmt.mapPos, Stmt.listMapPos_eq_map]
          exact congrArg (Stmt.fxn 0 name params) hbody
      | _ => simp [nodeName] at hname

theorem Stmt.debugOnto_inj_of_mem (ss : List Stmt) : ∀ s ∈ ss, ∀ s' : Stmt,
    (∀ u ∈ s.subtrees, u.IsLegible) → (∀ u ∈ s'.subtrees, u.IsLegible) → ∀ t t',
      s.debugOnto t = s'.debugOnto t' → s.bare = s'.bare ∧ t = t' := by
  cases ss with
  | nil => exact nofun
  | cons s ss =>
      exact List.forall_mem_cons.mpr
        ⟨fun s' hs hs' t t' => debugOnto_inj s s' hs hs', debugOnto_inj_of_mem ss⟩

end

/-! ## Trees of texts -/

namespace Grammar

theorem WrittenBy.isNameText {name : Text} (h : WrittenBy Token.IsLexical name) :
    IsNameText name := by
  obtain ⟨t, ht, hk, rfl⟩ := h
  exact (ht.name hk).1

/-- The nodes that the grammar makes of lexical tokens are legible. -/
theorem MadeOf.legible {t : Subtree} (h : MadeOf (· ∈ tiers) Token.IsLexical t) :
    t.IsLegible := by
  cases h with
  | num ht hk => exact ht.number hk
  | zero => exact ⟨0, by decide, by decide⟩
  | ident ht hk | assign ht hk => exact (ht.name hk).1
  | symbol _ hname => exact hname.isNameText
  | unary _ ho => exact List.mem_map_of_mem ho
  | binary _ htier ho =>
      have hproper : ∀ tier ∈ tiers, ∀ p ∈ tier, p.2 ∈ BinaryOp.proper := by decide
      exact hproper _ htier _ ho
  | declare ht hk hword => exact ⟨List.mem_map_of_mem hword, (ht.name hk).1⟩
  | fxn ht hk hparams => exact ⟨(ht.name hk).1, fun n hn => (hparams n hn).isNameText⟩
  | _ => trivial

end Grammar

/-- **The trees that are read from a text are legible**, next to errors as well. -/
theorem Program.legible_ofText {text : Text} {s : Stmt}
    (hs : s ∈ (Program.ofTokens (TokenStream.ofText text).tokens 0).stmts)
    (hread : s.isMissing = false) : ∀ u ∈ s.subtrees, u.IsLegible := by
  obtain ⟨body, ending, htokens, hending, hbody⟩ := TokenStream.ofText_tokens text
  have hlexical := TokenStream.isLexical_ofText text
  rw [htokens] at hs hlexical
  obtain ⟨read, hsub, hderives⟩ := Grammar.derives_kept hending fun t ht => (hbody t ht).2.1
  have hlegible := hderives.forall_subtrees (fun _ htier => htier) (fun _ => Grammar.MadeOf.legible)
    fun t ht => hlexical t (hsub.subset ht)
  refine Stmt.forall_listSubtrees.mp hlegible s (List.mem_filter.mpr ⟨hs, ?_⟩)
  rw [hread]
  rfl

/-- **The debug form identifies a tree.** Two statements that are read from texts, with or without
syntax errors elsewhere, have one debug form if and only if they are the same but for their
offsets. -/
theorem Stmt.debug_eq_iff (text text' : Text) :
    ∀ s ∈ (Program.ofTokens (TokenStream.ofText text).tokens 0).stmts,
      ∀ s' ∈ (Program.ofTokens (TokenStream.ofText text').tokens 0).stmts,
        s.isMissing = false → s'.isMissing = false → (s.debug = s'.debug ↔ s.bare = s'.bare) := by
  intro s hs s' hs' hread hread'
  constructor
  · intro h
    exact (Stmt.debugOnto_inj s s' (Program.legible_ofText hs hread)
      (Program.legible_ofText hs' hread') h).1
  · intro h
    have hdebug (s : Stmt) : s.bare.debug = s.debug := Stmt.debugOnto_mapPos _ s []
    rw [← hdebug s, h, hdebug]

/-- A conditional is told from one with an `else`, and not from the same one behind a statement that
cannot be read. -/
theorem Stmt.debug_eq_iff_conditional :
    (Stmt.ifThen 0 (.ident 3 (utf8 "a")) (.block 5 [])).debug =
        (Stmt.ifThen 5 (.ident 9 (utf8 "a")) (.block 12 [])).debug ∧
      (Stmt.ifThen 0 (.ident 3 (utf8 "a")) (.block 5 [])).debug ≠
        (Stmt.ifElse 0 (.ident 3 (utf8 "a")) (.block 5 []) (.block 11 [])).debug := by
  have hplain : (Program.ofTokens (TokenStream.ofText (utf8 "if(a)\x7b\x7d")).tokens 0).stmts =
      [.ifThen 0 (.ident 3 (utf8 "a")) (.block 5 [])] := by rfl
  have hbehind :
      (Program.ofTokens (TokenStream.ofText (utf8 "x y; if (a) \x7b\x7d")).tokens 0).stmts =
      [.missing, .ifThen 5 (.ident 9 (utf8 "a")) (.block 12 [])] := by rfl
  have helse :
      (Program.ofTokens (TokenStream.ofText (utf8 "if(a)\x7b\x7delse\x7b\x7d")).tokens 0).stmts =
      [.ifElse 0 (.ident 3 (utf8 "a")) (.block 5 []) (.block 11 [])] := by rfl
  have hidentify := Stmt.debug_eq_iff (utf8 "if(a)\x7b\x7d")
  rw [hplain] at hidentify
  constructor
  · have hsame := hidentify (utf8 "x y; if (a) \x7b\x7d")
    rw [hbehind] at hsame
    exact (hsame _ (.head _) _ (.tail _ (.head _)) rfl rfl).mpr rfl
  · have hother := hidentify (utf8 "if(a)\x7b\x7delse\x7b\x7d")
    rw [helse] at hother
    exact (hother _ (.head _) _ (.head _) rfl rfl).not.mpr nofun

end Badger
