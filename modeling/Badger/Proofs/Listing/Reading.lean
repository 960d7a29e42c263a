import Badger.Listing.Instr
import Badger.Proofs.Number.Shortest
import Badger.Proofs.Text.Unquote

/-!
# Reading listings

A line of a listing is a text. Its words are what stands between blanks outside quotation marks;
how many there are and what the first ones are tells the instruction. Every line that is written
for an instruction with readable names and literals is read back as that instruction, so two
listings with the same lines hold the same instructions.

## Main definitions

* `Words.split`: the words of a line
* `Operand.read?`, `Target.read?`: a word as a literal or temporary, and as what is called
* `Instr.read?`: a line as an instruction
* `Instr.IsReadable`: instructions with names and literals of the language

## Main statements

* `Words.split_join`: a line splits into the words that it was joined from
* `Operand.read?_render`: an operand reads back
* `Instr.read?_render`: **a line reads back as its instruction**

## Design notes

A name is readable if no operand is written like it (`Operand.read? name = none`). This rules out
the names of temporaries: to a reader a variable `t7` and the seventh temporary are the same.
-/

namespace Badger

/-! ## Words -/

namespace Words

/-- The byte between words. -/
def blank : UInt8 := 32

/-- Where a reader of a line stands: outside quotation marks, between them, or right after a
backslash between them. -/
inductive Place where
  | outside
  | inside
  | escaped
deriving DecidableEq

/-- Where the reader stands after a byte. -/
def Place.after (b : UInt8) : Place → Place
  | .outside => if b = 34 then .inside else .outside
  | .inside => if b = 34 then .outside else if b = 92 then .escaped else .inside
  | .escaped => .inside

/-- The words of what is left of a line, the first of them possibly begun before. -/
def splitFrom (place : Place) : Text → List Text
  | [] => [[]]
  | b :: rest =>
    if place = .outside ∧ b = blank then [] :: splitFrom .outside rest
    else
      match splitFrom (place.after b) rest with
      | [] => [[b]]
      | word :: words => (b :: word) :: words

/-- **The words of a line**, between blanks outside quotation marks. -/
def split (line : Text) : List Text := splitFrom .outside line

/-- Where the reader stands after a text, unless a blank ends a word in it. -/
def passed : Place → Text → Option Place
  | place, [] => some place
  | place, b :: rest =>
    if place = .outside ∧ b = blank then none else passed (place.after b) rest

/-- A text without a blank that ends a word. -/
def IsWord (t : Text) : Prop := passed .outside t = some .outside

instance (t : Text) : Decidable (IsWord t) :=
  inferInstanceAs (Decidable (passed .outside t = some .outside))

theorem passed_append {place place' : Place} {s : Text} (h : passed place s = some place')
    (t : Text) : passed place (s ++ t) = passed place' t := by
  induction s generalizing place with
  | nil =>
    cases h
    rfl
  | cons b s ih =>
    rw [passed] at h
    split at h
    · cases h
    · next hstays =>
      rw [List.cons_append, passed, if_neg hstays]
      exact ih h

theorem splitFrom_append {place place' : Place} {s : Text} (h : passed place s = some place')
    {t word : Text} {words : List Text} (ht : splitFrom place' t = word :: words) :
    splitFrom place (s ++ t) = (s ++ word) :: words := by
  induction s generalizing place with
  | nil =>
    cases h
    exact ht
  | cons b s ih =>
    rw [passed] at h
    split at h
    · cases h
    · next hstays =>
      rw [List.cons_append, splitFrom, if_neg hstays, ih h]
      rfl

/-- **A line splits into its words.** -/
theorem split_join {words : List Text} (hne : words ≠ []) (h : ∀ word ∈ words, IsWord word) :
    split (Text.join [blank] words) = words := by
  induction words with
  | nil => exact absurd rfl hne
  | cons word words ih =>
    rw [List.forall_mem_cons] at h
    cases words with
    | nil =>
      have hsplit := splitFrom_append h.1 (t := []) rfl
      simpa [Text.join, List.intercalate, split] using hsplit
    | cons next words =>
      have hrest : splitFrom .outside (blank :: Text.join [blank] (next :: words)) =
          [] :: next :: words := by
        rw [splitFrom, if_pos ⟨rfl, rfl⟩]
        exact congrArg _ (ih (by simp) h.2)
      rw [Text.join_cons_cons, List.append_assoc]
      have hsplit := splitFrom_append h.1 hrest
      rwa [List.append_nil] at hsplit

/-! ### Which texts are words -/

/-- Texts without blanks and quotation marks are words. -/
theorem isWord_of_forall {t : Text} (h : ∀ b ∈ t, b ≠ blank ∧ b ≠ 34) : IsWord t := by
  unfold IsWord
  induction t with
  | nil => rfl
  | cons b t ih =>
    rw [List.forall_mem_cons] at h
    rw [passed, if_neg (fun hblank => h.1.1 hblank.2), Place.after, if_neg h.1.2]
    exact ih h.2

theorem IsWord.append {s t : Text} (hs : IsWord s) (ht : IsWord t) : IsWord (s ++ t) := by
  unfold IsWord at *
  rw [passed_append hs, ht]

theorem passed_selves {t : Text} (h : ∀ b ∈ t, b ≠ 34 ∧ b ≠ 92) :
    passed .inside t = some .inside := by
  induction t with
  | nil => rfl
  | cons b t ih =>
    rw [List.forall_mem_cons] at h
    rw [passed, if_neg (by simp), Place.after, if_neg h.1.1, if_neg h.1.2]
    exact ih h.2

theorem passed_of_passable {t : Text} (h : Quoted.Passable t) :
    passed .inside t = some .inside := by
  rcases h with h | ⟨b, bs, rfl, h⟩
  · exact passed_selves h
  · rw [passed, if_neg (by simp), show Place.after 92 .inside = .escaped from rfl, passed,
      if_neg (by simp)]
    exact passed_selves h

/-- A quoted text is one word. -/
theorem isWord_quoted (t : Text) : IsWord (Quoted.text t) := by
  have hpieces (rs : List Rune) :
      passed .inside (rs.map (Quoted.piece '"')).flatten = some .inside := by
    induction rs with
    | nil => rfl
    | cons r rs ih =>
      rw [List.map_cons, List.flatten_cons,
        passed_append (passed_of_passable (Quoted.passable_piece r)), ih]
  unfold IsWord Quoted.text
  rw [List.cons_append, passed, if_neg (by decide),
    show Place.after (Text.byte '"') .outside = .inside from rfl, passed_append (hpieces _)]
  rfl

end Words

/-! ## Numbered names -/

/-- The number in a name that is one letter and decimal digits. -/
def numbered? (letter : UInt8) : Text → Option Nat
  | [] => none
  | b :: digits =>
    if b = letter ∧ digits ≠ [] ∧ digits.all Number.isDigit then
      some (Number.digitsValue digits)
    else none

/-- The number of the temporary with a name. -/
def tempNumber? : Text → Option Nat := numbered? (Text.byte 't')

/-- The number of the label with a name. -/
def labelNumber? : Text → Option Nat := numbered? (Text.byte 'L')

theorem numbered?_ofNat (letter : UInt8) (n : Nat) :
    numbered? letter (letter :: Text.ofNat n) = some n := by
  have hall : (Text.ofNat n).all Number.isDigit = true :=
    List.all_eq_true.mpr fun b => Number.isDigit_of_mem_ofNat
  rw [numbered?, if_pos ⟨rfl, Number.ofNat_ne_nil n, hall⟩, Number.digitsValue_ofNat]

theorem tempNumber?_tempName (n : Nat) : tempNumber? (tempName n) = some n :=
  numbered?_ofNat _ n

theorem labelNumber?_labelName (n : Nat) : labelNumber? (labelName n) = some n :=
  numbered?_ofNat _ n

theorem Words.isWord_digits {ds : Text} (h : ∀ b ∈ ds, Number.isDigit b = true) : IsWord ds := by
  refine isWord_of_forall fun b hb => ?_
  have hdigit := h b hb
  constructor
  all_goals
    rintro rfl
    exact absurd hdigit (by decide)

theorem Words.isWord_ofNat (n : Nat) : IsWord (Text.ofNat n) :=
  isWord_digits fun _ => Number.isDigit_of_mem_ofNat

theorem Words.isWord_tempName (n : Nat) : IsWord (tempName n) :=
  IsWord.append (by decide) (isWord_ofNat n)

theorem Words.isWord_labelName (n : Nat) : IsWord (labelName n) :=
  IsWord.append (by decide) (isWord_ofNat n)

/-! ## Operands -/

/-- **A word as an operand**: a string between quotation marks, a numeral, a truth value or a
temporary. -/
def Operand.read? (word : Text) : Option Operand :=
  match word.head? with
  | none => none
  | some b =>
    if b = 34 then (Quoted.read? word).map .str
    else if Number.isDigit b then (Piece.numeralValue? word).map .num
    else if word = utf8 "true" then some (.bool true)
    else if word = utf8 "false" then some (.bool false)
    else (tempNumber? word).map .temp

/-- Operands with a literal of the language: a number is finite and not negative. -/
def Operand.IsReadable : Operand → Prop
  | .num x => ∃ n < Number.infinityBits, x = Number.ofBits false n
  | .str _ | .bool _ | .temp _ => True

theorem Operand.read?_of_tempNumber? {word : Text} {n : Nat} (h : tempNumber? word = some n) :
    Operand.read? word = some (.temp n) := by
  have htrue : word ≠ utf8 "true" := by
    rintro rfl
    cases h
  have hfalse : word ≠ utf8 "false" := by
    rintro rfl
    cases h
  have hhead : word.head? = some (Text.byte 't') := by
    unfold tempNumber? numbered? at h
    grind
  rw [Operand.read?, hhead]
  simp only [if_neg htrue, if_neg hfalse, h, Option.map_some]
  rfl

/-- **An operand reads back.** -/
theorem Operand.read?_render {o : Operand} (h : o.IsReadable) :
    Operand.read? o.render = some o := by
  cases o with
  | num x =>
    obtain ⟨n, hn, rfl⟩ := h
    obtain ⟨⟨b, rest, htext, hdigit⟩, -⟩ := Number.isNumeral_toText hn
    have hhead : (Number.toText (Number.ofBits false n)).head? = some b := by rw [htext]; rfl
    have hquote : b ≠ 34 := by
      rintro rfl
      exact absurd hdigit (by decide)
    rw [Operand.render, Operand.read?, hhead]
    simp only [if_neg hquote, if_pos hdigit, Number.numeralValue?_toText hn, Option.map_some]
  | str t =>
    have hhead : (Quoted.text t).head? = some 34 := rfl
    rw [Operand.render, Operand.read?, hhead]
    simp only [if_pos, Quoted.read?_text, Option.map_some]
  | bool b =>
    cases b
    all_goals rfl
  | temp n =>
    exact Operand.read?_of_tempNumber? (tempNumber?_tempName n)

theorem Operand.isWord_render {o : Operand} (h : o.IsReadable) : Words.IsWord o.render := by
  cases o with
  | num x =>
    obtain ⟨n, hn, rfl⟩ := h
    refine Words.isWord_of_forall fun b hb => ?_
    rcases (Number.isNumeral_toText hn).2 b hb with hdigit | rfl
    · constructor
      all_goals
        rintro rfl
        exact absurd hdigit (by decide)
    · decide
  | str t => exact Words.isWord_quoted t
  | bool b =>
    cases b
    all_goals exact (by decide)
  | temp n => exact Words.isWord_tempName n

/-! ## What is called -/

/-- Names that are words and cannot be taken for an operand. -/
def IsReadableName (name : Text) : Prop :=
  Words.IsWord name ∧ Operand.read? name = none

theorem IsReadableName.tempNumber? {name : Text} (h : IsReadableName name) :
    tempNumber? name = none := by
  cases htemp : Badger.tempNumber? name with
  | none => rfl
  | some n => exact absurd (Operand.read?_of_tempNumber? htemp) (by simp [h.2])

/-- A word as what is called: an operand if it can be read as one, else a name. -/
def Target.read (word : Text) : Target :=
  match Operand.read? word with
  | some o => .computed o
  | none => .named word

/-- Targets with a readable name or operand. -/
def Target.IsReadable : Target → Prop
  | .named name => IsReadableName name
  | .computed o => o.IsReadable

theorem Target.read_render {t : Target} (h : t.IsReadable) : Target.read t.render = t := by
  cases t with
  | named name =>
    unfold Target.read Target.render
    rw [h.2]
  | computed o =>
    unfold Target.read Target.render
    rw [Operand.read?_render h]

theorem Target.isWord_render {t : Target} (h : t.IsReadable) : Words.IsWord t.render := by
  cases t with
  | named name => exact h.1
  | computed o => exact Operand.isWord_render h

/-! ## Operators -/

/-- The unary operator with a word. -/
def UnaryOp.ofMnemonic? (word : Text) : Option UnaryOp :=
  [UnaryOp.not, UnaryOp.negate].find? fun op => op.mnemonic? = some word

/-- The binary operator with a word. -/
def BinaryOp.ofMnemonic? (word : Text) : Option BinaryOp :=
  BinaryOp.proper.find? fun op => op.mnemonic? = some word

theorem UnaryOp.ofMnemonic?_mnemonic {op : UnaryOp} {word : Text} (h : op.mnemonic? = some word) :
    UnaryOp.ofMnemonic? word = some op ∧ Words.IsWord word := by
  cases op with
  | other t => cases h
  | _ =>
    cases h
    decide

theorem BinaryOp.ofMnemonic?_mnemonic {op : BinaryOp} {word : Text} (h : op.mnemonic? = some word) :
    BinaryOp.ofMnemonic? word = some op ∧ Words.IsWord word := by
  cases op with
  | other t => cases h
  | _ =>
    cases h
    decide

/-! ## Instructions -/

/-- The words of the line for an instruction. -/
def Instr.words : Instr → List Text
  | .load dest name => [tempName dest, utf8 "=", name]
  | .store name source => [name, utf8 "=", source.render]
  | .unary dest op operand => [tempName dest, utf8 "=", op.mnemonic?.getD [], operand.render]
  | .binary dest op left right =>
    [tempName dest, utf8 "=", left.render, op.mnemonic?.getD [], right.render]
  | .param source => [utf8 "param", source.render]
  | .call dest target count =>
    [tempName dest, utf8 "=", utf8 "call", target.render ++ utf8 ",", Text.ofNat count]
  | .declare name => [utf8 "new", name]
  | .print source => [utf8 "print", source.render]
  | .ret source => [utf8 "ret", source.render]
  | .label n => [utf8 "label", labelName n]
  | .jump n => [utf8 "jump", labelName n]
  | .jumpUnless cond n => [utf8 "jne", cond.render, labelName n]
  | .func name => [utf8 "func", name]
  | .arg name => [utf8 "arg", name]
  | .endFunc => [utf8 "endfunc"]
  | .stop => [utf8 "end"]

theorem Instr.render_eq_join (i : Instr) : i.render = Text.join [Words.blank] i.words := by
  have hassign : utf8 " = " = [Words.blank] ++ utf8 "=" ++ [Words.blank] := rfl
  have hcall : utf8 " = call " =
      [Words.blank] ++ utf8 "=" ++ [Words.blank] ++ utf8 "call" ++ [Words.blank] := rfl
  have hcomma : utf8 ", " = utf8 "," ++ [Words.blank] := rfl
  have hblank : utf8 " " = [Words.blank] := rfl
  have hparam : utf8 "param " = utf8 "param" ++ [Words.blank] := rfl
  have hnew : utf8 "new " = utf8 "new" ++ [Words.blank] := rfl
  have hprint : utf8 "print " = utf8 "print" ++ [Words.blank] := rfl
  have hret : utf8 "ret " = utf8 "ret" ++ [Words.blank] := rfl
  have hlabel : utf8 "label " = utf8 "label" ++ [Words.blank] := rfl
  have hjump : utf8 "jump " = utf8 "jump" ++ [Words.blank] := rfl
  have hjne : utf8 "jne " = utf8 "jne" ++ [Words.blank] := rfl
  have hfunc : utf8 "func " = utf8 "func" ++ [Words.blank] := rfl
  have harg : utf8 "arg " = utf8 "arg" ++ [Words.blank] := rfl
  cases i
  all_goals simp only [Instr.render, Instr.words, Text.join_cons_cons, hassign, hparam, hcall,
    hcomma, hblank, hnew, hprint, hret, hlabel, hjump, hjne, hfunc, harg, Text.join_singleton,
    List.append_assoc]

/-- The lines of two words, by the first of them. -/
def Instr.forms : List (Text × (Text → Option Instr)) :=
  [(utf8 "new", fun x => some (.declare x)),
    (utf8 "func", fun x => some (.func x)),
    (utf8 "arg", fun x => some (.arg x)),
    (utf8 "label", fun x => (labelNumber? x).map .label),
    (utf8 "jump", fun x => (labelNumber? x).map .jump),
    (utf8 "param", fun x => (Operand.read? x).map .param),
    (utf8 "print", fun x => (Operand.read? x).map .print),
    (utf8 "ret", fun x => (Operand.read? x).map .ret)]

/-- The instruction that sets a temporary or a variable to the value of one word. -/
def Instr.ofAssignment? (dest source : Text) : Option Instr :=
  match tempNumber? dest with
  | some n => some (.load n source)
  | none => (Operand.read? source).map (.store dest)

/-- **The instruction with the given words.** How many there are tells the form of the line. -/
def Instr.ofWords? : List Text → Option Instr
  | [word] =>
    if word = utf8 "endfunc" then some .endFunc
    else if word = utf8 "end" then some .stop
    else none
  | [word, x] =>
    (Instr.forms.lookup word).bind (· x)
  | [x, y, z] =>
    if y = utf8 "=" then Instr.ofAssignment? x z
    else if x = utf8 "jne" then do
      let cond ← Operand.read? y
      let n ← labelNumber? z
      return .jumpUnless cond n
    else none
  | [x, y, op, operand] =>
    if y = utf8 "=" then do
      let dest ← tempNumber? x
      let op ← UnaryOp.ofMnemonic? op
      let operand ← Operand.read? operand
      return .unary dest op operand
    else none
  | [x, y, left, op, right] =>
    if y = utf8 "=" then
      if left = utf8 "call" then do
        let dest ← tempNumber? x
        return .call dest (Target.read op.dropLast) (Number.digitsValue right)
      else do
        let dest ← tempNumber? x
        let left ← Operand.read? left
        let op ← BinaryOp.ofMnemonic? op
        let right ← Operand.read? right
        return .binary dest op left right
    else none
  | _ => none

/-- **Reading a line** of a listing. -/
def Instr.read? (line : Text) : Option Instr := Instr.ofWords? (Words.split line)

/-- Instructions whose names, literals and operators are those of the language. -/
def Instr.IsReadable : Instr → Prop
  | .load _ name | .declare name | .func name | .arg name => IsReadableName name
  | .store name source => IsReadableName name ∧ source.IsReadable
  | .unary _ op operand => op.mnemonic?.isSome ∧ operand.IsReadable
  | .binary _ op left right => op.mnemonic?.isSome ∧ left.IsReadable ∧ right.IsReadable
  | .param source | .print source | .ret source | .jumpUnless source _ => source.IsReadable
  | .call _ target _ => target.IsReadable
  | .label _ | .jump _ | .endFunc | .stop => True

theorem Instr.isWord_of_mem_words {i : Instr} (h : i.IsReadable) :
    ∀ word ∈ i.words, Words.IsWord word := by
  open Words in
  cases i with
  | load dest name =>
    simpa [Instr.words, isWord_tempName, h.1] using (by decide : IsWord (utf8 "="))
  | store name source =>
    simpa [Instr.words, h.1.1, Operand.isWord_render h.2] using (by decide : IsWord (utf8 "="))
  | unary dest op operand =>
    obtain ⟨word, hword⟩ := Option.isSome_iff_exists.mp h.1
    simpa [Instr.words, isWord_tempName, hword, (UnaryOp.ofMnemonic?_mnemonic hword).2,
      Operand.isWord_render h.2] using (by decide : IsWord (utf8 "="))
  | binary dest op left right =>
    obtain ⟨word, hword⟩ := Option.isSome_iff_exists.mp h.1
    simpa [Instr.words, isWord_tempName, hword, (BinaryOp.ofMnemonic?_mnemonic hword).2,
      Operand.isWord_render h.2.1, Operand.isWord_render h.2.2]
      using (by decide : IsWord (utf8 "="))
  | param source =>
    simpa [Instr.words, Operand.isWord_render h] using (by decide : IsWord (utf8 "param"))
  | call dest target count =>
    have hcomma : IsWord (target.render ++ utf8 ",") :=
      (Target.isWord_render h).append (by decide)
    simpa [Instr.words, isWord_tempName, hcomma, isWord_ofNat]
      using (by decide : IsWord (utf8 "=") ∧ IsWord (utf8 "call"))
  | declare name => simpa [Instr.words, h.1] using (by decide : IsWord (utf8 "new"))
  | print source =>
    simpa [Instr.words, Operand.isWord_render h] using (by decide : IsWord (utf8 "print"))
  | ret source =>
    simpa [Instr.words, Operand.isWord_render h] using (by decide : IsWord (utf8 "ret"))
  | label n => simpa [Instr.words, isWord_labelName] using (by decide : IsWord (utf8 "label"))
  | jump n => simpa [Instr.words, isWord_labelName] using (by decide : IsWord (utf8 "jump"))
  | jumpUnless cond n =>
    simpa [Instr.words, isWord_labelName, Operand.isWord_render h]
      using (by decide : IsWord (utf8 "jne"))
  | func name => simpa [Instr.words, h.1] using (by decide : IsWord (utf8 "func"))
  | arg name => simpa [Instr.words, h.1] using (by decide : IsWord (utf8 "arg"))
  | endFunc => simpa [Instr.words] using (by decide : IsWord (utf8 "endfunc"))
  | stop => simpa [Instr.words] using (by decide : IsWord (utf8 "end"))

/-- The word for an operand is not the sign of an assignment, nor the word of a call. -/
theorem Operand.render_ne {o : Operand} (h : o.IsReadable) :
    o.render ≠ utf8 "=" ∧ o.render ≠ utf8 "call" := by
  have hread := Operand.read?_render h
  constructor
  · intro heq
    rw [heq] at hread
    cases hread
  · intro heq
    rw [heq] at hread
    cases hread

/-- An instruction is told by its words. -/
theorem Instr.ofWords?_words {i : Instr} (h : i.IsReadable) : Instr.ofWords? i.words = some i := by
  cases i with
  | load dest name => simp [Instr.words, Instr.ofWords?, Instr.ofAssignment?, tempNumber?_tempName]
  | store name source =>
    simp [Instr.words, Instr.ofWords?, Instr.ofAssignment?, h.1.tempNumber?,
      Operand.read?_render h.2]
  | unary dest op operand =>
    obtain ⟨word, hword⟩ := Option.isSome_iff_exists.mp h.1
    simp [Instr.words, Instr.ofWords?, tempNumber?_tempName, hword,
      (UnaryOp.ofMnemonic?_mnemonic hword).1, Operand.read?_render h.2]
  | binary dest op left right =>
    obtain ⟨word, hword⟩ := Option.isSome_iff_exists.mp h.1
    simp [Instr.words, Instr.ofWords?, tempNumber?_tempName, hword,
      (BinaryOp.ofMnemonic?_mnemonic hword).1, Operand.read?_render h.2.1,
      Operand.read?_render h.2.2, (Operand.render_ne h.2.1).2]
  | call dest target count =>
    have hdrop : (target.render ++ utf8 ",").dropLast = target.render := List.dropLast_concat
    simp [Instr.words, Instr.ofWords?, tempNumber?_tempName, hdrop, Target.read_render h,
      Number.digitsValue_ofNat]
  | jumpUnless cond n =>
    simp [Instr.words, Instr.ofWords?, (Operand.render_ne h).1, Operand.read?_render h,
      labelNumber?_labelName]
  | param source => exact congrArg (Option.map Instr.param) (Operand.read?_render h)
  | print source => exact congrArg (Option.map Instr.print) (Operand.read?_render h)
  | ret source => exact congrArg (Option.map Instr.ret) (Operand.read?_render h)
  | label n => exact congrArg (Option.map Instr.label) (labelNumber?_labelName n)
  | jump n => exact congrArg (Option.map Instr.jump) (labelNumber?_labelName n)
  | declare name => rfl
  | func name => rfl
  | arg name => rfl
  | endFunc => rfl
  | stop => rfl

/-- **A line reads back as its instruction.** -/
theorem Instr.read?_render {i : Instr} (h : i.IsReadable) : Instr.read? i.render = some i := by
  have hne : i.words ≠ [] := by
    cases i
    all_goals simp [Instr.words]
  rw [Instr.read?, Instr.render_eq_join, Words.split_join hne (Instr.isWord_of_mem_words h)]
  exact Instr.ofWords?_words h

end Badger
