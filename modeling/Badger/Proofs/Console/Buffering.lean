import Badger.Console.Basic
import Badger.Proofs.Token.Region
import Mathlib.Data.List.Induction
import Mathlib.Data.List.Infix

/-!
# How long lines are collected

A console collects lines as long as more braces are open than closed. It counts them line by
line; the lexer sees the text that the lines make up.

## Main definitions

* `Text.ofLines`: the text of some lines
* `openedByLine`: the braces that the lexer sees in each line on its own, added up
* `Console.after`: a console after some lines

## Main statements

* `Braces.balance_eq_opened`: on one line the console counts what the lexer sees
* `Braces.depthAfter_eq_tokens`: **the depth after a line is the one told by its tokens**
* `opened_ofLines`: so it does on all lines, unless a string literal goes on from one line into
  the next one
* `Console.feed_lines`: **lines are collected until the braces of the lines are closed**
* `Console.feed_insideString`: a line inside a string literal is taken for code

## Design notes

The count starts anew in code on every line. A comment ends with its line, so this is right
behind a comment; behind a string literal that is still open it is not.
-/

namespace Badger

/-- **The text of some lines**, each ended by a newline. -/
def Text.ofLines (lines : List Text) : Text := lines.flatMap Intake.terminated

/-- **Braces opened less braces closed** in some lines, each of them read on its own. -/
def openedByLine (lines : List Text) : Int :=
  (lines.map fun line => (TokenStream.ofText line).opened).sum

/-! ## One line -/

namespace Braces

/-- A line in a comment counts nothing. -/
theorem count_comment {t : Text} (h : Text.newline ∉ t) : Region.comment.count t = 0 :=
  (Region.scans_of_stays (m := .comment) fun _ hb =>
    ⟨if_neg (ne_of_mem_of_not_mem hb h), rfl⟩).2

/-- **The count of a line** is that of its code. -/
theorem balance_eq_count (quoted : Bool) {line : Text} (h : Text.newline ∉ line) :
    balance quoted line = (if quoted then Region.quoted else Region.code).count line := by
  have hcomment : Region.code.step (Text.byte '#') = .comment ∧
      Region.code.weight (Text.byte '#') = 0 := by decide
  have hmark : Region.code.step (Text.byte '"') = .quoted ∧
      Region.code.weight (Text.byte '"') = 0 := by decide
  have hopen : Region.code.step (Text.byte '\x7b') = .code ∧
      Region.code.weight (Text.byte '\x7b') = 1 := by decide
  have hclose : Region.code.step (Text.byte '\x7d') = .code ∧
      Region.code.weight (Text.byte '\x7d') = -1 := by decide
  have hend : Region.quoted.step (Text.byte '"') = .code := by decide
  -- the cases are those of the console: where a comment starts it does not look any further
  fun_induction balance quoted line with
  | case1 => rfl
  | case2 => rfl
  | case3 escaped after ih =>
      have hrest : Text.newline ∉ after := fun hmem => h (by simp [hmem])
      rw [ih hrest]
      simp [Region.count, Region.step, Region.weight]
  | case4 b rest hescape ih =>
      rw [ih (List.not_mem_of_not_mem_cons h)]
      by_cases hquote : b = Text.byte '"'
      · simp [Region.count, Region.weight, hquote, hend]
      · simp [Region.count, Region.step, Region.weight, hescape, hquote]
  | case5 quoted rest hcode =>
      rw [if_neg hcode, Region.count, hcomment.1, hcomment.2,
        count_comment (List.not_mem_of_not_mem_cons h)]
      rfl
  | case6 quoted rest hcode _ ih =>
      rw [ih (List.not_mem_of_not_mem_cons h), if_neg hcode, Region.count, hmark.1, hmark.2]
      simp
  | case7 quoted rest hcode _ _ ih =>
      rw [ih (List.not_mem_of_not_mem_cons h), if_neg hcode, Region.count, hopen.1, hopen.2,
        if_neg Bool.false_ne_true]
      omega
  | case8 quoted rest hcode _ _ _ ih =>
      rw [ih (List.not_mem_of_not_mem_cons h), if_neg hcode, Region.count, hclose.1, hclose.2,
        if_neg Bool.false_ne_true]
      omega
  | case9 quoted b rest hcode hcomment hquote hopen hclose ih =>
      rw [ih (List.not_mem_of_not_mem_cons h), if_neg hcode]
      simp [Region.count, Region.step, Region.weight, hcomment, hquote, hopen, hclose]

/-- **On one line the console counts what the lexer sees.** -/
theorem balance_eq_opened {line : Text} (h : Text.newline ∉ line) :
    balance false line = (TokenStream.ofText line).opened := by
  rw [TokenStream.opened_ofText, balance_eq_count false h]
  rfl

/-- **The depth after a line is the one told by its tokens**: the depth before it, the opening
braces added and the closing ones taken off, cut off at zero. This holds in whole numbers, and in
words of 64 bits, where the sum wraps around. -/
theorem depthAfter_eq_tokens (depth : Int) {line : Text} (h : Text.newline ∉ line) :
    let tokens := (TokenStream.ofText line).tokens
    let sum := depth + tokens.countP (·.kind = .lbrace) - tokens.countP (·.kind = .rbrace)
    (depthAfter depth line : Int) = max 0 sum ∧
      (depthAfterInWord depth line : Int) = max 0 (sum.bmod (2 ^ 64)) := by
  intro tokens sum
  have hsum : depth + balance false line = sum := by
    rw [balance_eq_opened h, TokenStream.opened, ← Int.add_sub_assoc]
  refine ⟨?_, ?_⟩
  · rw [depthAfter, hsum, Int.ofNat_toNat, Int.max_comm]
  · rw [depthAfterInWord, hsum, Int.ofNat_toNat, Int.max_comm]
    rfl

/-- An escape in front of a byte that is no character, a literal that closes after it, and braces
in the literal and in the comment: the only brace that counts stands between them. -/
theorem depthAfter_eq_tokens_escaped :
    let line := utf8 "\"\\" ++ [255] ++ utf8 "\\\"\x7d\" \x7b # \" \x7d"
    let tokens := (TokenStream.ofText line).tokens
    Text.newline ∉ line ∧
      tokens.countP (·.kind = .lbrace) = 1 ∧ tokens.countP (·.kind = .rbrace) = 0 ∧
      depthAfter 2 line = 3 := by
  intro line tokens
  have hline : Text.newline ∉ line := by decide
  have hopen : tokens.countP (·.kind = .lbrace) = 1 := by decide
  have hclose : tokens.countP (·.kind = .rbrace) = 0 := by decide
  obtain ⟨hdepth, -⟩ := depthAfter_eq_tokens 2 hline
  rw [hopen, hclose] at hdepth
  exact ⟨hline, hopen, hclose, Int.ofNat.inj hdepth⟩

end Braces

/-! ## Several lines -/

@[simp] theorem openedByLine_append (lines more : List Text) :
    openedByLine (lines ++ more) = openedByLine lines + openedByLine more := by
  simp [openedByLine]

@[simp] theorem Text.ofLines_append (lines more : List Text) :
    Text.ofLines (lines ++ more) = Text.ofLines lines ++ Text.ofLines more :=
  List.flatMap_append

theorem Text.ofLines_singleton (line : Text) : Text.ofLines [line] = Intake.terminated line := by
  simp [Text.ofLines]

/-- A newline leads out of a comment, and counts nothing. -/
theorem Region.scans_newline (m : Region) :
    (m.step Text.newline = .code ∨ m.step Text.newline = .quoted) ∧
      m.weight Text.newline = 0 := by
  cases m <;> decide

theorem count_terminated (m : Region) (line : Text) :
    m.count (Intake.terminated line) = m.count line := by
  have hnewline : (m.after line).count [Text.newline] = 0 := by
    simp [Region.count, (Region.scans_newline _).2]
  rw [Intake.terminated, Region.count_append, hnewline, Int.add_zero]

/-- Lines that do not end in a string literal end in code. -/
theorem after_ofLines {lines : List Text} (h : ¬EndsInString (Text.ofLines lines)) :
    Region.code.after (Text.ofLines lines) = .code := by
  induction lines using List.reverseRecOn with
  | nil => rfl
  | append_singleton lines line _ =>
      rw [EndsInString, not_or] at h
      rw [Text.ofLines_append, Text.ofLines_singleton, Intake.terminated, ← List.append_assoc,
        Region.after_append] at h ⊢
      exact (Region.scans_newline _).1.resolve_right h.1

/-- **On all lines the console counts what the lexer sees**, unless a string literal goes on from
one line into the next one. -/
theorem opened_ofLines {init : List Text} {last : Text}
    (h : ∀ pre, pre <+: init → ¬EndsInString (Text.ofLines pre)) :
    (TokenStream.ofText (Text.ofLines (init ++ [last]))).opened =
      openedByLine (init ++ [last]) := by
  induction init using List.reverseRecOn generalizing last with
  | nil =>
      rw [TokenStream.opened_ofText]
      simp [openedByLine, Text.ofLines, count_terminated, TokenStream.opened_ofText]
  | append_singleton init line ih =>
      have hearlier := @ih line fun pre hpre => h pre (hpre.trans (List.prefix_append _ _))
      have hcode := after_ofLines (h _ List.prefix_rfl)
      rw [TokenStream.opened_ofText] at hearlier ⊢
      rw [Text.ofLines_append, Region.count_append, hcode, hearlier, Text.ofLines_singleton,
        count_terminated, openedByLine_append (init ++ [line])]
      simp [openedByLine, TokenStream.opened_ofText]

/-! ## The console -/

namespace Console

/-- **A console after some lines.** -/
def after (fuel : Nat) (c : Console) (lines : List Text) : Console :=
  lines.foldl (fun c line => (c.feed fuel line).2) c

@[simp] theorem after_nil (fuel : Nat) (c : Console) : c.after fuel [] = c := rfl

@[simp] theorem after_append (fuel : Nat) (c : Console) (lines more : List Text) :
    c.after fuel (lines ++ more) = (c.after fuel lines).after fuel more :=
  List.foldl_append

/-- A console that has collected some lines. -/
def collecting (c : Console) (lines : List Text) : Console :=
  { c with intake := { block := Text.ofLines lines, depth := (openedByLine lines).toNat } }

/-- What a console does with the lines that it has collected and one more line. -/
def closing (fuel : Nat) (c : Console) (lines : List Text) : Reply × Console :=
  if 0 < openedByLine lines then ({}, c.collecting lines)
  else if Text.isBlank (Text.ofLines lines) then ({}, c)
  else c.evaluateTyped fuel (Text.ofLines lines)

/-- **One more line.** -/
theorem feed_collecting (fuel : Nat) {c : Console} (hidle : c.intake = {}) {init : List Text}
    {last : Text} (hlast : Text.newline ∉ last) (hopen : 0 ≤ openedByLine init)
    (hcommand : init = [] → (Text.trim last).head? ≠ some (Text.byte ':')) :
    (c.collecting init).feed fuel last = c.closing fuel (init ++ [last]) := by
  have hc : { c with intake := {} } = c := by
    rw [← hidle]
  have hsum : openedByLine (init ++ [last]) = openedByLine init + Braces.balance false last := by
    rw [openedByLine_append, Braces.balance_eq_opened hlast]
    simp [openedByLine]
  have hdepth : Braces.depthAfter (openedByLine init).toNat last =
      (openedByLine (init ++ [last])).toNat := by
    rw [Braces.depthAfter, hsum, Int.toNat_of_nonneg hopen]
  -- commands are looked for only as long as nothing is collected
  have hfeed :
      (c.collecting init).intake.feed last = (c.collecting init).intake.feedBlock last := by
    rw [Intake.feed, if_neg (by simp [collecting])]
    refine if_neg fun hword => ?_
    rw [Bool.and_eq_true, Bool.not_eq_true', decide_eq_true_eq] at hword
    refine hcommand ?_ hword.2
    cases init with
    | nil => rfl
    | cons line init =>
        have hcollecting : (c.collecting (line :: init)).intake.isCollecting = true := by
          simp [Intake.isCollecting, collecting, Text.ofLines, Intake.terminated]
        rw [hcollecting] at hword
        cases hword.1
  have hblock : (c.collecting init).intake.block = Text.ofLines init := rfl
  have hintake : (c.collecting init).intake.depth = (openedByLine init).toNat := rfl
  unfold feed closing
  rw [hfeed, Intake.feedBlock, hblock, hintake, hdepth, ← Text.ofLines_singleton,
    ← Text.ofLines_append]
  by_cases hpos : 0 < openedByLine (init ++ [last])
  · have hpos' : 0 < (openedByLine (init ++ [last])).toNat := by omega
    rw [if_pos hpos, if_pos hpos']
    rfl
  · have hzero : (openedByLine (init ++ [last])).toNat = 0 := by omega
    rw [if_neg hpos, hzero, if_neg (Nat.lt_irrefl 0)]
    split_ifs with hblank
    · exact congrArg (({} : Reply), ·) hc
    · exact congrArg (fun d : Console => d.evaluateTyped fuel _) hc

theorem forall_head?_of_append {P : Text → Prop} {lines more : List Text}
    (h : ∀ line ∈ (lines ++ more).head?, P line) : ∀ line ∈ lines.head?, P line := by
  intro line hmem
  refine h line ?_
  rw [Option.mem_def] at hmem ⊢
  rw [List.head?_append, hmem]
  rfl

/-- Lines that leave a brace open each time are collected. -/
theorem after_eq_collecting (fuel : Nat) {c : Console} (hidle : c.intake = {}) {lines : List Text}
    (hlines : ∀ line ∈ lines, Text.newline ∉ line)
    (hcommand : ∀ line ∈ lines.head?, (Text.trim line).head? ≠ some (Text.byte ':'))
    (hopen : ∀ pre, pre <+: lines → pre ≠ [] → 0 < openedByLine pre) :
    c.after fuel lines = c.collecting lines ∧ 0 ≤ openedByLine lines := by
  induction lines using List.reverseRecOn with
  | nil =>
      refine ⟨?_, Int.le_refl 0⟩
      show c = { c with intake := {} }
      rw [← hidle]
  | append_singleton lines line ih =>
      -- the sum does not fall below zero, so that cutting it off at zero changes nothing
      rw [List.forall_mem_append] at hlines
      obtain ⟨hafter, hsum⟩ := ih hlines.1 (forall_head?_of_append hcommand) fun pre hpre =>
        hopen pre (hpre.trans (List.prefix_append _ _))
      have hpos := hopen _ List.prefix_rfl (by simp)
      have hfeed := feed_collecting fuel hidle (hlines.2 line (by simp)) hsum fun hnil => by
        subst hnil
        exact hcommand line rfl
      refine ⟨?_, Int.le_of_lt hpos⟩
      rw [after_append, hafter]
      show ((c.collecting lines).feed fuel line).2 = _
      rw [hfeed, closing, if_pos hpos]

/-- **Lines are collected until the braces of the lines are closed.** As long as the lexer sees
more braces opened than closed, line by line, nothing is evaluated; the first line after which it
does not hands over the text of all lines, unless that is blank. Braces counted line by line are
the braces of the text, as long as no string literal goes on from one line into the next one. -/
theorem feed_lines (fuel : Nat) {c : Console} (hidle : c.intake = {}) {init : List Text}
    {last : Text} (hlines : ∀ line ∈ init ++ [last], Text.newline ∉ line)
    (hcommand : ∀ line ∈ (init ++ [last]).head?, (Text.trim line).head? ≠ some (Text.byte ':'))
    (hopen : ∀ pre, pre <+: init → pre ≠ [] → 0 < openedByLine pre) :
    (c.after fuel init).feed fuel last =
        (if 0 < openedByLine (init ++ [last]) then ({}, c.collecting (init ++ [last]))
        else if Text.isBlank (Text.ofLines (init ++ [last])) then ({}, c)
        else c.evaluateTyped fuel (Text.ofLines (init ++ [last]))) ∧
      ((∀ pre, pre <+: init → ¬EndsInString (Text.ofLines pre)) →
        ∀ pre, pre <+: init ++ [last] →
          openedByLine pre = (TokenStream.ofText (Text.ofLines pre)).opened) := by
  rw [List.forall_mem_append] at hlines
  refine ⟨?_, fun hclosed pre hpre => ?_⟩
  · obtain ⟨hafter, hsum⟩ :=
      after_eq_collecting fuel hidle hlines.1 (forall_head?_of_append hcommand) hopen
    rw [hafter]
    refine feed_collecting fuel hidle (hlines.2 last (by simp)) hsum ?_
    rintro rfl
    exact hcommand last rfl
  · induction pre using List.reverseRecOn with
    | nil => rfl
    | append_singleton pre line _ =>
        refine (opened_ofLines fun earlier hearlier => hclosed earlier (hearlier.trans ?_)).symm
        have hlength := hpre.length_le
        rw [List.length_append, List.length_append, List.length_singleton,
          List.length_singleton] at hlength
        exact List.prefix_of_prefix_length_le ((List.prefix_append _ _).trans hpre)
          (List.prefix_append _ _) (by omega)

/-- The body of a function; braces in a string and in a comment do not count. -/
theorem feed_lines_body :
    let c := new {} { root := utf8 "/" }
    let text := utf8 "fxn f() \x7b\nreturn \"\x7d\"; # \x7d\n\x7d\n"
    (c.after 5 [utf8 "fxn f() \x7b", utf8 "return \"\x7d\"; # \x7d"]).feed 5 (utf8 "\x7d") =
        c.evaluateTyped 5 text ∧
      (TokenStream.ofText text).opened = 0 := by
  have hopen : ∀ pre ∈ [utf8 "fxn f() \x7b", utf8 "return \"\x7d\"; # \x7d"].inits,
      pre ≠ [] → 0 < openedByLine pre := by decide
  have hclosed : ∀ pre ∈ [utf8 "fxn f() \x7b", utf8 "return \"\x7d\"; # \x7d"].inits,
      ¬EndsInString (Text.ofLines pre) := by decide
  simp only [List.mem_inits] at hopen hclosed
  have hlines : ∀ line ∈ [utf8 "fxn f() \x7b", utf8 "return \"\x7d\"; # \x7d"] ++ [utf8 "\x7d"],
      Text.newline ∉ line := by decide
  obtain ⟨hfeed, hagree⟩ :=
    feed_lines 5 (c := new {} { root := utf8 "/" }) rfl hlines (by decide) hopen
  exact ⟨hfeed, (hagree hclosed _ List.prefix_rfl).symm⟩

/-- **A line inside a string literal is taken for code.** The brace on the second line stands in a
literal; it counts all the same, and the block is handed over although a brace is open. -/
theorem feed_insideString :
    let first := Intake.feed {} (utf8 "\x7b println(\"")
    let text := Text.ofLines [utf8 "\x7b println(\"", utf8 "\x7d"]
    first.1 = .more ∧ 0 < (TokenStream.ofText text).opened ∧
      (first.2.feed (utf8 "\x7d")).1 = .evaluate text := by
  decide

end Console

end Badger
