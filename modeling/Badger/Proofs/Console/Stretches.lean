import Badger.Proofs.Console.Buffering

/-!
# What becomes of the lines

Every line that is fed to a console is either a command or a part of a stretch of lines that belong
together: a block, or the lines between the start and the end of paste mode. No line is lost, none
counts twice, and they stay in their order.

## Main definitions

* `Intake.Takes`: everything that taking in a line can do
* `Intake.next`, `Intake.run`: an intake after one line, and after some lines
* `Intake.requests`: what some lines ask for, one request for each line
* `Stretch`: lines that belong together; `Stretch.IsComplete` tells where they end
* `Intake.Collected`: an intake that has collected some lines
* `Intake.Sound`: what holds of an intake after any lines
* `Intake.Partition`: some lines, cut into stretches

## Main statements

* `Intake.takes_feed`: the cases of taking in a line
* `Intake.Collected.step`: one more line is collected, or completes a stretch
* `Intake.exists_partition`: **the lines of a console are stretches and what is still collected**
* `Intake.Sound.interrupt_eq`: an interrupt leaves nothing behind
* `Intake.sound_run`: outside of paste mode nothing is pasted, and nothing is collected if and only
  if no brace is open; in paste mode no block is collected and no brace is open

## Design notes

An intake depends on the lines alone: of all that a console does for a line, only the commands that
drop the block or start paste mode come back to it. So what becomes of the lines can be told without
sessions or budgets.
-/

namespace Badger

theorem Text.ofLines_eq_nil {lines : List Text} : Text.ofLines lines = [] ↔ lines = [] := by
  cases lines <;> simp [Text.ofLines, Intake.terminated]

/-- **How many braces are open after some lines**, counted from the first one on. -/
def Braces.depthOf (lines : List Text) : Nat :=
  lines.foldl (fun (depth : Nat) line => Braces.depthAfter depth line) 0

theorem Braces.depthOf_append_singleton (lines : List Text) (line : Text) :
    depthOf (lines ++ [line]) = depthAfter (depthOf lines) line :=
  List.foldl_append

namespace Intake

/-! ## One line -/

/-- Whether a line ends paste mode. -/
def IsPasteControl (line : Text) : Prop :=
  Text.trim line ∈ pasteEnds ∨ Text.trim line = pasteCancel

/-- **Everything that taking in a line can do**: the intake before, what the line asks for, and the
intake after it. -/
inductive Takes (line : Text) (i : Intake) : Request → Intake → Prop
  | command (hpasting : i.pasting = false) (hblock : i.block = []) (hdepth : i.depth = 0)
      (hword : (Text.trim line).head? = some (Text.byte ':')) :
      Takes line i (.command (Text.trim line)) i
  | opened (hpasting : i.pasting = false) (hdepth : 0 < Braces.depthAfter i.depth line) :
      Takes line i .more
        { i with block := i.block ++ terminated line, depth := Braces.depthAfter i.depth line }
  | closed (hpasting : i.pasting = false) (hdepth : Braces.depthAfter i.depth line = 0) :
      Takes line i (if Text.isBlank (i.block ++ terminated line) then .nothing
        else .evaluate (i.block ++ terminated line)) i.clearBlock
  | pasted (hpasting : i.pasting = true) (hkept : ¬IsPasteControl line) :
      Takes line i .more { i with pasted := i.pasted ++ terminated line }
  | pasteEnded (hpasting : i.pasting = true) (hends : Text.trim line ∈ pasteEnds) :
      Takes line i (if Text.isBlank i.pasted then .pasteEmpty else .evaluate i.pasted) i.endPaste
  | pasteCancelled (hpasting : i.pasting = true) (hcancels : Text.trim line = pasteCancel) :
      Takes line i .pasteCancelled i.endPaste

theorem isCollecting_eq_false {i : Intake} :
    i.isCollecting = false ↔ i.block = [] ∧ i.depth = 0 := by
  simp [isCollecting, and_comm]

/-- **The cases of taking in a line.** -/
theorem takes_feed (i : Intake) (line : Text) :
    Takes line i (i.feed line).1 (i.feed line).2 := by
  cases hpasting : i.pasting with
  | true =>
      have hfeed : i.feed line = i.feedPaste line := if_pos hpasting
      rw [hfeed, feedPaste]
      by_cases hends : Text.trim line ∈ pasteEnds
      · have htake : Takes line i _ _ := .pasteEnded hpasting hends
        rw [if_pos (List.contains_iff_mem.mpr hends)]
        split_ifs at htake ⊢ <;> exact htake
      · rw [if_neg (mt List.contains_iff_mem.mp hends)]
        by_cases hcancels : Text.trim line = pasteCancel
        · rw [if_pos hcancels]
          exact .pasteCancelled hpasting hcancels
        · rw [if_neg hcancels]
          exact .pasted hpasting (not_or.mpr ⟨hends, hcancels⟩)
  | false =>
      rw [feed, if_neg (by simp [hpasting])]
      by_cases hword : (!i.isCollecting && (Text.trim line).head? = some (Text.byte ':')) = true
      · simp only [if_pos hword]
        rw [Bool.and_eq_true, decide_eq_true_iff, Bool.not_eq_true', isCollecting_eq_false] at hword
        exact .command hpasting hword.1.1 hword.1.2 hword.2
      · simp only [if_neg hword]
        rw [feedBlock]
        by_cases hdepth : 0 < Braces.depthAfter i.depth line
        · simp only [if_pos hdepth]
          exact .opened hpasting hdepth
        · have hzero := Nat.eq_zero_of_not_pos hdepth
          have htake : Takes line i _ _ := .closed hpasting hzero
          simp only [hzero, Nat.lt_irrefl, if_false]
          split_ifs at htake ⊢ <;> exact htake

/-- **Commands are obeyed only when nothing is collected**, and leave it so. -/
theorem feed_eq_command {i : Intake} {line word : Text} (h : (i.feed line).1 = .command word) :
    (i.pasting = false ∧ i.block = [] ∧ i.depth = 0) ∧ (i.feed line).2 = i := by
  have htake := takes_feed i line
  rw [h] at htake
  generalize (i.feed line).2 = i' at htake ⊢
  generalize hrequest : Request.command word = r at htake
  cases htake with
  | command hpasting hblock hdepth hword => exact ⟨⟨hpasting, hblock, hdepth⟩, rfl⟩
  | closed hpasting hdepth => split at hrequest <;> cases hrequest
  | pasteEnded hpasting hends => split at hrequest <;> cases hrequest
  | opened | pasted | pasteCancelled => cases hrequest

/-- What a line leaves of an intake in the end. The commands that change it are those that drop the
block and the one that starts paste mode. -/
def Request.settle : Request → Intake → Intake
  | .command word, i =>
    match Directive.ofText word with
    | .paste => i.startPaste
    | .clearBlock | .resetSession => i.clearBlock
    | _ => i
  | _, i => i

/-- **An intake after one line.** -/
def next (i : Intake) (line : Text) : Intake := (i.feed line).1.settle (i.feed line).2

end Intake

/-! ## Stretches -/

/-- **Lines that belong together.** A block or what is pasted is evaluated when its last line is
fed, unless it is blank; the last line of what is pasted is not a part of it. -/
inductive Stretch where
  | command (line : Text)
  | block (earlier : List Text) (last : Text)
  | pasted (kept : List Text) (stop : Text)
  | cancelled (kept : List Text) (stop : Text)

namespace Stretch

open Intake (Request IsPasteControl pasteEnds pasteCancel startPaste)

/-- The lines of a stretch. -/
def lines : Stretch → List Text
  | .command line => [line]
  | .block earlier last => earlier ++ [last]
  | .pasted kept stop | .cancelled kept stop => kept ++ [stop]

/-- The intake at the start of a stretch. -/
def start : Stretch → Intake
  | .command _ | .block _ _ => {}
  | .pasted _ _ | .cancelled _ _ => startPaste {}

/-- What the last line of a stretch asks for. -/
def outcome : Stretch → Request
  | .command line => .command (Text.trim line)
  | .block earlier last =>
    if Text.isBlank (Text.ofLines (earlier ++ [last])) then .nothing
    else .evaluate (Text.ofLines (earlier ++ [last]))
  | .pasted kept _ =>
    if Text.isBlank (Text.ofLines kept) then .pasteEmpty else .evaluate (Text.ofLines kept)
  | .cancelled _ _ => .pasteCancelled

/-- What the lines of a stretch ask for. -/
def requests (s : Stretch) : List Request :=
  List.replicate (s.lines.length - 1) .more ++ [s.outcome]

/-- The text that a stretch hands over. -/
def text? : Stretch → Option Text
  | .block earlier last =>
    if Text.isBlank (Text.ofLines (earlier ++ [last])) then none
    else some (Text.ofLines (earlier ++ [last]))
  | .pasted kept _ =>
    if Text.isBlank (Text.ofLines kept) then none else some (Text.ofLines kept)
  | .command _ | .cancelled _ _ => none

/-- **A stretch is complete** with the line that closes the last open brace of a block, or with the
first line that ends paste mode. -/
def IsComplete : Stretch → Prop
  | .command line => (Text.trim line).head? = some (Text.byte ':')
  | .block earlier last => Braces.depthOf (earlier ++ [last]) = 0 ∧
      ∀ pre, pre <+: earlier → pre ≠ [] → 0 < Braces.depthOf pre
  | .pasted kept stop => Text.trim stop ∈ pasteEnds ∧ ∀ line ∈ kept, ¬IsPasteControl line
  | .cancelled kept stop => Text.trim stop = pasteCancel ∧ ∀ line ∈ kept, ¬IsPasteControl line

end Stretch

namespace Intake

/-! ## What is collected -/

/-- **An intake that has collected some lines**: of a block in which a brace is open after each of
them, or of what is pasted. -/
inductive Collected : List Text → Intake → Prop
  | block {lines : List Text}
      (hopen : ∀ pre, pre <+: lines → pre ≠ [] → 0 < Braces.depthOf pre) :
      Collected lines { block := Text.ofLines lines, depth := Braces.depthOf lines }
  | paste {lines : List Text} (hkept : ∀ line ∈ lines, ¬IsPasteControl line) :
      Collected lines { pasting := true, pasted := Text.ofLines lines }

/-- An intake that has collected nothing yet. -/
theorem Collected.nil : Collected [] {} :=
  .block fun _ hpre hne => absurd (List.prefix_nil.mp hpre) hne

/-- The intake with which the collecting of lines began. -/
def opening (i : Intake) : Intake := if i.pasting then startPaste {} else {}

/-- **What holds of an intake after any lines.** There are never fewer braces open than none.
Outside of paste mode nothing is pasted, and nothing is collected if and only if no brace is open;
in paste mode no block is collected and no brace is open. -/
structure Sound (i : Intake) : Prop where
  depth_nonneg : 0 ≤ i.depth
  pasted_eq_nil : i.pasting = false → i.pasted = []
  block_eq_nil_iff : i.pasting = false → (i.block = [] ↔ i.depth = 0)
  block_eq_nil : i.pasting = true → i.block = []
  depth_eq_zero : i.pasting = true → i.depth = 0

theorem Collected.sound {lines : List Text} {i : Intake} (h : Collected lines i) : i.Sound := by
  cases h with
  | paste hkept => exact ⟨Int.le_refl 0, nofun, nofun, fun _ => rfl, fun _ => rfl⟩
  | block hopen =>
      refine ⟨Int.natCast_nonneg _, fun _ => rfl, fun _ => ?_, nofun, nofun⟩
      rw [Text.ofLines_eq_nil, Int.natCast_eq_zero]
      constructor
      · rintro rfl
        rfl
      · intro hdepth
        by_contra hlines
        exact Nat.ne_of_gt (hopen lines List.prefix_rfl hlines) hdepth

/-- Outside of paste mode and of a block, a sound intake holds nothing. -/
theorem Sound.eq_empty {i : Intake} (h : i.Sound)
    (hidle : i.pasting = false ∧ i.block = [] ∧ i.depth = 0) : i = {} := by
  obtain ⟨hpasting, hblock, hdepth⟩ := hidle
  have hpasted := h.pasted_eq_nil hpasting
  obtain ⟨block, depth, pasting, pasted⟩ := i
  cases hpasting
  cases hblock
  cases hdepth
  cases hpasted
  rfl

/-- **An interrupt leaves nothing behind.** -/
theorem Sound.interrupt_eq {i : Intake} (h : i.Sound) : i.interrupt = {} := by
  unfold interrupt
  split
  next hpasting => simp [endPaste, h.block_eq_nil hpasting, h.depth_eq_zero hpasting]
  next hpasting =>
    have hpasting : i.pasting = false := Bool.eq_false_iff.mpr hpasting
    split
    next => simp [clearBlock, hpasting, h.pasted_eq_nil hpasting]
    next hidle =>
      have hblock : i.block = [] := by
        cases hblock : i.block with
        | nil => rfl
        | cons b rest => simp [hblock] at hidle
      exact h.eq_empty ⟨hpasting, hblock, (h.block_eq_nil_iff hpasting).mp hblock⟩

/-- A command is fed where nothing was collected, and after it nothing is collected. -/
private theorem collected_settle (word : Text) :
    Collected [] ((Request.command word).settle {}) := by
  rw [Request.settle]
  split
  · exact .paste (List.forall_mem_nil _)
  · exact .nil
  · exact .nil
  · exact .nil

/-- **One more line** is collected, or completes a stretch with the lines collected before. -/
theorem Collected.step {lines : List Text} {i : Intake} (h : Collected lines i) (line : Text) :
    ((i.feed line).1 = .more ∧ Collected (lines ++ [line]) (i.next line) ∧
        (i.next line).opening = i.opening) ∨
      ∃ s : Stretch, s.IsComplete ∧ s.lines = lines ++ [line] ∧ s.start = i.opening ∧
        s.outcome = (i.feed line).1 ∧ Collected [] (i.next line) := by
  have hline : Text.ofLines (lines ++ [line]) = Text.ofLines lines ++ terminated line := by
    rw [Text.ofLines_append, Text.ofLines_singleton]
  have htake := takes_feed i line
  rw [next]
  generalize (i.feed line).1 = r, (i.feed line).2 = i' at htake ⊢
  cases h with
  | block hopen =>
      have hdepthOf := Braces.depthOf_append_singleton lines line
      cases htake with
      | opened _ hdepth =>
          dsimp only at hdepth ⊢
          rw [← hdepthOf] at hdepth ⊢
          rw [← hline]
          refine .inl ⟨rfl, .block fun pre hpre hne => ?_, rfl⟩
          rcases List.prefix_concat_iff.mp hpre with rfl | hpre
          · exact hdepth
          · exact hopen pre hpre hne
      | closed _ hdepth =>
          dsimp only
          rw [← hline]
          refine .inr ⟨.block lines line, ⟨hdepthOf.trans hdepth, hopen⟩, rfl, rfl, rfl, ?_⟩
          split <;> exact .nil
      | command _ hblock hdepth hword =>
          obtain rfl := Text.ofLines_eq_nil.mp hblock
          exact .inr ⟨.command line, hword, rfl, rfl, rfl, collected_settle _⟩
      | pasted hpasting | pasteEnded hpasting | pasteCancelled hpasting => cases hpasting
  | paste hkept =>
      cases htake with
      | pasted _ hgoes =>
          dsimp only
          rw [← hline]
          refine .inl ⟨rfl, .paste ?_, rfl⟩
          rw [List.forall_mem_append]
          exact ⟨hkept, List.forall_mem_singleton.mpr hgoes⟩
      | pasteEnded _ hends =>
          refine .inr ⟨.pasted lines line, ⟨hends, hkept⟩, rfl, rfl, rfl, ?_⟩
          split <;> exact .nil
      | pasteCancelled _ hcancels =>
          exact .inr ⟨.cancelled lines line, ⟨hcancels, hkept⟩, rfl, rfl, rfl, .nil⟩
      | command hpasting | opened hpasting | closed hpasting => cases hpasting

/-! ## All lines -/

/-- **An intake after some lines.** -/
def run (i : Intake) (lines : List Text) : Intake := lines.foldl next i

/-- **What some lines ask for**, one request for each line. -/
def requests : Intake → List Text → List Request
  | _, [] => []
  | i, line :: lines => (i.feed line).1 :: (i.next line).requests lines

theorem run_append (i : Intake) (lines more : List Text) :
    i.run (lines ++ more) = (i.run lines).run more :=
  List.foldl_append

theorem requests_append (i : Intake) (lines more : List Text) :
    i.requests (lines ++ more) = i.requests lines ++ (i.run lines).requests more := by
  induction lines generalizing i with
  | nil => rfl
  | cons line lines ih => exact congrArg _ (ih _)

/-- **Some lines, cut into stretches**, and the lines that are still collected. Each line before the
last one of a stretch asks for more, and each stretch starts with an intake that has collected
nothing; `opening_eq` says the same of the lines that are still collected. -/
structure Partition (lines : List Text) (stretches : List Stretch) (pending : List Text) :
    Prop where
  lines_eq : lines = stretches.flatMap Stretch.lines ++ pending
  requests_eq : requests {} lines =
    stretches.flatMap Stretch.requests ++ List.replicate pending.length .more
  isComplete : ∀ s ∈ stretches, s.IsComplete
  start_eq : ∀ earlier s later, stretches = earlier ++ s :: later →
    run {} (earlier.flatMap Stretch.lines) = s.start
  collected : Collected pending (run {} lines)
  opening_eq : run {} (stretches.flatMap Stretch.lines) = (run {} lines).opening

/-- **One more line.** -/
theorem Partition.snoc {lines : List Text} {stretches : List Stretch} {pending : List Text}
    (h : Partition lines stretches pending) (line : Text) :
    ∃ stretches' pending', Partition (lines ++ [line]) stretches' pending' := by
  have hrun : run {} (lines ++ [line]) = (run {} lines).next line := run_append _ _ _
  have hrequests : requests {} (lines ++ [line]) =
      requests {} lines ++ [((run {} lines).feed line).1] := requests_append _ _ _
  rcases h.collected.step line with ⟨hmore, hcollected, hopening⟩ |
    ⟨s, hcomplete, hlines, hstart, houtcome, hcollected⟩
  · refine ⟨stretches, pending ++ [line], ?_, ?_, h.isComplete, h.start_eq, hrun ▸ hcollected, ?_⟩
    · rw [h.lines_eq, List.append_assoc]
    · rw [hrequests, h.requests_eq, hmore, List.length_append, List.length_singleton,
        List.replicate_succ', List.append_assoc]
    · rw [hrun, hopening, h.opening_eq]
  · have hall : (stretches ++ [s]).flatMap Stretch.lines = lines ++ [line] := by
      rw [List.flatMap_append, List.flatMap_singleton, hlines, ← List.append_assoc, ← h.lines_eq]
    have hnext : (run {} lines).next line = ((run {} lines).next line).opening := by
      generalize (run {} lines).next line = i at hcollected
      cases hcollected <;> rfl
    refine ⟨stretches ++ [s], [], ?_, ?_, ?_, ?_, hrun ▸ hcollected, ?_⟩
    · rw [hall, List.append_nil]
    · have hlength : s.lines.length - 1 = pending.length := by
        rw [hlines, List.length_append, List.length_singleton, Nat.add_sub_cancel]
      rw [hrequests, h.requests_eq, List.flatMap_append, List.flatMap_singleton, Stretch.requests,
        hlength, houtcome, List.append_assoc, List.append_assoc, List.append_assoc]
      rfl
    · rw [List.forall_mem_append]
      exact ⟨h.isComplete, List.forall_mem_singleton.mpr hcomplete⟩
    · intro earlier t later heq
      rcases List.eq_nil_or_concat later with rfl | ⟨later, last, rfl⟩
      · obtain ⟨rfl, hlast⟩ := List.append_inj' heq rfl
        rw [h.opening_eq, ← hstart, List.cons.inj hlast |>.1]
      · rw [List.concat_eq_append, ← List.cons_append, ← List.append_assoc] at heq
        exact h.start_eq earlier t later (List.append_inj' heq rfl).1
    · rw [hall, hrun]
      exact hnext

/-- **The lines of a console are stretches and what is still collected.** -/
theorem exists_partition (lines : List Text) :
    ∃ stretches pending, Partition lines stretches pending := by
  induction lines using List.reverseRecOn with
  | nil => exact ⟨[], [], rfl, rfl, List.forall_mem_nil _, by simp, .nil, rfl⟩
  | append_singleton lines line ih =>
      obtain ⟨stretches, pending, h⟩ := ih
      exact h.snoc line

/-- **The invariant of an intake.** -/
theorem sound_run (lines : List Text) : (run {} lines).Sound := by
  obtain ⟨_, _, h⟩ := exists_partition lines
  exact h.collected.sound

/-! ## What is handed over -/

/-- The text that a request hands over. -/
def Request.text? : Request → Option Text
  | .evaluate text => some text
  | _ => none

/-- A stretch hands over its text, and nothing before its last line. -/
theorem filterMap_requests (s : Stretch) :
    s.requests.filterMap Request.text? = s.text?.toList := by
  have houtcome : s.outcome.text? = s.text? := by
    cases s with
    | command line => rfl
    | cancelled kept stop => rfl
    | block earlier last =>
        rw [Stretch.outcome, Stretch.text?]
        split <;> rfl
    | pasted kept stop =>
        rw [Stretch.outcome, Stretch.text?]
        split <;> rfl
  rw [Stretch.requests, List.filterMap_append, List.filterMap_replicate_of_none rfl,
    List.nil_append, List.filterMap_eq_flatMap_toList, List.flatMap_singleton, houtcome]

/-- **The texts handed over** are those of the stretches, each one once and in their order. -/
theorem Partition.texts_eq {lines : List Text} {stretches : List Stretch} {pending : List Text}
    (h : Partition lines stretches pending) :
    (requests {} lines).filterMap Request.text? = stretches.filterMap Stretch.text? := by
  rw [h.requests_eq, List.filterMap_append, List.filterMap_replicate_of_none rfl, List.append_nil,
    List.filterMap_flatMap, List.filterMap_eq_flatMap_toList]
  exact List.flatMap_congr fun s _ => filterMap_requests s

end Intake

end Badger
