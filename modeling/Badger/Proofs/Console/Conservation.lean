import Badger.Proofs.Console.Stretches
import Badger.Proofs.Number.Shortest

/-!
# A console loses, repeats and reorders nothing

What happens to the session of a console is a list of events: text that was typed is evaluated, a
file is evaluated, or the session is reset. The texts that were typed are those of the stretches
into which the lines fall, each one under a name of its own.

## Main definitions

* `Console.Event`: what happens to the session of a console
* `Console.events`, `Console.history`: what a line, and what some lines make happen
* `Console.typed`: what was typed and evaluated, with the names it went by

## Main statements

* `Console.feed_spec`: what a line does to the intake, the count and the session of a console
* `Console.chunkName_injective`: pieces of typed text have different names
* `Console.stretches_conserved`: **a console loses, repeats and reorders nothing**
-/

namespace Badger

namespace Console

open Intake (Request)

/-! ## Events -/

/-- **What happens to the session of a console.** -/
inductive Event where
  | typed (name text : Text)
  | loaded (name text : Text)
  | reset

/-- The session after an event. -/
def Event.apply (fuel : Nat) (s : Session) : Event → Session
  | .typed name text | .loaded name text => (s.eval fuel name text).2.clearOutput
  | .reset => s.reset

/-- The name and the text of an evaluation of typed text. -/
def Event.typed? : Event → Option (Text × Text)
  | .typed name text => some (name, text)
  | .loaded _ _ | .reset => none

/-- What a command makes happen. -/
def ordered (c : Console) : Directive → List Event
  | .load path =>
    if path.isEmpty then []
    else
      match c.files.read (c.files.absolute path) with
      | .error _ => []
      | .ok text => [.loaded (Path.base (c.files.absolute path)) text]
  | .resetSession => [.reset]
  | _ => []

/-- **What a line makes happen.** -/
def events (c : Console) (line : Text) : List Event :=
  match (c.intake.feed line).1 with
  | .evaluate text => [.typed (chunkName (c.chunks + 1)) text]
  | .command word => c.ordered (.ofText word)
  | _ => []

/-- **What some lines make happen.** -/
def history (fuel : Nat) : Console → List Text → List Event
  | _, [] => []
  | c, line :: lines => c.events line ++ history fuel (c.feed fuel line).2 lines

/-- **What was typed and evaluated**, with the names it went by. -/
def typed (fuel : Nat) (c : Console) (lines : List Text) : List (Text × Text) :=
  (history fuel c lines).filterMap Event.typed?

/-! ## One line -/

/-- **What a command does.** -/
theorem obey_spec (fuel : Nat) (c : Console) (word : Text) :
    (c.obey fuel (.ofText word)).2.intake = (Request.command word).settle c.intake ∧
      (c.obey fuel (.ofText word)).2.chunks = c.chunks ∧
      (c.obey fuel (.ofText word)).2.session =
        (c.ordered (.ofText word)).foldl (Event.apply fuel) c.session := by
  rw [Intake.Request.settle]
  cases Directive.ofText word with
  | load path =>
      rw [obey, ordered]
      split
      · exact ⟨rfl, rfl, rfl⟩
      · rw [load]
        cases c.files.read (c.files.absolute path) <;> exact ⟨rfl, rfl, rfl⟩
  | changeDirectory path =>
      rw [obey]
      split
      · exact ⟨rfl, rfl, rfl⟩
      · rw [changeDirectory]
        cases c.files.changeDirectory path <;> exact ⟨rfl, rfl, rfl⟩
  | _ => exact ⟨rfl, rfl, rfl⟩

/-- A command evaluates no typed text. -/
theorem filterMap_ordered (c : Console) (d : Directive) :
    (c.ordered d).filterMap Event.typed? = [] := by
  cases d with
  | load path =>
      rw [ordered]
      split
      · rfl
      · cases c.files.read (c.files.absolute path) <;> rfl
  | _ => rfl

/-- **What a line does** to the intake, the count and the session of a console. -/
theorem feed_spec (fuel : Nat) (c : Console) (line : Text) :
    (c.feed fuel line).2.intake = c.intake.next line ∧
      (c.feed fuel line).2.chunks =
        c.chunks + ((c.events line).filterMap Event.typed?).length ∧
      (c.feed fuel line).2.session = (c.events line).foldl (Event.apply fuel) c.session := by
  have hfeed : c.feed fuel line =
      answer fuel { c with intake := (c.intake.feed line).2 } (c.intake.feed line).1 := rfl
  rw [hfeed, Intake.next, events]
  cases hrequest : (c.intake.feed line).1 with
  | more | nothing | pasteEmpty | pasteCancelled | evaluate text => exact ⟨rfl, rfl, rfl⟩
  | command word =>
      rw [(Intake.feed_eq_command hrequest).2]
      obtain ⟨hintake, hchunks, hsession⟩ := obey_spec fuel c word
      refine ⟨hintake, ?_, hsession⟩
      rw [answer, hchunks, filterMap_ordered, List.length_nil, Nat.add_zero]

/-- The evaluation that a line asks for goes by the next number. -/
theorem filterMap_events (c : Console) (line : Text) :
    (c.events line).filterMap Event.typed? =
      ((c.intake.feed line).1.text?.map (chunkName (c.chunks + 1), ·)).toList := by
  rw [events]
  cases (c.intake.feed line).1 with
  | command word => exact filterMap_ordered c _
  | _ => rfl

/-! ## All lines -/

/-- The intake of a console depends on nothing but the lines. -/
theorem intake_after (fuel : Nat) (c : Console) (lines : List Text) :
    (c.after fuel lines).intake = c.intake.run lines := by
  induction lines generalizing c with
  | nil => rfl
  | cons line lines ih =>
      have hline := ih (c.feed fuel line).2
      rw [(feed_spec fuel c line).1] at hline
      exact hline

theorem chunks_after (fuel : Nat) (c : Console) (lines : List Text) :
    (c.after fuel lines).chunks = c.chunks + (c.typed fuel lines).length := by
  induction lines generalizing c with
  | nil => rfl
  | cons line lines ih =>
      have hline := ih (c.feed fuel line).2
      rw [(feed_spec fuel c line).2.1, Nat.add_assoc, ← List.length_append] at hline
      rw [typed, history, List.filterMap_append]
      exact hline

/-- **The session of a console** is what its history makes of it. -/
theorem session_after (fuel : Nat) (c : Console) (lines : List Text) :
    (c.after fuel lines).session =
      (history fuel c lines).foldl (Event.apply fuel) c.session := by
  induction lines generalizing c with
  | nil => rfl
  | cons line lines ih =>
      have hline := ih (c.feed fuel line).2
      rw [(feed_spec fuel c line).2.2] at hline
      rw [history, List.foldl_append]
      exact hline

/-- **What was typed** are the texts handed over, numbered from the count on. -/
theorem typed_eq (fuel : Nat) (c : Console) (lines : List Text) :
    c.typed fuel lines = (((c.intake.requests lines).filterMap Request.text?).zipIdx
      (c.chunks + 1)).map fun p => (chunkName p.2, p.1) := by
  induction lines generalizing c with
  | nil => rfl
  | cons line lines ih =>
      have hline := ih (c.feed fuel line).2
      obtain ⟨hintake, hchunks, -⟩ := feed_spec fuel c line
      rw [hintake, hchunks, filterMap_events] at hline
      rw [typed, history, List.filterMap_append, filterMap_events, ← typed, hline,
        Intake.requests, List.filterMap_cons]
      cases (c.intake.feed line).1.text? <;> simp

/-! ## Names -/

/-- **Pieces of typed text have different names.** -/
theorem chunkName_injective : Function.Injective chunkName := by
  intro m n hname
  have hdigits : Text.ofNat m = Text.ofNat n :=
    List.append_cancel_left (List.append_cancel_right hname)
  rw [← Number.digitsValue_ofNat m, hdigits, Number.digitsValue_ofNat]

/-- The names of what was typed count up. -/
theorem map_fst_typed (fuel : Nat) (c : Console) (lines : List Text) :
    (c.typed fuel lines).map Prod.fst =
      (List.range' (c.chunks + 1) (c.typed fuel lines).length).map chunkName := by
  rw [typed_eq, List.map_map, List.length_map, List.length_zipIdx, ← List.zipIdx_map_snd,
    List.map_map]
  rfl

/-- The texts of what was typed are those that the lines hand over. -/
theorem map_snd_typed (fuel : Nat) (c : Console) (lines : List Text) :
    (c.typed fuel lines).map Prod.snd = (c.intake.requests lines).filterMap Request.text? := by
  rw [typed_eq, List.map_map]
  exact List.zipIdx_map_fst _ _

/-- **A console loses, repeats and reorders nothing.** After any lines the intake is sound: no fewer
braces are open than none; outside of paste mode nothing is pasted, and no block is collected if and
only if no brace is open; in paste mode no block is collected and no brace is open. The count is
that of the texts typed and evaluated. The lines fall into stretches, in their order, and into what
is still collected; the texts that the session evaluates are those of the stretches, each one once,
in their order and under a name of its own. A command finds nothing collected and nothing pasted. -/
theorem stretches_conserved (settings : Settings) (files : Files) (fuel : Nat)
    (lines : List Text) :
    let c := new settings files
    (∀ fed, (c.after fuel fed).intake = Intake.run {} fed) ∧
      (c.after fuel lines).intake.Sound ∧
      (c.after fuel lines).chunks = (c.typed fuel lines).length ∧
      (c.after fuel lines).session =
        (history fuel c lines).foldl (Event.apply fuel) c.session ∧
      (∃ stretches pending, Intake.Partition lines stretches pending ∧
        (c.typed fuel lines).map Prod.snd = stretches.filterMap Stretch.text?) ∧
      (c.typed fuel lines).map Prod.fst =
        (List.range' 1 (c.typed fuel lines).length).map chunkName ∧
      ((c.typed fuel lines).map Prod.fst).Nodup ∧
      ∀ line word, ((c.after fuel lines).intake.feed line).1 = .command word →
        (c.after fuel lines).intake = {} := by
  intro c
  have hintake (fed : List Text) : (c.after fuel fed).intake = Intake.run {} fed :=
    intake_after fuel c fed
  have hcount : (c.after fuel lines).chunks = 0 + (c.typed fuel lines).length :=
    chunks_after fuel c lines
  have hnames := map_fst_typed fuel c lines
  have hsound : (c.after fuel lines).intake.Sound := by
    rw [hintake]
    exact Intake.sound_run lines
  obtain ⟨stretches, pending, hpartition⟩ := Intake.exists_partition lines
  refine ⟨hintake, hsound, ?_, session_after fuel c lines, ⟨stretches, pending, hpartition, ?_⟩,
    hnames, ?_, fun line word hcommand => ?_⟩
  · rw [hcount, Nat.zero_add]
  · rw [map_snd_typed]
    exact hpartition.texts_eq
  · rw [hnames]
    exact (List.nodup_range' _).map chunkName_injective
  · exact hsound.eq_empty (Intake.feed_eq_command hcommand).1

end Console

end Badger
