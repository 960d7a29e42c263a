import Badger.CommandLine.Arguments
import Mathlib.Logic.ExistsUnique

/-!
# Flags among the arguments

The flags that name a file of settings are taken out of the arguments. The arguments are read from
the left: a flag takes the argument behind it as its path, whatever that looks like, or it carries
its path behind an equals sign. There is one such reading, and the answer is read off it. Any number
of dashes makes a flag, so that an argument with three of them is taken out as well.

## Main definitions

* `Argument.flagOf`, `Argument.carrierOf`: a flag with some dashes, alone and with its path
* `Arguments.Entry`: what is read at a time, an argument that is kept or a flag with its path
* `Arguments.Reads`: arguments as entries one after the other, read with flags of some dashes
* `Arguments.answer`: what is left of the arguments, and the path of the last flag

## Main statements

* `Arguments.exists_reads`, `Arguments.Reads.unique`: there is one reading
* `Arguments.Reads.split_eq`: the answer is that of the reading with any number of dashes
* `Arguments.split_reads`: **exactly the flags are taken out**, and when one or two dashes give the
  same answer
-/

namespace Badger

namespace Argument

/-! ## One argument -/

/-- The flag that names a file of settings, with so many dashes. -/
def flagOf (dashes : Nat) : Text := List.replicate dashes (Text.byte '-') ++ flagName

/-- The flag with its path behind an equals sign. -/
def carrierOf (dashes : Nat) (path : Text) : Text :=
  List.replicate dashes (Text.byte '-') ++ (flagName ++ Text.byte '=' :: path)

/-- A flag, alone or with its path, with a number of dashes that is admitted. -/
def IsFlag (admits : Nat → Prop) (a : Text) : Prop :=
  ∃ dashes, admits dashes ∧ (a = flagOf dashes ∨ ∃ path, a = carrierOf dashes path)

theorem IsFlag.mono {admits admits' : Nat → Prop} (hsub : ∀ d, admits d → admits' d) {a : Text}
    (h : IsFlag admits a) : IsFlag admits' a := by
  obtain ⟨d, hd, hflag⟩ := h
  exact ⟨d, hsub d hd, hflag⟩

/-- A text without a dash in front. -/
def Undashed (t : Text) : Prop := t.head? ≠ some (Text.byte '-')

variable {d d' : Nat} {p p' t t' a : Text}

theorem undashed_flagName : Undashed flagName := by
  show some (Text.byte 'c') ≠ _
  decide

theorem undashed_flagName_append (t : Text) : Undashed (flagName ++ t) := undashed_flagName

/-- No dash is taken away from such a text. -/
theorem Undashed.dropWhile_eq (ht : Undashed t) : t.dropWhile (· == Text.byte '-') = t := by
  cases t with
  | nil => rfl
  | cons c t =>
      refine List.dropWhile_cons_of_neg fun hc => ht ?_
      rw [List.head?_cons, beq_iff_eq.mp hc]

/-- The dashes in front of a text are counted. -/
theorem exists_dashes (a : Text) :
    ∃ d t, a = List.replicate d (Text.byte '-') ++ t ∧ Undashed t := by
  induction a with
  | nil => exact ⟨0, [], rfl, nofun⟩
  | cons c a ih =>
      by_cases hc : c = Text.byte '-'
      · obtain ⟨d, t, rfl, ht⟩ := ih
        exact ⟨d + 1, t, by rw [hc]; rfl, ht⟩
      · exact ⟨0, c :: a, rfl, fun h => hc (Option.some.inj h)⟩

/-- **The dashes in front of a text are told apart from it.** -/
theorem dashes_inj (ht : Undashed t) (ht' : Undashed t')
    (h : List.replicate d (Text.byte '-') ++ t = List.replicate d' (Text.byte '-') ++ t') :
    d = d' ∧ t = t' := by
  induction d generalizing d' with
  | zero =>
      cases d' with
      | zero => exact ⟨rfl, h⟩
      | succ d' => exact absurd (congrArg List.head? h) ht
  | succ d ih =>
      cases d' with
      | zero => exact absurd (congrArg List.head? h).symm ht'
      | succ d' =>
          obtain ⟨rfl, rfl⟩ := ih (List.cons.inj h).2
          exact ⟨rfl, rfl⟩

theorem flagOf_inj (h : flagOf d = flagOf d') : d = d' :=
  (dashes_inj undashed_flagName undashed_flagName h).1

theorem carrierOf_inj (h : carrierOf d p = carrierOf d' p') : d = d' ∧ p = p' := by
  obtain ⟨hd, hname⟩ := dashes_inj (undashed_flagName_append _) (undashed_flagName_append _) h
  exact ⟨hd, (List.cons.inj (List.append_cancel_left hname)).2⟩

theorem flagOf_ne_carrierOf : flagOf d ≠ carrierOf d' p := by
  intro h
  obtain ⟨-, hname⟩ := dashes_inj undashed_flagName (undashed_flagName_append _) h
  have hlength := congrArg List.length hname
  simp at hlength

/-! ## The kind of an argument -/

/-- The kind of an argument with dashes in front. -/
theorem ofText_dashes (hd : 0 < d) (ht : Undashed t) :
    ofText (List.replicate d (Text.byte '-') ++ t) =
      if t = flagName then .flag
      else if Text.startsWith t (flagName ++ [Text.byte '=']) then
        .carrier (t.drop (flagName.length + 1))
      else .ordinary := by
  have hdrop : (List.replicate d (Text.byte '-') ++ t).dropWhile (· == Text.byte '-') = t := by
    rw [List.dropWhile_append_of_pos (by simp), ht.dropWhile_eq]
  have hne : List.replicate d (Text.byte '-') ++ t ≠ t := by
    intro h
    have hlength := congrArg List.length h
    rw [List.length_append, List.length_replicate] at hlength
    omega
  rw [ofText]
  simp only [hdrop, if_neg hne]

theorem ofText_flagOf (hd : 0 < d) : ofText (flagOf d) = .flag := by
  rw [flagOf, ofText_dashes hd undashed_flagName, if_pos rfl]

theorem ofText_carrierOf (hd : 0 < d) (p : Text) : ofText (carrierOf d p) = .carrier p := by
  have hne : flagName ++ Text.byte '=' :: p ≠ flagName := by simp
  have hstart : Text.startsWith (flagName ++ Text.byte '=' :: p)
      (flagName ++ [Text.byte '=']) = true := by
    rw [Text.startsWith, List.isPrefixOf_iff_prefix]
    exact ⟨p, by simp⟩
  rw [carrierOf, ofText_dashes hd (undashed_flagName_append _), if_neg hne, if_pos hstart]
  rfl

/-- **An argument is left alone** if and only if it is no flag. -/
theorem ofText_eq_ordinary_iff : ofText a = .ordinary ↔ ¬IsFlag (0 < ·) a := by
  constructor
  · rintro h ⟨d, hd, rfl | ⟨p, rfl⟩⟩
    · cases (ofText_flagOf hd).symm.trans h
    · cases (ofText_carrierOf hd p).symm.trans h
  · intro h
    obtain ⟨d, t, rfl, ht⟩ := exists_dashes a
    rcases Nat.eq_zero_or_pos d with rfl | hd
    · show ofText t = _
      rw [ofText]
      simp only [ht.dropWhile_eq, if_true]
    · rw [ofText_dashes hd ht]
      split
      · next hname => exact absurd ⟨d, hd, .inl (by rw [hname, flagOf])⟩ h
      · split
        · next hstart =>
          rw [Text.startsWith, List.isPrefixOf_iff_prefix] at hstart
          obtain ⟨p, rfl⟩ := hstart
          exact absurd ⟨d, hd, .inr ⟨p, by simp [carrierOf]⟩⟩ h
        · rfl

end Argument

namespace Arguments

/-! ## Readings -/

/-- **An entry**: an argument that is kept, a flag and the argument behind it, or a flag that
carries its path. -/
inductive Entry where
  | kept (a : Text)
  | spaced (dashes : Nat) (path : Text)
  | joined (dashes : Nat) (path : Text)

namespace Entry

/-- The arguments that an entry consists of. -/
def arguments : Entry → List Text
  | kept a => [a]
  | spaced dashes path => [Argument.flagOf dashes, path]
  | joined dashes path => [Argument.carrierOf dashes path]

/-- The argument that is kept, if it is one. -/
def kept? : Entry → Option Text
  | kept a => some a
  | _ => none

/-- The path of a flag. -/
def path? : Entry → Option Text
  | kept _ => none
  | spaced _ path | joined _ path => some path

/-- The arguments that are kept, in their order. -/
def allKept (entries : List Entry) : List Text := entries.filterMap kept?

/-- The path of the last flag, if there is a flag. -/
def lastPath? (entries : List Entry) : Option Text := (entries.filterMap path?).getLast?

variable {e : Entry} {a p : Text}

@[simp] theorem allKept_cons_kept (a : Text) (entries : List Entry) :
    allKept (kept a :: entries) = a :: allKept entries := rfl

theorem allKept_map_kept (args : List Text) : allKept (args.map kept) = args := by
  induction args with
  | nil => rfl
  | cons a args ih => rw [List.map_cons, allKept_cons_kept, ih]

theorem lastPath?_map_kept (args : List Text) : lastPath? (args.map kept) = none := by
  induction args with
  | nil => rfl
  | cons a args ih => exact ih

/-- A flag in front counts if no other one follows. -/
theorem lastPath?_cons (h : e.path? = some p) (entries : List Entry) :
    lastPath? (e :: entries) = (lastPath? entries).or (some p) := by
  rw [lastPath?, List.filterMap_cons_some h, List.getLast?_cons, lastPath?]
  cases (entries.filterMap path?).getLast? <;> rfl

end Entry

open Argument

/-- **Reading from the left.** Arguments are entries one after the other, and in the end, it may be,
a flag with no argument behind it. Only flags with an admitted number of dashes are read as such. -/
inductive Reads (admits : Nat → Prop) : List Text → List Entry → Option Text → Prop where
  | nil : Reads admits [] [] none
  | dangling {d : Nat} {a : Text} (hd : admits d) (ha : a = flagOf d) : Reads admits [a] [] (some a)
  | kept {a : Text} {args : List Text} {entries : List Entry} {last : Option Text}
      (ha : ¬IsFlag admits a) (hrest : Reads admits args entries last) :
      Reads admits (a :: args) (.kept a :: entries) last
  | spaced {d : Nat} {a path : Text} {args : List Text} {entries : List Entry} {last : Option Text}
      (hd : admits d) (ha : a = flagOf d) (hrest : Reads admits args entries last) :
      Reads admits (a :: path :: args) (.spaced d path :: entries) last
  | joined {d : Nat} {a path : Text} {args : List Text} {entries : List Entry} {last : Option Text}
      (hd : admits d) (ha : a = carrierOf d path) (hrest : Reads admits args entries last) :
      Reads admits (a :: args) (.joined d path :: entries) last

/-- **What a reading comes to**: the flag without a path, or the path of the last flag and the
arguments that are kept, in their order. -/
def answer (entries : List Entry) : Option Text → Except Text (Option Text × List Text)
  | some a => .error a
  | none => .ok (Entry.lastPath? entries, Entry.allKept entries)

/-- A flag is taken out, and gives the path unless another one follows. -/
theorem answer_cons {e : Entry} {p : Text} (hkept : e.kept? = none) (hpath : e.path? = some p)
    (entries : List Entry) (last : Option Text) :
    answer (e :: entries) last =
      (answer entries last).map fun (path, others) => (path.or (some p), others) := by
  cases last with
  | some a => rfl
  | none =>
      have hsame : Entry.allKept (e :: entries) = Entry.allKept entries :=
        List.filterMap_cons_none hkept
      rw [answer, Entry.lastPath?_cons hpath, hsame]
      rfl

theorem eq_of_answer_eq_ok {entries : List Entry} {last : Option Text} {path : Option Text}
    {rest : List Text} (h : answer entries last = .ok (path, rest)) :
    last = none ∧ Entry.allKept entries = rest := by
  cases last with
  | some a => cases h
  | none =>
      cases h
      exact ⟨rfl, rfl⟩

variable {admits admits' : Nat → Prop} {args : List Text} {entries entries' : List Entry}
  {last last' : Option Text}

/-- **There is a reading**, whichever flags are admitted. -/
theorem exists_reads (admits : Nat → Prop) :
    ∀ args : List Text, ∃ entries last, Reads admits args entries last
  | [] => ⟨[], none, .nil⟩
  | a :: args => by
      by_cases ha : IsFlag admits a
      · obtain ⟨d, hd, hflag | ⟨path, hcarrier⟩⟩ := ha
        · match args with
          | [] => exact ⟨[], some a, .dangling hd hflag⟩
          | path :: args =>
              obtain ⟨entries, last, hrest⟩ := exists_reads admits args
              exact ⟨_, last, .spaced hd hflag hrest⟩
        · obtain ⟨entries, last, hrest⟩ := exists_reads admits args
          exact ⟨_, last, .joined hd hcarrier hrest⟩
      · obtain ⟨entries, last, hrest⟩ := exists_reads admits args
        exact ⟨_, last, .kept ha hrest⟩

namespace Reads

/-- **There is one reading only.** -/
theorem unique (h : Reads admits args entries last) (h' : Reads admits args entries' last') :
    entries = entries' ∧ last = last' := by
  induction h generalizing entries' last' with
  | nil =>
      cases h'
      exact ⟨rfl, rfl⟩
  | dangling hd ha =>
      cases h' with
      | dangling => exact ⟨rfl, rfl⟩
      | kept hkept => exact absurd ⟨_, hd, .inl ha⟩ hkept
      | joined _ hcarrier => exact absurd (ha.symm.trans hcarrier) flagOf_ne_carrierOf
  | kept hkept _ ih =>
      cases h' with
      | dangling hd ha => exact absurd ⟨_, hd, .inl ha⟩ hkept
      | kept _ hrest =>
          obtain ⟨rfl, rfl⟩ := ih hrest
          exact ⟨rfl, rfl⟩
      | spaced hd ha => exact absurd ⟨_, hd, .inl ha⟩ hkept
      | joined hd ha => exact absurd ⟨_, hd, .inr ⟨_, ha⟩⟩ hkept
  | spaced hd ha _ ih =>
      cases h' with
      | kept hkept => exact absurd ⟨_, hd, .inl ha⟩ hkept
      | spaced _ ha' hrest =>
          obtain rfl := flagOf_inj (ha.symm.trans ha')
          obtain ⟨rfl, rfl⟩ := ih hrest
          exact ⟨rfl, rfl⟩
      | joined _ hcarrier => exact absurd (ha.symm.trans hcarrier) flagOf_ne_carrierOf
  | joined hd ha _ ih =>
      cases h' with
      | dangling _ hflag => exact absurd (hflag.symm.trans ha) flagOf_ne_carrierOf
      | kept hkept => exact absurd ⟨_, hd, .inr ⟨_, ha⟩⟩ hkept
      | spaced _ hflag => exact absurd (hflag.symm.trans ha) flagOf_ne_carrierOf
      | joined _ ha' hrest =>
          obtain ⟨rfl, rfl⟩ := carrierOf_inj (ha.symm.trans ha')
          obtain ⟨rfl, rfl⟩ := ih hrest
          exact ⟨rfl, rfl⟩

/-- The entries of a reading are the arguments, one after the other. -/
theorem args_eq (h : Reads admits args entries last) :
    args = entries.flatMap Entry.arguments ++ last.toList := by
  induction h with
  | nil => rfl
  | dangling => rfl
  | kept _ _ ih => rw [ih]; rfl
  | spaced _ ha _ ih => rw [ih, ha]; rfl
  | joined _ ha _ ih => rw [ih, ha]; rfl

/-- **Other flags**, also admitted, give the same reading if none of them is kept. -/
theorem mono (h : Reads admits args entries last) (hsub : ∀ d, admits d → admits' d)
    (hkept : ∀ a ∈ Entry.allKept entries, ¬IsFlag admits' a) :
    Reads admits' args entries last := by
  induction h with
  | nil => exact .nil
  | dangling hd ha => exact .dangling (hsub _ hd) ha
  | kept _ _ ih =>
      rw [Entry.allKept_cons_kept, List.forall_mem_cons] at hkept
      exact .kept hkept.1 (ih hkept.2)
  | spaced hd ha _ ih => exact .spaced (hsub _ hd) ha (ih hkept)
  | joined hd ha _ ih => exact .joined (hsub _ hd) ha (ih hkept)

/-- Nothing that is kept is a flag. -/
theorem not_isFlag_of_kept (h : Reads admits args entries last) :
    ∀ a ∈ Entry.allKept entries, ¬IsFlag admits a := by
  induction h with
  | nil | dangling => exact fun _ h => absurd h List.not_mem_nil
  | kept ha _ ih =>
      rw [Entry.allKept_cons_kept, List.forall_mem_cons]
      exact ⟨ha, ih⟩
  | spaced _ _ _ ih | joined _ _ _ ih => exact ih

/-- Arguments that are no flags are all kept. -/
theorem of_forall_not_isFlag (h : ∀ a ∈ args, ¬IsFlag admits a) :
    Reads admits args (args.map .kept) none := by
  induction args with
  | nil => exact .nil
  | cons a args ih =>
      rw [List.forall_mem_cons] at h
      exact .kept h.1 (ih h.2)

/-- **The answer is that of the reading**, with any number of dashes but none at all. -/
theorem split_eq (h : Reads (0 < ·) args entries last) : split args = answer entries last := by
  induction h with
  | nil => rfl
  | dangling hd ha =>
      rw [split, ha, ofText_flagOf hd]
      rfl
  | @kept _ _ _ last ha _ ih =>
      unfold split
      rw [ofText_eq_ordinary_iff.mpr ha, ih]
      cases last <;> rfl
  | spaced hd ha _ ih =>
      unfold split
      rw [ha, ofText_flagOf hd, answer_cons rfl rfl, ← ih]
  | joined hd ha _ ih =>
      unfold split
      rw [ha, ofText_carrierOf hd, answer_cons rfl rfl, ← ih]

end Reads

/-! ## What is taken out -/

/-- **Exactly the flags are taken out.** Whichever numbers of dashes are admitted, there is one
reading of the arguments, and they are its entries one after the other. The answer is that of the
reading in which a flag has one dash or more. It is that of the reading with one or two dashes if
this keeps no flag with more of them, and only then if all flags of this reading have a path. What
is left holds no flag, so that nothing is taken out of it. -/
theorem split_reads (args : List Text) :
    (∀ admits : Nat → Prop, ∃! r : List Entry × Option Text, Reads admits args r.1 r.2) ∧
    (∀ (admits : Nat → Prop) (entries : List Entry) (last : Option Text),
      Reads admits args entries last → args = entries.flatMap Entry.arguments ++ last.toList) ∧
    (∀ (entries : List Entry) (last : Option Text),
      Reads (0 < ·) args entries last → split args = answer entries last) ∧
    (∀ (entries : List Entry) (last : Option Text), Reads (· ∈ [1, 2]) args entries last →
      ((∀ a ∈ Entry.allKept entries, ¬IsFlag (2 < ·) a) → split args = answer entries last) ∧
      (last = none → split args = answer entries last →
        ∀ a ∈ Entry.allKept entries, ¬IsFlag (2 < ·) a)) ∧
    ∀ path rest, split args = .ok (path, rest) → split rest = .ok (none, rest) := by
  refine ⟨fun admits => ?_, fun admits entries last h => h.args_eq,
    fun entries last h => h.split_eq, fun entries last h => ⟨fun hkept => ?_, ?_⟩,
    fun path rest hsplit => ?_⟩
  · obtain ⟨entries, last, h⟩ := exists_reads admits args
    refine ⟨(entries, last), h, fun r hr => ?_⟩
    obtain ⟨hentries, hlast⟩ := hr.unique h
    exact Prod.ext hentries hlast
  · -- a flag that is kept has more than two dashes, or it would have been read as one
    refine (h.mono (by simp) fun a ha => ?_).split_eq
    rintro ⟨d, hd, hflag⟩
    rcases Nat.lt_or_ge 2 d with hmore | hfew
    · exact hkept a ha ⟨d, hmore, hflag⟩
    · have hadmitted : d ∈ [1, 2] := by
        simp only [List.mem_cons, List.not_mem_nil, or_false]
        omega
      exact h.not_isFlag_of_kept a ha ⟨d, hadmitted, hflag⟩
  · rintro rfl hsplit a ha hflag
    obtain ⟨entries', last', h'⟩ := exists_reads (0 < ·) args
    have hsame : answer entries' last' = answer entries none := h'.split_eq.symm.trans hsplit
    obtain ⟨rfl, hkept⟩ := eq_of_answer_eq_ok hsame
    refine h'.not_isFlag_of_kept a (hkept ▸ ha) (hflag.mono fun d hd => ?_)
    exact Nat.zero_lt_of_lt hd
  · obtain ⟨entries, last, h⟩ := exists_reads (0 < ·) args
    obtain ⟨rfl, rfl⟩ := eq_of_answer_eq_ok (h.split_eq.symm.trans hsplit)
    rw [(Reads.of_forall_not_isFlag h.not_isFlag_of_kept).split_eq, answer,
        Entry.lastPath?_map_kept,
      Entry.allKept_map_kept]

/-- A flag takes another flag as its path, the last path counts, and other dashes are kept. -/
theorem split_reads_overridden :
    let args := [utf8 "-config", utf8 "--config=a", utf8 "run", utf8 "--config=b", utf8 "-configs"]
    let rest := [utf8 "run", utf8 "-configs"]
    Reads (· ∈ [1, 2]) args [.spaced 1 (utf8 "--config=a"), .kept (utf8 "run"),
        .joined 2 (utf8 "b"), .kept (utf8 "-configs")] none ∧
      split args = .ok (some (utf8 "b"), rest) ∧ split rest = .ok (none, rest) := by
  intro args rest
  obtain ⟨-, -, -, hnarrow, hagain⟩ := split_reads args
  have hother : ∀ a ∈ rest, ¬IsFlag (0 < ·) a := fun a ha =>
    ofText_eq_ordinary_iff.mp ((by decide : ∀ a ∈ rest, ofText a = .ordinary) a ha)
  have hkept : ∀ a ∈ rest, ¬IsFlag (· ∈ [1, 2]) a := fun a ha hflag =>
    hother a ha (hflag.mono (by simp))
  have hreads : Reads (· ∈ [1, 2]) args [.spaced 1 (utf8 "--config=a"), .kept (utf8 "run"),
      .joined 2 (utf8 "b"), .kept (utf8 "-configs")] none :=
    .spaced (by simp) (by decide) <| .kept (hkept _ (by simp [rest])) <|
      .joined (by simp) (by decide) <| .kept (hkept _ (by simp [rest])) .nil
  have hsplit : split args = .ok (some (utf8 "b"), rest) :=
    (hnarrow _ _ hreads).1 fun a ha hflag =>
      hother a ha (hflag.mono fun d hd => Nat.zero_lt_of_lt hd)
  exact ⟨hreads, hsplit, hagain _ _ hsplit⟩

/-- **Three dashes make a flag as well.** Read with one or two dashes, both arguments are kept. -/
theorem split_threeDashes :
    let args := [utf8 "---config", utf8 "x"]
    Reads (· ∈ [1, 2]) args [.kept (utf8 "---config"), .kept (utf8 "x")] none ∧
      answer [.kept (utf8 "---config"), .kept (utf8 "x")] none = .ok (none, args) ∧
      split args = .ok (some (utf8 "x"), []) := by
  have hthree : ¬IsFlag (· ∈ [1, 2]) (flagOf 3) := by
    rintro ⟨d, hd, hflag | ⟨p, hcarrier⟩⟩
    · rw [← flagOf_inj hflag] at hd
      exact absurd hd (by decide)
    · exact flagOf_ne_carrierOf hcarrier
  have hx : ¬IsFlag (· ∈ [1, 2]) (utf8 "x") := fun hflag =>
    ofText_eq_ordinary_iff.mp (by decide : ofText (utf8 "x") = .ordinary)
      (hflag.mono (by simp))
  exact ⟨.kept hthree (.kept hx .nil), rfl, rfl⟩

end Arguments

end Badger
