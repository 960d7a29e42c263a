import Badger.Proofs.Number.Shortest
import Badger.Proofs.Token.Lexical

/-!
# Texts that tell where they end

What is written in front of another text can be told from it if it says where it ends: a name ends
at a byte that stands in no name, a numeral at a byte that stands in no numeral, a quoted text at
its closing mark. So do lists, if what stands between two elements differs from what stands behind
the last one.

## Main definitions

* `Text.Stops`, `Text.Halts`: that a text does not go on with a byte of some sort, and that it goes
  on otherwise
* `Quoted.afterMark`: what follows the closing mark of a quoted text
* `Text.listOnto`: some things in front of a text, with a separator between neighbours

## Main statements

* `Text.append_inj_of_stops`, `Text.append_inj_of_words`: a text of some sort of bytes ends where
  these bytes end, and one of some words at a blank
* `Quoted.text_append_inj`, `Number.toText_append_inj`: quoted texts and numerals tell where they
  end
* `Text.listOnto_inj`: **so do lists** of things that do
-/

namespace Badger

/-! ## Bytes of one sort -/

namespace Text

variable {p : UInt8 → Bool}

/-- That a text does not go on with a byte of some sort. -/
def Stops (p : UInt8 → Bool) (t : Text) : Prop := ∀ b ∈ t.head?, p b = false

/-- That a text is not empty and does not start with a byte of some sort. -/
def Halts (p : UInt8 → Bool) (s : Text) : Prop := s.head?.any (fun b => !p b) = true

instance (p : UInt8 → Bool) (s : Text) : Decidable (Halts p s) :=
  inferInstanceAs (Decidable (s.head?.any (fun b => !p b) = true))

theorem Halts.head?_append {s : Text} (h : Halts p s) (t : Text) : (s ++ t).head? = s.head? := by
  cases s with
  | nil => cases h
  | cons b s => rfl

theorem Halts.append {s : Text} (h : Halts p s) (t : Text) : Stops p (s ++ t) := by
  intro b hb
  rw [h.head?_append] at hb
  unfold Halts at h
  rw [Option.mem_def.mp hb] at h
  simpa using h

/-- **A text of some sort of bytes** ends where these bytes end. -/
theorem append_inj_of_stops {s s' t t' : Text} (hs : ∀ b ∈ s, p b = true)
    (hs' : ∀ b ∈ s', p b = true) (ht : Stops p t) (ht' : Stops p t') (h : s ++ t = s' ++ t') :
    s = s' ∧ t = t' := by
  have htake {s t : Text} (hs : ∀ b ∈ s, p b = true) (ht : Stops p t) :
      (s ++ t).takeWhile p = s := by
    rw [List.takeWhile_append_of_pos hs]
    cases t with
    | nil => simp
    | cons b t => simp [ht b rfl]
  have heq : s = s' := by rw [← htake hs ht, h, htake hs' ht']
  subst heq
  exact ⟨rfl, List.append_cancel_left h⟩

/-- **A word without blanks** in front of a blank tells which of some words it is, if they read
back. -/
theorem append_inj_of_words {α : Type} {words : List α} {write : α → Text} (read : Text → α)
    (hwords : ∀ a ∈ words, (write a).all (· != byte ' ') = true)
    (hread : ∀ a ∈ words, read (write a) = a)
    {a a' : α} (ha : a ∈ words) (ha' : a' ∈ words) {t t' : Text}
    (h : write a ++ (utf8 " " ++ t) = write a' ++ (utf8 " " ++ t')) : a = a' ∧ t = t' := by
  have hbytes {a : α} (ha : a ∈ words) : ∀ b ∈ write a, (b != byte ' ') = true :=
    List.all_eq_true.mp (hwords a ha)
  have hblank : Halts (· != byte ' ') (utf8 " ") := by decide
  obtain ⟨hword, ht⟩ := append_inj_of_stops (hbytes ha) (hbytes ha') (hblank.append t)
    (hblank.append t') h
  exact ⟨by rw [← hread a ha, hword, hread a' ha'], List.append_cancel_left ht⟩

end Text

namespace IsNameText

variable {name name' : Text}

/-- **A name tells where it ends.** -/
theorem append_inj (hname : IsNameText name) (hname' : IsNameText name') {t t' : Text}
    (ht : Text.Stops isNameByte t) (ht' : Text.Stops isNameByte t')
    (h : name ++ t = name' ++ t') : name = name' ∧ t = t' :=
  Text.append_inj_of_stops hname.2 hname'.2 ht ht' h

theorem not_stops (h : IsNameText name) (t : Text) : ¬Text.Stops isNameByte (name ++ t) := by
  obtain ⟨⟨b, rest, rfl, -⟩, hbytes⟩ := h
  intro hstops
  have hbyte := hbytes b List.mem_cons_self
  rw [hstops b rfl] at hbyte
  cases hbyte

end IsNameText

/-! ## Quoted texts and numerals -/

namespace Quoted

/-- What follows the closing mark of a quoted text whose opening mark has been read. -/
def afterMark : Text → Text
  | [] => []
  | 34 :: rest => rest
  | 92 :: _ :: rest => afterMark rest
  | _ :: rest => afterMark rest

theorem afterMark_selves {t : Text} (h : ∀ b ∈ t, b ≠ 34 ∧ b ≠ 92) (rest : Text) :
    afterMark (t ++ rest) = afterMark rest := by
  induction t with
  | nil => rfl
  | cons b t ih =>
      rw [List.forall_mem_cons] at h
      rw [List.cons_append, afterMark]
      · exact ih h.2
      · exact h.1.1
      · exact fun _ _ hb => absurd hb h.1.2

theorem afterMark_passable {t : Text} (h : Passable t) (rest : Text) :
    afterMark (t ++ rest) = afterMark rest := by
  rcases h with h | ⟨b, bs, rfl, h⟩
  · exact afterMark_selves h rest
  · exact afterMark_selves h rest

theorem afterMark_pieces (rs : List Rune) (rest : Text) :
    afterMark ((rs.map (piece '"')).flatten ++ rest) = afterMark rest := by
  induction rs with
  | nil => rfl
  | cons r rs ih =>
      rw [List.map_cons, List.flatten_cons, List.append_assoc,
        afterMark_passable (passable_piece r), ih]

/-- **A quoted text tells where it ends**, and which text it quotes. -/
theorem text_append_inj {s s' t t' : Text} (h : text s ++ t = text s' ++ t') : s = s' ∧ t = t' := by
  have hafter (s t : Text) : afterMark ((text s ++ t).drop 1) = t := by
    have hshape : (text s ++ t).drop 1 =
        ((Rune.all s).map (piece '"')).flatten ++ (Text.byte '"' :: t) := by simp [text]
    rw [hshape, afterMark_pieces]
    rfl
  have ht : t = t' := by rw [← hafter s t, h, hafter]
  subst ht
  have hread := read?_text s
  rw [List.append_cancel_right h, read?_text] at hread
  exact ⟨(Option.some.inj hread).symm, rfl⟩

end Quoted

namespace Number

/-- Whether a byte can stand in a numeral. -/
def isNumeralByte (b : UInt8) : Bool := isDigit b || b == Text.byte '.'

/-- **A numeral tells where it ends**, and which number it is written for. -/
theorem toText_append_inj {m n : Nat} (hm : m < infinityBits) (hn : n < infinityBits)
    {t t' : Text} (ht : Text.Stops isNumeralByte t) (ht' : Text.Stops isNumeralByte t')
    (h : toText (ofBits false m) ++ t = toText (ofBits false n) ++ t') :
    ofBits false m = ofBits false n ∧ t = t' := by
  have hbytes {n : Nat} (hn : n < infinityBits) :
      ∀ b ∈ toText (ofBits false n), isNumeralByte b = true := by
    intro b hb
    simpa [isNumeralByte] using (isNumeral_toText hn).2 b hb
  obtain ⟨htext, hrest⟩ := Text.append_inj_of_stops (hbytes hm) (hbytes hn) ht ht' h
  have hvalue := numeralValue?_toText hm
  rw [htext, numeralValue?_toText hn] at hvalue
  exact ⟨(Option.some.inj hvalue).symm, hrest⟩

end Number

/-! ## Lists -/

namespace Text

variable {α β : Type}

/-- **Some things in front of a text**, each as it is written in front of what follows it, with a
separator between neighbours and, unless there is nothing before them, in front of the first. -/
def listOnto (sep : Text) (write : α → Text → Text) (isFirst : Bool) (tail : Text) : List α → Text
  | [] => tail
  | a :: as => (if isFirst then [] else sep) ++ write a (listOnto sep write false tail as)

/-- Texts that are joined are a list of texts that stand for themselves. -/
theorem join_append (sep : Text) (parts : List Text) (tail : Text) :
    join sep parts ++ tail = listOnto sep (· ++ ·) true tail parts := by
  induction parts with
  | nil => rfl
  | cons part parts ih =>
      cases parts with
      | nil =>
          rw [join_singleton]
          rfl
      | cons next parts =>
          rw [join_cons_cons, List.append_assoc, List.append_assoc, ih]
          rfl

variable {write : α → Text → Text} {sep ending : Text}

/-- **Lists tell where they end** and what they hold, if their elements are told from what follows
them wherever no name goes on, start like names, and are separated by something that differs from
what follows the last one. -/
theorem listOnto_inj (key : α → β) (hsep : Halts isNameByte sep) (hending : Halts isNameByte ending)
    (hne : ending.head? ≠ sep.head?) {as bs : List α}
    (has : ∀ a ∈ as, ∀ t, ¬Stops isNameByte (write a t))
    (hbs : ∀ b ∈ bs, ∀ t, ¬Stops isNameByte (write b t))
    (hwrite : ∀ a ∈ as, ∀ b ∈ bs, ∀ t t', Stops isNameByte t → Stops isNameByte t' →
      write a t = write b t' → key a = key b ∧ t = t')
    {isFirst : Bool} {t t' : Text}
    (h : listOnto sep write isFirst (ending ++ t) as =
      listOnto sep write isFirst (ending ++ t') bs) : as.map key = bs.map key ∧ t = t' := by
  -- the rest of a list starts with the separator or with what follows the list
  have hstops (t : Text) (as : List α) :
      Stops isNameByte (listOnto sep write false (ending ++ t) as) := by
    cases as with
    | nil => exact hending.append t
    | cons a as => exact hsep.append _
  have hends {t t' : Text} {isFirst : Bool} {a : α} {as : List α}
      (ha : ∀ t, ¬Stops isNameByte (write a t)) :
      ending ++ t ≠ listOnto sep write isFirst t' (a :: as) := by
    intro h
    cases isFirst with
    | true => exact ha _ (h ▸ hending.append t)
    | false =>
        rw [listOnto, if_neg Bool.false_ne_true] at h
        have hhead := congrArg List.head? h
        rw [hending.head?_append, hsep.head?_append] at hhead
        exact hne hhead
  induction as generalizing bs isFirst with
  | nil =>
      cases bs with
      | nil => exact ⟨rfl, List.append_cancel_left h⟩
      | cons b bs => exact absurd h (hends (hbs b List.mem_cons_self))
  | cons a as ih =>
      cases bs with
      | nil => exact absurd h.symm (hends (has a List.mem_cons_self))
      | cons b bs =>
          obtain ⟨hkey, hrest⟩ := hwrite a List.mem_cons_self b List.mem_cons_self _ _
            (hstops t as) (hstops t' bs) (List.append_cancel_left h)
          rw [List.forall_mem_cons] at has hbs
          obtain ⟨hkeys, ht⟩ := ih has.2 hbs.2
            (fun a ha b hb => hwrite a (List.mem_cons_of_mem _ ha) b (List.mem_cons_of_mem _ hb))
            hrest
          exact ⟨by rw [List.map_cons, List.map_cons, hkey, hkeys], ht⟩

end Text

end Badger
