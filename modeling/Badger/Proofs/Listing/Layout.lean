import Badger.Proofs.Listing.Shape

/-!
# The layout of listings

How the lines of a listing hang together: which temporary a line defines and which ones it uses,
where a jump leads, where functions begin and end, and which arguments belong to a call.

## Main definitions

* `Instr.dest?`, `Instr.uses`, `Instr.target?`, `Instr.boundary?`: what a line defines, what it
  uses, where it goes, and whether a function begins or ends there
* `Listing.Everywhere`: a property of each line together with the lines before it
* `Listing.Available`, `Listing.bodyAt`, `Listing.Reaches`, `Listing.Prepared`: such properties
* `Listing.WellFormed`: **what a well-formed listing is**
* `Lower.Orderly`, `Lower.Formed`: the part of it that holds of the instructions for a tree

## Main statements

* `Lower.expr_orderly`, `Lower.stmt_formed`: the instructions for a tree
* `Listing.wellFormed_of_ofStmts`: **every listing is well formed**

## Design notes

A use is told from a definition by what stands before it, so the statements are about lines
together with the lines before them. Put behind other lines, a part keeps the definitions that it
uses; it keeps the functions in which its jumps and labels lie if as many functions end as begin
in front of it.
-/

namespace Badger

/-! ## Lines -/

/-- The number of an operand that is a temporary. -/
def Operand.temp? : Operand → Option Nat
  | .temp n => some n
  | _ => none

/-- What is computed to find out what to call. -/
def Target.operands : Target → List Operand
  | .named _ => []
  | .computed o => [o]

namespace Instr

/-- The temporary that a line defines. -/
def dest? : Instr → Option Nat
  | .load dest _ | .unary dest _ _ | .binary dest _ _ _ | .call dest _ _ => some dest
  | _ => none

/-- The operands of a line. -/
def operands : Instr → List Operand
  | .store _ o | .unary _ _ o | .param o | .print o | .ret o | .jumpUnless o _ => [o]
  | .binary _ _ l r => [l, r]
  | .call _ f _ => f.operands
  | _ => []

/-- The temporaries that a line uses. -/
def uses (i : Instr) : List Nat := i.operands.filterMap Operand.temp?

/-- The label that a line may go to. -/
def target? : Instr → Option Nat
  | .jump n | .jumpUnless _ n => some n
  | _ => none

/-- Whether a line comes after the one before it and before the one behind it, and nothing else:
it is no label, no jump, no return and no part of the frame of a function. -/
def isStraight (i : Instr) : Bool :=
  match i with
  | .label _ | .jump _ | .jumpUnless _ _ | .ret _ | .func _ | .arg _ | .endFunc | .stop => false
  | _ => true

/-- Whether a line is neither part of a call nor the end of the program. -/
def isOrdinary : Instr → Bool
  | .param _ | .call _ _ _ | .stop => false
  | _ => true

/-- Whether a line sets or declares a variable, prints or returns. -/
def acts : Instr → Bool
  | .store _ _ | .declare _ | .print _ | .ret _ => true
  | _ => false

theorem isStraight_of_computes {i : Instr} (h : i.computes = true) : i.isStraight = true := by
  cases i <;> first | rfl | cases h

theorem target?_of_computes {i : Instr} (h : i.computes = true) : i.target? = none := by
  cases i <;> first | rfl | cases h

end Instr

/-- The beginning or the end of a function. -/
inductive Boundary where
  | opening
  | closing
deriving DecidableEq, Repr

/-- Whether a function begins or ends at a line. -/
def Instr.boundary? : Instr → Option Boundary
  | .func _ => some .opening
  | .endFunc => some .closing
  | _ => none

theorem Instr.boundary?_of_frames {i : Instr} (h : i.frames = false) : i.boundary? = none := by
  cases i <;> first | rfl | cases h

namespace Listing

/-! ## Lines and what is before them -/

/-- **A property of each line together with the lines before it.** -/
def Everywhere (P : List Instr → Instr → Prop) (code : List Instr) : Prop :=
  ∀ before i after, code = before ++ i :: after → P before i

section

variable {P Q : List Instr → Instr → Prop} {code more : List Instr}

theorem everywhere_nil : Everywhere P [] := by
  intro before i after h
  simp at h

theorem everywhere_append :
    Everywhere P (code ++ more) ↔
      Everywhere P code ∧ Everywhere (fun before => P (code ++ before)) more := by
  constructor
  · intro h
    refine ⟨fun before i after hcode => ?_, fun before i after hmore => ?_⟩
    · exact h before i (after ++ more) (by simp [hcode])
    · exact h (code ++ before) i after (by simp [hmore])
  · rintro ⟨hcode, hmore⟩ before i after h
    rcases List.append_eq_append_iff.mp h with ⟨rest, rfl, hrest⟩ | ⟨rest, hrest, hi⟩
    · exact hmore rest i after hrest
    · cases rest with
      | nil =>
          rw [List.append_nil] at hrest
          have hfirst : P (code ++ []) i := hmore [] i after hi.symm
          rwa [List.append_nil, hrest] at hfirst
      | cons j rest =>
          obtain ⟨rfl, -⟩ := List.cons_eq_cons.mp hi
          exact hcode before i rest hrest

theorem everywhere_singleton {i : Instr} : Everywhere P [i] ↔ P [] i := by
  constructor
  · intro h
    exact h [] i [] rfl
  · intro h before j after heq
    cases before with
    | nil =>
        obtain ⟨rfl, -⟩ := List.cons_eq_cons.mp heq
        exact h
    | cons k before => simp at heq

/-- A property of lines alone. -/
theorem everywhere_of_forall (h : ∀ i ∈ code, ∀ before, P before i) : Everywhere P code := by
  rintro before i after rfl
  exact h i (by simp) before

theorem Everywhere.imp (h : Everywhere P code)
    (himp : ∀ before i after, code = before ++ i :: after → P before i → Q before i) :
    Everywhere Q code :=
  fun before i after heq => himp before i after heq (h before i after heq)

end

/-! ## Temporaries -/

/-- **A temporary is at hand** behind some lines: one of them defines it, and those after it are
gone through one after the other. -/
def Available (before : List Instr) (n : Nat) : Prop :=
  ∃ head i straight, before = head ++ i :: straight ∧ i.dest? = some n ∧
    ∀ j ∈ straight, j.isStraight = true

/-- The temporaries that a line uses are at hand. -/
def Supplied (before : List Instr) (i : Instr) : Prop := ∀ n ∈ i.uses, Available before n

theorem Available.prepend {before : List Instr} {n : Nat} (h : Available before n)
    (code : List Instr) : Available (code ++ before) n := by
  obtain ⟨head, i, straight, rfl, hdest, hstraight⟩ := h
  exact ⟨code ++ head, i, straight, by simp, hdest, hstraight⟩

theorem Available.append {before code : List Instr} {n : Nat} (h : Available before n)
    (hcode : ∀ j ∈ code, j.isStraight = true) : Available (before ++ code) n := by
  obtain ⟨head, i, straight, rfl, hdest, hstraight⟩ := h
  exact ⟨head, i, straight ++ code, by simp, hdest, List.forall_mem_append.mpr ⟨hstraight, hcode⟩⟩

theorem available_last (before : List Instr) {i : Instr} {n : Nat} (h : i.dest? = some n) :
    Available (before ++ [i]) n :=
  ⟨before, i, [], rfl, h, List.forall_mem_nil _⟩

theorem Available.mem {before : List Instr} {n : Nat} (h : Available before n) :
    n ∈ before.filterMap Instr.dest? := by
  obtain ⟨head, i, straight, rfl, hdest, -⟩ := h
  exact List.mem_filterMap.mpr ⟨i, by simp, hdest⟩

/-! ## Arguments -/

/-- The last of some lines passes no argument. -/
def Settled (code : List Instr) : Prop := ∀ o, code.getLast? ≠ some (.param o)

/-- **Arguments and calls**: a call stands behind as many arguments as it takes and no more, and
nothing else stands behind an argument but another one. -/
def Prepared (before : List Instr) (i : Instr) : Prop :=
  match i with
  | .call _ _ count => ∃ earlier, ∃ os : List Operand,
      before = earlier ++ os.map Instr.param ∧ os.length = count ∧ Settled earlier
  | .param _ => True
  | _ => Settled before

theorem settled_nil : Settled [] := by
  intro o h
  cases h

theorem settled_singleton {i : Instr} (h : ∀ o, i ≠ .param o) : Settled [i] := by
  intro o hlast
  exact h o (Option.some.inj hlast)

theorem Settled.append {code more : List Instr} (h : Settled code) (hmore : Settled more) :
    Settled (code ++ more) := by
  intro o hlast
  rw [List.getLast?_append] at hlast
  cases hm : more.getLast? with
  | none =>
      rw [hm, Option.none_or] at hlast
      exact h o hlast
  | some i =>
      rw [hm, Option.some_or] at hlast
      exact hmore o (hm.trans hlast)

/-- A line that is no part of a call. -/
theorem prepared_of_isOrdinary {before : List Instr} {i : Instr} (h : i.isOrdinary = true)
    (hbefore : Settled before) : Prepared before i := by
  cases i <;> first | exact hbefore | cases h

/-- Arguments and calls are the same behind lines of which the last passes no argument. -/
theorem Prepared.prepend {code before : List Instr} {i : Instr} (hcode : Settled code)
    (h : Prepared before i) : Prepared (code ++ before) i := by
  cases i with
  | call dest f count =>
      obtain ⟨earlier, os, rfl, hlength, hsettled⟩ := h
      exact ⟨code ++ earlier, os, by simp, hlength, hcode.append hsettled⟩
  | param o => trivial
  | _ => exact hcode.append h

/-! ## Functions and jumps -/

/-- The beginnings and ends of functions among some lines. -/
def boundaries (code : List Instr) : List Boundary := code.filterMap Instr.boundary?

/-- As many functions begin as end. -/
def Balanced (code : List Instr) : Prop :=
  (boundaries code).count .opening = (boundaries code).count .closing

/-- **The function in whose body one is** behind some lines, by its number; none outside of all
functions. -/
def bodyAt (before : List Instr) : Option Nat :=
  if (boundaries before).count .opening = (boundaries before).count .closing then none
  else some ((boundaries before).count .opening)

/-- **A label is reached** from behind some lines of a listing: the listing has it, in the same
function or, if they are in none, outside of all functions. -/
def Reaches (code before : List Instr) (n : Nat) : Prop :=
  ∃ before' after', code = before' ++ .label n :: after' ∧ bodyAt before' = bodyAt before

/-- Where a line may go to is a label that is reached. -/
def Lands (code before : List Instr) (i : Instr) : Prop :=
  ∀ n, i.target? = some n → Reaches code before n

theorem boundaries_append (code more : List Instr) :
    boundaries (code ++ more) = boundaries code ++ boundaries more :=
  List.filterMap_append

theorem boundaries_of_frames {code : List Instr} (h : ∀ i ∈ code, i.frames = false) :
    boundaries code = [] :=
  List.filterMap_eq_nil_iff.mpr fun i hi => Instr.boundary?_of_frames (h i hi)

theorem balanced_nil : Balanced [] := rfl

theorem balanced_of_frames {code : List Instr} (h : ∀ i ∈ code, i.frames = false) :
    Balanced code := by
  rw [Balanced, boundaries_of_frames h]
  rfl

theorem Balanced.append {code more : List Instr} (h : Balanced code) (hmore : Balanced more) :
    Balanced (code ++ more) := by
  unfold Balanced at *
  rw [boundaries_append, List.count_append, List.count_append, h, hmore]

theorem Balanced.bodyAt_eq {code : List Instr} (h : Balanced code) : bodyAt code = none :=
  if_pos h

/-- Behind balanced lines the functions have higher numbers. -/
theorem bodyAt_append {code : List Instr} (h : Balanced code) (before : List Instr) :
    bodyAt (code ++ before) =
      (bodyAt before).map ((boundaries code).count .opening + ·) := by
  unfold Balanced at h
  unfold bodyAt
  rw [boundaries_append, List.count_append, List.count_append, ← h]
  simp only [Nat.add_left_cancel_iff]
  split <;> rfl

/-- Lines without boundaries lead to no other function. -/
theorem bodyAt_append_of_frames (before : List Instr) {code : List Instr}
    (h : ∀ i ∈ code, i.frames = false) : bodyAt (before ++ code) = bodyAt before := by
  unfold bodyAt
  rw [boundaries_append, boundaries_of_frames h, List.append_nil]

theorem Reaches.prepend {code before : List Instr} {n : Nat} (h : Reaches code before n)
    {head : List Instr} (hhead : Balanced head) : Reaches (head ++ code) (head ++ before) n := by
  obtain ⟨before', after', rfl, hbody⟩ := h
  refine ⟨head ++ before', after', by simp, ?_⟩
  rw [bodyAt_append hhead, bodyAt_append hhead, hbody]

theorem Reaches.append {code before : List Instr} {n : Nat} (h : Reaches code before n)
    (rest : List Instr) : Reaches (code ++ rest) before n := by
  obtain ⟨before', after', rfl, hbody⟩ := h
  exact ⟨before', after' ++ rest, by simp, hbody⟩

/-- The jumps of a part land in the whole, if the part stands behind balanced lines. -/
theorem everywhere_lands_within {code : List Instr} (h : Everywhere (Lands code) code)
    {head : List Instr} (hhead : Balanced head) (rest : List Instr) :
    Everywhere (fun before => Lands (head ++ code ++ rest) (head ++ before)) code :=
  h.imp fun _ _ _ _ hlands n hn => ((hlands n hn).prepend hhead).append rest

/-- Lines that go nowhere else land. -/
theorem everywhere_lands_of_computes {code : List Instr} (h : ∀ i ∈ code, i.computes = true)
    (whole head : List Instr) : Everywhere (fun before => Lands whole (head ++ before)) code := by
  refine everywhere_of_forall fun i hi before n hn => ?_
  rw [Instr.target?_of_computes (h i hi)] at hn
  cases hn

/-- A label is marked outside of all functions. -/
def MarkedOutside (code : List Instr) (n : Nat) : Prop :=
  ∃ before after, code = before ++ .label n :: after ∧ Balanced before

/-- A jump outside of all functions lands at a label that is marked there. -/
theorem MarkedOutside.lands {code before : List Instr} {i : Instr} {n : Nat}
    (h : MarkedOutside code n) (htarget : i.target? = some n) (hbefore : Balanced before) :
    Lands code before i := by
  intro m hm
  obtain rfl : m = n := Option.some.inj (hm.symm.trans htarget)
  obtain ⟨before', after, hcode, hbefore'⟩ := h
  exact ⟨before', after, hcode, by rw [hbefore'.bodyAt_eq, hbefore.bodyAt_eq]⟩

theorem lands_of_target? {code before : List Instr} {i : Instr} (h : i.target? = none) :
    Lands code before i := by
  intro n hn
  rw [h] at hn
  cases hn

/-! ## Listings -/

/-- **Well-formed listings.** With `k.temp` temporaries and `k.label` labels taken:

* the temporaries are numbered in the order of the lines that define them, one line for each;
* a temporary is used behind its definition, with nothing but straight lines in between;
* each label is marked once;
* a jump goes to a label in the same function, or outside of all functions if it stands there;
* functions begin and end by turns;
* a call stands right behind its arguments;
* the last line, and no other one, ends the program. -/
structure WellFormed (k : Fresh) (code : List Instr) : Prop where
  temps : code.filterMap Instr.dest? = List.range k.temp
  uses : Everywhere Supplied code
  labels : (Lower.marks code).Perm (List.range k.label)
  jumps : Everywhere (Lands code) code
  functions : ∃ m, boundaries code = (List.replicate m [.opening, .closing]).flatten
  calls : Everywhere Prepared code
  ending : ∃ lines, code = lines ++ [.stop] ∧ ∀ i ∈ lines, i ≠ .stop

end Listing

/-! ## The instructions for trees -/

namespace Lower

open Listing

variable {k k₁ k' : Fresh} {code more : List Instr}

/-- **What the instructions for any tree take and use.** -/
structure Orderly (k k' : Fresh) (code : List Instr) : Prop where
  temp : k.temp ≤ k'.temp
  dests : code.filterMap Instr.dest? = List.range' k.temp (k'.temp - k.temp)
  uses : Everywhere Supplied code
  calls : Everywhere Prepared code
  settled : Settled code
  running : ∀ i ∈ code, i ≠ .stop

/-- The temporaries among some operands are at hand behind some lines. -/
def Delivers (code : List Instr) (os : List Operand) : Prop :=
  ∀ n ∈ os.filterMap Operand.temp?, Available code n

theorem delivers_nil (code : List Instr) : Delivers code [] := List.forall_mem_nil _

theorem Delivers.prepend {os : List Operand} (h : Delivers more os) (code : List Instr) :
    Delivers (code ++ more) os :=
  fun n hn => (h n hn).prepend code

theorem Delivers.append {os : List Operand} (h : Delivers code os)
    (hmore : ∀ i ∈ more, i.isStraight = true) : Delivers (code ++ more) os :=
  fun n hn => (h n hn).append hmore

theorem Delivers.both {os os' : List Operand} (h : Delivers code os) (h' : Delivers code os') :
    Delivers code (os ++ os') := by
  unfold Delivers at *
  rw [List.filterMap_append, List.forall_mem_append]
  exact ⟨h, h'⟩

theorem delivers_last (before : List Instr) {i : Instr} {n : Nat} (h : i.dest? = some n) :
    Delivers (before ++ [i]) [.temp n] := by
  intro m hm
  obtain rfl : m = n := by simpa [Operand.temp?] using hm
  exact available_last before h

/-- The numbers that one part takes, and those that the part behind it takes. -/
theorem range'_append_sub {n m r : Nat} (h : n ≤ m) (h' : m ≤ r) :
    List.range' n (m - n) ++ List.range' m (r - m) = List.range' n (r - n) := by
  rw [← Nat.sub_add_sub_cancel h' h, Nat.add_comm, ← List.range'_append, Nat.one_mul,
    Nat.add_sub_cancel' h]

theorem range'_eq_cons {n m : Nat} (h : n < m) :
    List.range' n (m - n) = n :: List.range' (n + 1) (m - (n + 1)) := by
  have hsub : m - n = m - (n + 1) + 1 := by omega
  rw [hsub, List.range'_succ]

namespace Orderly

theorem nil (k : Fresh) : Orderly k k [] where
  temp := Nat.le_refl _
  dests := by simp
  uses := everywhere_nil
  calls := everywhere_nil
  settled := settled_nil
  running := List.forall_mem_nil _

/-- What matters of the places taken before and afterwards are the temporaries. -/
theorem congr {j j' : Fresh} (h : Orderly k k' code) (hk : j.temp = k.temp)
    (hk' : j'.temp = k'.temp) : Orderly j j' code where
  temp := by rw [hk, hk']; exact h.temp
  dests := by rw [hk, hk']; exact h.dests
  uses := h.uses
  calls := h.calls
  settled := h.settled
  running := h.running

/-- **One part behind another**, where the later part may use temporaries of the earlier one. -/
theorem extend (h : Orderly k k₁ code) (htemp : k₁.temp ≤ k'.temp)
    (hdests : more.filterMap Instr.dest? = List.range' k₁.temp (k'.temp - k₁.temp))
    (huses : Everywhere (fun before => Supplied (code ++ before)) more)
    (hcalls : Everywhere Prepared more) (hsettled : Settled more)
    (hrunning : ∀ i ∈ more, i ≠ .stop) : Orderly k k' (code ++ more) where
  temp := h.temp.trans htemp
  dests := by
    rw [List.filterMap_append, h.dests, hdests, range'_append_sub h.temp htemp]
  uses := everywhere_append.mpr ⟨h.uses, huses⟩
  calls := everywhere_append.mpr ⟨h.calls, hcalls.imp fun _ _ _ _ => Prepared.prepend h.settled⟩
  settled := h.settled.append hsettled
  running := List.forall_mem_append.mpr ⟨h.running, hrunning⟩

theorem append (h : Orderly k k₁ code) (h' : Orderly k₁ k' more) : Orderly k k' (code ++ more) :=
  h.extend h'.temp h'.dests
    (h'.uses.imp fun _ _ _ _ hsupplied n hn => (hsupplied n hn).prepend code) h'.calls h'.settled
    h'.running

/-- One more line, which is neither part of a call nor the end of the program. -/
theorem concat {i : Instr} (h : Orderly k k₁ code) (htemp : k₁.temp ≤ k'.temp)
    (hdest : i.dest?.toList = List.range' k₁.temp (k'.temp - k₁.temp))
    (huses : Delivers code i.operands) (hordinary : i.isOrdinary = true) :
    Orderly k k' (code ++ [i]) := by
  refine h.extend htemp ?_ ?_ ?_ ?_ (List.forall_mem_singleton.mpr ?_)
  · rw [← hdest]
    cases hi : i.dest? <;> simp [hi]
  · rw [everywhere_singleton, List.append_nil]
    exact huses
  · exact everywhere_singleton.mpr (prepared_of_isOrdinary hordinary settled_nil)
  · have hparam : ∀ o, i ≠ .param o := by
      rintro o rfl
      cases hordinary
    exact settled_singleton hparam
  · rintro rfl
    cases hordinary

/-- One more line that defines the next temporary. -/
theorem produce {i : Instr} (h : Orderly k k₁ code) (hdest : i.dest? = some k₁.temp)
    (huses : Delivers code i.operands) (hordinary : i.isOrdinary = true) :
    Orderly k { k₁ with temp := k₁.temp + 1 } (code ++ [i]) :=
  h.concat (Nat.le_succ _) (by rw [hdest]; simp) huses hordinary

/-- One more line that defines no temporary. -/
theorem line {i : Instr} (h : Orderly k k' code) (hdest : i.dest? = none)
    (huses : Delivers code i.operands) (hordinary : i.isOrdinary = true) :
    Orderly k k' (code ++ [i]) :=
  h.concat (Nat.le_refl _) (by rw [hdest]; simp) huses hordinary

/-- The lines that name the parameters of a function. -/
theorem parameters (h : Orderly k k' code) (params : List Text) :
    Orderly k k' (code ++ params.map .arg) := by
  induction params generalizing code with
  | nil => simpa using h
  | cons p params ih =>
      have hrest := ih (h.line (i := .arg p) rfl (delivers_nil _) rfl)
      rwa [List.append_assoc] at hrest

/-- **A call behind its arguments.** -/
theorem call {f : Target} {vs : List Operand} (h : Orderly k k₁ code)
    (htarget : Delivers code f.operands) (hvs : Delivers code vs) :
    Orderly k { k₁ with temp := k₁.temp + 1 }
      (code ++ (vs.map .param ++ [.call k₁.temp f vs.length])) := by
  have hstraight : ∀ i ∈ vs.map Instr.param, i.isStraight = true := by simp [Instr.isStraight]
  refine h.extend (Nat.le_succ _) ?_ ?_ ?_ ?_ ?_
  · have hnone : (vs.map Instr.param).filterMap Instr.dest? = [] := by
      simp [List.filterMap_map, Function.comp_def, Instr.dest?]
    rw [List.filterMap_append, hnone]
    simp [Instr.dest?]
  · rw [everywhere_append, everywhere_singleton]
    refine ⟨?_, ?_⟩
    · rintro before i after hsplit n hn
      -- the lines before an argument are those before all arguments, and other arguments
      have hbefore : ∀ j ∈ before, j.isStraight = true :=
        fun j hj => hstraight j (hsplit ▸ List.mem_append_left _ hj)
      obtain ⟨v, hv, rfl⟩ := List.mem_map.mp (hsplit ▸ by simp : i ∈ vs.map Instr.param)
      refine (hvs n ?_).append hbefore
      obtain ⟨o, ho, hon⟩ := List.mem_filterMap.mp hn
      obtain rfl : o = v := List.mem_singleton.mp ho
      exact List.mem_filterMap.mpr ⟨o, hv, hon⟩
    · rw [List.append_nil]
      exact htarget.append hstraight
  · rw [everywhere_append, everywhere_singleton]
    refine ⟨everywhere_of_forall ?_, [], vs, by simp, rfl, settled_nil⟩
    rw [List.forall_mem_map]
    exact fun _ _ _ => trivial
  · intro o hlast
    rw [List.getLast?_concat] at hlast
    cases hlast
  · rw [List.forall_mem_append, List.forall_mem_map, List.forall_mem_singleton]
    exact ⟨fun _ _ => nofun, nofun⟩

end Orderly

/-! ### Expressions -/

theorem Computes.straight {os : List Operand} (h : Computes k k' os code) :
    ∀ i ∈ code, i.isStraight = true :=
  fun i hi => Instr.isStraight_of_computes (h.computes i hi)

mutual

/-- **The instructions for an expression** define the temporaries that they use, and leave the
result at hand. -/
theorem expr_orderly (e : Expr) {k k' : Fresh} {o : Operand} {code : List Instr}
    (h : expr e k = .ok (o, code, k')) : Orderly k k' code ∧ Delivers code [o] := by
  cases e with
  | missing => cases h
  | num _ _ | str _ _ | bool _ _ =>
      cases h
      exact ⟨.nil k, List.forall_mem_nil _⟩
  | ident _ name | symbol _ name =>
      cases h
      have hload : Instr.dest? (.load k.temp name) = some k.temp := rfl
      exact ⟨(Orderly.nil k).produce hload (delivers_nil _) rfl,
        delivers_last [] hload⟩
  | group _ inner => exact expr_orderly inner h
  | assign _ name value =>
      obtain ⟨c, hc, rfl⟩ := expr_assign h
      obtain ⟨hvalue, hdelivers⟩ := expr_orderly value hc
      exact ⟨hvalue.line rfl hdelivers rfl,
        hdelivers.append (by simp [Instr.isStraight])⟩
  | unary _ op operand =>
      obtain ⟨v, c, k₁, hc, -, rfl, rfl, rfl⟩ := expr_unary h
      obtain ⟨hoperand, hdelivers⟩ := expr_orderly operand hc
      exact ⟨hoperand.produce rfl hdelivers rfl, delivers_last _ rfl⟩
  | binary _ op left right =>
      obtain ⟨v, c, k₁, v', c', k₂, hc, hc', -, rfl, rfl, rfl⟩ := expr_binary h
      obtain ⟨hleft, hdelivers⟩ := expr_orderly left hc
      obtain ⟨hright, hdelivers'⟩ := expr_orderly right hc'
      have hboth : Delivers (c ++ c') [v, v'] :=
        (hdelivers.append (expr_computes right hc').straight).both (hdelivers'.prepend c)
      exact ⟨(hleft.append hright).produce rfl hboth rfl,
        delivers_last _ rfl⟩
  | call _ callee arguments =>
      obtain ⟨f, c, k₁, vs, c', k₂, hf, hc', rfl, rfl, rfl⟩ := expr_call h
      obtain ⟨hargs, hdelivers⟩ := args_orderly arguments hc'
      have hfirst : Orderly k k₁ c ∧ Delivers c f.operands := by
        cases hf with
        | named => exact ⟨.nil k, delivers_nil _⟩
        | computed hc => exact expr_orderly callee hc
      have htarget := hfirst.2.append (args_computes arguments hc').straight
      have hcall := (hfirst.1.append hargs).call htarget (hdelivers.prepend c)
      rw [List.append_assoc] at hcall
      refine ⟨hcall, ?_⟩
      rw [← List.append_assoc, ← List.append_assoc]
      exact delivers_last _ rfl

/-- The instructions for arguments, and their operands. -/
theorem args_orderly (es : List Expr) {k k' : Fresh} {vs : List Operand} {code : List Instr}
    (h : args es k = .ok (vs, code, k')) : Orderly k k' code ∧ Delivers code vs := by
  cases es with
  | nil =>
      cases h
      exact ⟨.nil k, delivers_nil _⟩
  | cons e es =>
      obtain ⟨v, c, k₁, vs', c', hc, hc', rfl, rfl⟩ := args_cons h
      obtain ⟨hfirst, hdelivers⟩ := expr_orderly e hc
      obtain ⟨hrest, hdelivers'⟩ := args_orderly es hc'
      exact ⟨hfirst.append hrest,
        (hdelivers.append (args_computes es hc').straight).both (hdelivers'.prepend c)⟩

end

/-! ### Statements -/

/-- **What the instructions for statements take and use**, and where they go. -/
structure Formed (k k' : Fresh) (code : List Instr) : Prop extends Orderly k k' code where
  label : k.label ≤ k'.label
  labels : (marks code).Perm (List.range' k.label (k'.label - k.label))
  jumps : Everywhere (Lands code) code
  functions : ∃ m, boundaries code = (List.replicate m [.opening, .closing]).flatten

namespace Formed

theorem balanced (h : Formed k k' code) : Balanced code := by
  obtain ⟨m, hm⟩ := h.functions
  rw [Listing.Balanced, hm]
  simp [List.count_flatten]

theorem append (h : Formed k k₁ code) (h' : Formed k₁ k' more) : Formed k k' (code ++ more) where
  toOrderly := h.toOrderly.append h'.toOrderly
  label := h.label.trans h'.label
  labels := by
    rw [marks_append, ← range'_append_sub h.label h'.label]
    exact h.labels.append h'.labels
  jumps := by
    have hbefore := everywhere_lands_within h.jumps balanced_nil more
    have hbehind := everywhere_lands_within h'.jumps h.balanced []
    rw [List.append_nil] at hbehind
    exact everywhere_append.mpr ⟨hbefore, hbehind⟩
  functions := by
    obtain ⟨m, hm⟩ := h.functions
    obtain ⟨m', hm'⟩ := h'.functions
    refine ⟨m + m', ?_⟩
    rw [boundaries_append, hm, hm', List.replicate_add, List.flatten_append]

/-- Lines that only compute. -/
theorem of_computes {os : List Operand} (h : Orderly k k' code)
    (hcomputes : Computes k k' os code) : Formed k k' code where
  toOrderly := h
  label := hcomputes.label.ge
  labels := by
    rw [hcomputes.marks_eq, hcomputes.label]
    simp
  jumps := everywhere_lands_of_computes hcomputes.computes code []
  functions := ⟨0, boundaries_of_frames hcomputes.frames⟩

/-- One more line that does something with its operands. -/
theorem act {i : Instr} (h : Formed k k' code) (huses : Delivers code i.operands)
    (hacts : i.acts = true) : Formed k k' (code ++ [i]) where
  toOrderly := by
    refine h.toOrderly.line ?_ huses ?_
    all_goals cases i <;> first | rfl | cases hacts
  label := h.label
  labels := by
    have hnone : i.marked? = none := by cases i <;> first | rfl | cases hacts
    simpa [hnone] using h.labels
  jumps := by
    have hnone : i.target? = none := by cases i <;> first | rfl | cases hacts
    have hbefore := everywhere_lands_within h.jumps balanced_nil [i]
    exact everywhere_append.mpr ⟨hbefore, everywhere_singleton.mpr (lands_of_target? hnone)⟩
  functions := by
    have hnone : i.boundary? = none := by cases i <;> first | rfl | cases hacts
    obtain ⟨m, hm⟩ := h.functions
    refine ⟨m, ?_⟩
    rw [boundaries_append, hm]
    simp [boundaries, hnone]

end Formed

/-- **The test of a conditional or a loop**, which goes to a label if it fails. -/
structure Tests (k k' : Fresh) (n : Nat) (code : List Instr) : Prop where
  orderly : Orderly k k' code
  label : k'.label = k.label
  marks : marks code = []
  boundaries : boundaries code = []
  lands : ∀ {whole} (head), MarkedOutside whole n → Balanced head →
    Everywhere (fun before => Lands whole (head ++ before)) code

theorem Tests.balanced {n : Nat} (h : Tests k k' n code) : Balanced code := by
  rw [Listing.Balanced, h.boundaries]
  rfl

theorem tests_of_expr {cond : Expr} {o : Operand} (h : expr cond k = .ok (o, code, k')) (n : Nat) :
    Tests k k' n (code ++ [.jumpUnless o n]) := by
  have hcomputes := expr_computes cond h
  obtain ⟨horderly, hdelivers⟩ := expr_orderly cond h
  refine ⟨horderly.line rfl hdelivers rfl, hcomputes.label, ?_, ?_, fun _ hmarked hhead => ?_⟩
  · rw [marks_append, hcomputes.marks_eq]
    rfl
  · rw [boundaries_append, boundaries_of_frames hcomputes.frames]
    rfl
  · rw [everywhere_append, everywhere_singleton, List.append_nil]
    exact ⟨everywhere_lands_of_computes hcomputes.computes _ _,
      hmarked.lands rfl (hhead.append (balanced_of_frames hcomputes.frames))⟩

theorem boundaries_label (n : Nat) : boundaries [.label n] = [] := rfl

theorem boundaries_jump (n : Nat) : boundaries [.jump n] = [] := rfl

theorem balanced_label (n : Nat) : Balanced [.label n] := rfl

theorem balanced_jump (n : Nat) : Balanced [.jump n] := rfl

namespace Formed

variable {test yes no body : List Instr} {k₂ : Fresh}

/-- **A conditional without `else`.** -/
theorem ifThen (htest : Tests k k₁ k₁.label test)
    (hyes : Formed { k₁ with label := k₁.label + 1 } k' yes) :
    Formed k k' (test ++ yes ++ [.label k₁.label]) := by
  have hlabel := htest.label
  have hle : k₁.label + 1 ≤ k'.label := hyes.label
  have hmarked : MarkedOutside (test ++ yes ++ [.label k₁.label]) k₁.label :=
    ⟨test ++ yes, [], rfl, htest.balanced.append hyes.balanced⟩
  refine ⟨(htest.orderly.append (hyes.toOrderly.congr rfl rfl)).line rfl (delivers_nil _) rfl,
    by omega, ?_, ?_, ?_⟩
  · rw [marks_append, marks_append, htest.marks, List.nil_append, ← hlabel, range'_eq_cons hle]
    exact (List.perm_append_singleton _ _).trans (hyes.labels.cons _)
  · rw [everywhere_append, everywhere_append, everywhere_singleton]
    exact ⟨⟨htest.lands [] hmarked rfl, everywhere_lands_within hyes.jumps htest.balanced _⟩,
      lands_of_target? rfl⟩
  · obtain ⟨m, hm⟩ := hyes.functions
    refine ⟨m, ?_⟩
    rw [boundaries_append, boundaries_append, htest.boundaries, hm, boundaries_label,
      List.nil_append, List.append_nil]

/-- **A conditional with `else`.** -/
theorem ifElse (htest : Tests k k₁ k₁.label test)
    (hyes : Formed { k₁ with label := k₁.label + 1 } k₂ yes)
    (hno : Formed { k₂ with label := k₂.label + 1 } k' no) :
    Formed k k' (test ++ yes ++ [.jump k₂.label] ++ [.label k₁.label] ++ no ++
      [.label k₂.label]) := by
  have hlabel := htest.label
  have hle : k₁.label + 1 ≤ k₂.label := hyes.label
  have hle' : k₂.label + 1 ≤ k'.label := hno.label
  have hhead := (htest.balanced.append hyes.balanced).append (balanced_jump k₂.label)
  have hmiddle := hhead.append (balanced_label k₁.label)
  have hmarked : MarkedOutside (test ++ yes ++ [.jump k₂.label] ++ [.label k₁.label] ++ no ++
      [.label k₂.label]) k₁.label :=
    ⟨test ++ yes ++ [.jump k₂.label], no ++ [.label k₂.label], by simp, hhead⟩
  have hmarked' : MarkedOutside (test ++ yes ++ [.jump k₂.label] ++ [.label k₁.label] ++ no ++
      [.label k₂.label]) k₂.label :=
    ⟨test ++ yes ++ [.jump k₂.label] ++ [.label k₁.label] ++ no, [], rfl,
      hmiddle.append hno.balanced⟩
  refine ⟨?_, by omega, ?_, ?_, ?_⟩
  · have hyes' := (htest.orderly.append (hyes.toOrderly.congr rfl rfl)).line
      (i := .jump k₂.label) rfl (delivers_nil _) rfl
    have hno' := (hyes'.line (i := .label k₁.label) rfl (delivers_nil _) rfl).append
      (hno.toOrderly.congr rfl rfl)
    exact hno'.line rfl (delivers_nil _) rfl
  · have hno' : (marks no ++ [k₂.label]).Perm (List.range' k₂.label (k'.label - k₂.label)) := by
      rw [range'_eq_cons hle']
      exact (List.perm_append_singleton _ _).trans (hno.labels.cons _)
    have hyes' : (marks yes ++ [k₁.label]).Perm (List.range' k₁.label (k₂.label - k₁.label)) := by
      rw [range'_eq_cons hle]
      exact (List.perm_append_singleton _ _).trans (hyes.labels.cons _)
    rw [← hlabel, ← range'_append_sub (Nat.le_of_succ_le hle) (Nat.le_of_succ_le hle')]
    simpa [htest.marks, Instr.marked?] using hyes'.append hno'
  · rw [everywhere_append, everywhere_append, everywhere_append, everywhere_append,
      everywhere_append, everywhere_singleton, everywhere_singleton, everywhere_singleton]
    refine ⟨⟨⟨⟨⟨htest.lands [] hmarked rfl, ?_⟩, ?_⟩, lands_of_target? rfl⟩, ?_⟩,
      lands_of_target? rfl⟩
    · have hjumps := everywhere_lands_within hyes.jumps htest.balanced
        ([.jump k₂.label] ++ [.label k₁.label] ++ no ++ [.label k₂.label])
      simpa using hjumps
    · rw [List.append_nil]
      exact hmarked'.lands rfl (htest.balanced.append hyes.balanced)
    · exact everywhere_lands_within hno.jumps hmiddle _
  · obtain ⟨m, hm⟩ := hyes.functions
    obtain ⟨m', hm'⟩ := hno.functions
    refine ⟨m + m', ?_⟩
    simp only [boundaries_append, boundaries_label, boundaries_jump, htest.boundaries, hm, hm',
      List.nil_append, List.append_nil, List.replicate_add, List.flatten_append]

/-- **A loop.** -/
theorem loop (htest : Tests { k with label := k.label + 2 } k₁ (k.label + 1) test)
    (hbody : Formed k₁ k' body) :
    Formed k k' ([.label k.label] ++ test ++ body ++ [.jump k.label] ++
      [.label (k.label + 1)]) := by
  have hlabel : k₁.label = k.label + 2 := htest.label
  have hle := hbody.label
  have hhead := (balanced_label k.label).append htest.balanced
  have hround := hhead.append hbody.balanced
  have hback := hround.append (balanced_jump k.label)
  have htop : MarkedOutside ([.label k.label] ++ test ++ body ++ [.jump k.label] ++
      [.label (k.label + 1)]) k.label :=
    ⟨[], test ++ body ++ [.jump k.label] ++ [.label (k.label + 1)], by simp, rfl⟩
  have hafter : MarkedOutside ([.label k.label] ++ test ++ body ++ [.jump k.label] ++
      [.label (k.label + 1)]) (k.label + 1) :=
    ⟨_, [], rfl, hback⟩
  refine ⟨?_, by omega, ?_, ?_, ?_⟩
  · have htop' := (Orderly.nil k).line (i := .label k.label) rfl (delivers_nil _) rfl
    have hround' := (htop'.append (htest.orderly.congr rfl rfl)).append hbody.toOrderly
    exact (hround'.line rfl (delivers_nil _) rfl).line rfl (delivers_nil _) rfl
  · have hbody' := hbody.labels
    rw [hlabel] at hbody'
    have hlast := (List.perm_append_singleton (k.label + 1) (marks body)).trans (hbody'.cons _)
    rw [range'_eq_cons (by omega : k.label < k'.label),
      range'_eq_cons (by omega : k.label + 1 < k'.label)]
    simpa [htest.marks, Instr.marked?] using hlast.cons k.label
  · rw [everywhere_append, everywhere_append, everywhere_append, everywhere_append,
      everywhere_singleton, everywhere_singleton, everywhere_singleton]
    refine ⟨⟨⟨⟨lands_of_target? rfl, htest.lands _ hafter (balanced_label _)⟩, ?_⟩, ?_⟩,
      lands_of_target? rfl⟩
    · have hjumps := everywhere_lands_within hbody.jumps hhead
        ([.jump k.label] ++ [.label (k.label + 1)])
      simpa using hjumps
    · rw [List.append_nil]
      exact htop.lands rfl hround
  · obtain ⟨m, hm⟩ := hbody.functions
    refine ⟨m, ?_⟩
    simp only [boundaries_append, boundaries_label, boundaries_jump, htest.boundaries, hm,
      List.nil_append, List.append_nil]

/-- **A function**, in whose body no other one begins. -/
theorem fxn (name : Text) (params : List Text) (hbody : Formed k k' body)
    (hframes : ∀ i ∈ body, i.frames = false) :
    Formed k k' ([.func name] ++ params.map .arg ++ body ++ [.endFunc]) := by
  have hopening := (Orderly.nil k).line (i := .func name) rfl (delivers_nil _) rfl
  have hmarks : marks (params.map .arg) = [] := by
    simp [marks, List.filterMap_map, Function.comp_def, Instr.marked?]
  have hbounds : boundaries ([.func name] ++ params.map .arg) = [.opening] := by
    simp [boundaries, List.filterMap_map, Function.comp_def, Instr.boundary?]
  refine ⟨((hopening.parameters params).append hbody.toOrderly).line rfl (delivers_nil _) rfl,
    hbody.label, ?_, ?_, 1, ?_⟩
  · simpa [hmarks, Instr.marked?] using hbody.labels
  · rw [everywhere_append, everywhere_append, everywhere_append, everywhere_singleton,
      everywhere_singleton]
    refine ⟨⟨⟨lands_of_target? rfl, everywhere_of_forall ?_⟩, ?_⟩, lands_of_target? rfl⟩
    · rw [List.forall_mem_map]
      exact fun _ _ _ => lands_of_target? rfl
    · -- a jump and its label stand in the body, so that no boundary lies between them
      refine hbody.jumps.imp fun before i after hsplit hlands n hn => ?_
      obtain ⟨before', after', hsplit', -⟩ := hlands n hn
      have hbefore : ∀ j ∈ before, j.frames = false :=
        fun j hj => hframes j (hsplit ▸ List.mem_append_left _ hj)
      have hbefore' : ∀ j ∈ before', j.frames = false :=
        fun j hj => hframes j (hsplit' ▸ List.mem_append_left _ hj)
      refine ⟨[.func name] ++ params.map .arg ++ before', after' ++ [.endFunc], ?_, ?_⟩
      · conv_lhs => rw [hsplit']
        simp
      · rw [bodyAt_append_of_frames _ hbefore, bodyAt_append_of_frames _ hbefore']
  · rw [boundaries_append, boundaries_append, hbounds, boundaries_of_frames hframes]
    rfl

end Formed

mutual

/-- **The instructions for a statement** are formed. -/
theorem stmt_formed (s : Stmt) {inside : Bool} {k k' : Fresh} {u : Unit} {code : List Instr}
    (h : stmt inside s k = .ok (u, code, k')) : Formed k k' code := by
  cases s with
  | missing => cases h
  | expr _ e =>
      obtain ⟨o, hc⟩ := stmt_expr h
      exact .of_computes (expr_orderly e hc).1 (expr_computes e hc)
  | ret _ value =>
      obtain ⟨o, c, hc, rfl⟩ := stmt_ret h
      obtain ⟨hvalue, hdelivers⟩ := expr_orderly value hc
      have hprint := (Formed.of_computes hvalue (expr_computes value hc)).act
        (i := .print o) hdelivers rfl
      have hret := hprint.act (i := .ret o) (hdelivers.append (by simp [Instr.isStraight])) rfl
      rwa [List.append_assoc] at hret
  | declare _ _ name init =>
      obtain ⟨o, c, hc, rfl⟩ := stmt_declare h
      obtain ⟨hinit, hdelivers⟩ := expr_orderly init hc
      have hdeclare := (Formed.of_computes hinit (expr_computes init hc)).act
        (i := .declare name) (delivers_nil _) rfl
      have hstore := hdeclare.act (i := .store name o)
        (hdelivers.append (by simp [Instr.isStraight])) rfl
      rwa [List.append_assoc] at hstore
  | block _ body => exact stmts_formed body h
  | ifThen _ cond yes =>
      obtain ⟨o, c, k₁, c', hc, hc', rfl⟩ := stmt_ifThen h
      simpa using Formed.ifThen (tests_of_expr hc k₁.label) (stmt_formed yes hc')
  | ifElse _ cond yes no =>
      obtain ⟨o, c, k₁, c', k₂, c'', hc, hc', hc'', rfl⟩ := stmt_ifElse h
      simpa using Formed.ifElse (tests_of_expr hc k₁.label) (stmt_formed yes hc')
        (stmt_formed no hc'')
  | loop _ cond body =>
      obtain ⟨o, c, k₁, c', hc, hc', rfl⟩ := stmt_loop h
      simpa using Formed.loop (tests_of_expr hc (k.label + 1)) (stmt_formed body hc')
  | fxn _ name params body =>
      obtain ⟨rfl, c, hc, rfl⟩ := stmt_fxn h
      simpa using Formed.fxn name params (stmts_formed body hc)
        ((stmts_labelled body hc).frames rfl)

/-- The instructions for statements are formed. -/
theorem stmts_formed (ss : List Stmt) {inside : Bool} {k k' : Fresh} {u : Unit}
    {code : List Instr} (h : stmts inside ss k = .ok (u, code, k')) : Formed k k' code := by
  cases ss with
  | nil =>
      cases h
      exact .of_computes (.nil k) (.nil k (by simp : ∀ o ∈ [], ∀ t, o ≠ Operand.temp t))
  | cons s ss =>
      cases hs : s.isMissing with
      | true =>
          obtain rfl : s = .missing := by cases s <;> first | rfl | cases hs
          exact stmts_formed ss h
      | false =>
          obtain ⟨c, k₁, c', hc, hc', rfl⟩ := stmts_cons hs h
          exact (stmt_formed s hc).append (stmts_formed ss hc')

end

end Lower

namespace Listing

open Emit

/-- The instructions for a program are well formed. -/
theorem wellFormed_of_program {body : List Stmt} {k : Fresh} {code : List Instr}
    (h : program body {} = .ok ((), code, k)) : WellFormed k code := by
  rw [program, bind_eq_ok] at h
  obtain ⟨_, c, _, k₁, hbody, hstop, rfl⟩ := h
  cases hstop
  have hformed := Lower.stmts_formed body hbody
  have hstop : Settled c := hformed.settled
  refine ⟨?_, ?_, ?_, ?_, ?_, ?_, c, rfl, hformed.running⟩
  · have hdests := hformed.dests
    rw [Nat.sub_zero, ← List.range_eq_range'] at hdests
    rw [List.filterMap_append, hdests]
    simp [Instr.dest?]
  · exact everywhere_append.mpr ⟨hformed.uses, everywhere_singleton.mpr (List.forall_mem_nil _)⟩
  · have hlabels := hformed.labels
    rw [Nat.sub_zero, ← List.range_eq_range'] at hlabels
    simpa [Instr.marked?] using hlabels
  · exact everywhere_append.mpr
      ⟨everywhere_lands_within hformed.jumps balanced_nil [.stop],
        everywhere_singleton.mpr (lands_of_target? rfl)⟩
  · obtain ⟨m, hm⟩ := hformed.functions
    exact ⟨m, by rw [boundaries_append, hm]; simp [boundaries, Instr.boundary?]⟩
  · have hlast : Prepared (c ++ []) .stop := by rwa [List.append_nil]
    exact everywhere_append.mpr ⟨hformed.calls, everywhere_singleton.mpr hlast⟩

theorem program_of_ofStmts {body : List Stmt} {lines : LineTable} {code : List Instr}
    (h : ofStmts body lines = .ok code) : ∃ k, program body {} = .ok ((), code, k) := by
  rw [ofStmts] at h
  split at h
  · next hprogram =>
    cases h
    exact ⟨_, hprogram⟩
  · cases h

/-- **Every listing is well formed**, with the temporaries and labels that were taken while it was
made. -/
theorem wellFormed_of_ofStmts {body : List Stmt} {lines : LineTable} {code : List Instr}
    (h : ofStmts body lines = .ok code) :
    ∃ k, program body {} = .ok ((), code, k) ∧ WellFormed k code := by
  obtain ⟨k, hprogram⟩ := program_of_ofStmts h
  exact ⟨k, hprogram, wellFormed_of_program hprogram⟩

/-- A function, and a loop with a call in an argument of another one:

`fxn f(a) { return !a; } while (x < y) { x = f(f(x)); }` -/
theorem wellFormed_nested_calls :
    let x := utf8 "x"
    let y := utf8 "y"
    let f := utf8 "f"
    let a := utf8 "a"
    let inner := Expr.call 50 (.ident 49 f) [.ident 51 x]
    let outer := Expr.call 48 (.ident 47 f) [inner]
    let body := [
      Stmt.fxn 4 f [a] [.ret 11 (.unary 18 .not (.ident 19 a))],
      Stmt.loop 24 (.binary 33 .lt (.ident 31 x) (.ident 35 y))
        (.block 38 [.expr 43 (.assign 43 x outer)])]
    let code := [
      Instr.func f, .arg a, .load 0 a, .unary 1 .not (.temp 0), .print (.temp 1), .ret (.temp 1),
      .endFunc, .label 0, .load 2 x, .load 3 y, .binary 4 .lt (.temp 2) (.temp 3),
      .jumpUnless (.temp 4) 1, .load 5 x, .param (.temp 5), .call 6 (.named f) 1,
      .param (.temp 6), .call 7 (.named f) 1, .store x (.temp 7), .jump 0, .label 1, .stop]
    ofStmts body #[] = .ok code ∧
      ∃ k, program body {} = .ok ((), code, k) ∧ WellFormed k code := by
  intro x y f a inner outer body code
  have hcode : ofStmts body #[] = .ok code := rfl
  exact ⟨hcode, wellFormed_of_ofStmts hcode⟩

end Listing

end Badger
