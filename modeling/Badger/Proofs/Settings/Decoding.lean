import Badger.Proofs.Grammar.Basic
import Badger.Settings.Decode

/-!
# What decoding a document can change

A decoder goes over the nodes of a document and may follow references and take over mappings on
the way, so that a key can be met far from where its value ends up. What it leaves as it is follows
from the keys alone: a property of the value that every decoder behind a key of the document keeps
is kept by the decoder for the whole mapping.

## Main definitions

* `Yaml.Document.Holds`: the nodes of a document
* `Yaml.Document.HasKey`: a name that is a key of some mapping of a document
* `Decode.Gives`: what holds of the value that a decoding gives
* `Decoder.Keeps`: a decoder that keeps a property of the value

## Main statements

* `Decode.Gives.bind`, `Decode.Gives.visit`: parts one after the other, and references
* `Decoder.gives_fill`: a mapping with all the mappings that it takes over
* `Decoder.Keeps.mapping`: **a decoder keeps what the decoders behind its keys keep**
-/

namespace Badger

/-! ## Nodes and keys of a document -/

namespace Yaml.Document

variable {d : Document} {n : Node} {name : Text}

/-- The node itself, or the one it refers to. -/
def resolve (d : Document) : Node → Node
  | .alias _ _ target _ => d.target target
  | n => n

/-- **The nodes of a document**, those that references lead to included. -/
inductive Holds (d : Document) : Node → Prop
  | root : Holds d d.root
  | target (i : Nat) : Holds d (d.target i)
  | item {line : Nat} {tag : Text} {items : List Node} {n : Node} :
      Holds d (.seq line tag items) → n ∈ items → Holds d n
  | key {line : Nat} {tag : Text} {entries : List (Node × Node)} {key value : Node} :
      Holds d (.map line tag entries) → (key, value) ∈ entries → Holds d key
  | value {line : Nat} {tag : Text} {entries : List (Node × Node)} {key value : Node} :
      Holds d (.map line tag entries) → (key, value) ∈ entries → Holds d value

theorem Holds.resolve (h : d.Holds n) : d.Holds (d.resolve n) := by
  cases n with
  | «alias» _ _ target _ => exact .target target
  | _ => exact h

/-- A node is a scalar that stands for the name, or refers to one. -/
def Spells (d : Document) (n : Node) (name : Text) : Prop :=
  ∃ line tag value meaning, d.resolve n = .scalar line tag value ∧
    Scalar.ofTagged tag value = .ok meaning ∧ Decoder.textOf meaning value = name

/-- **A name that is a key** of some mapping of the document. -/
def HasKey (d : Document) (name : Text) : Prop :=
  ∃ line tag entries key value,
    d.Holds (.map line tag entries) ∧ (key, value) ∈ entries ∧ d.Spells key name

end Yaml.Document

/-! ## What a decoding gives -/

namespace Decode

variable {α β : Type} {x : Decode α} {P Q : α → Prop} {R : β → Prop}

/-- **What a decoding gives.** Whatever was found before it, a value that it gives has the
property. -/
def Gives (x : Decode α) (P : α → Prop) : Prop := ∀ s a s', x.run s = .ok (a, s') → P a

theorem gives_true (x : Decode α) : x.Gives fun _ => True := fun _ _ _ _ => trivial

namespace Gives

theorem pure {a : α} (h : P a) : (Pure.pure a : Decode α).Gives P := by
  rintro s b s' ⟨⟩
  exact h

theorem throw (r : Yaml.Refusal) : (MonadExcept.throw r : Decode α).Gives P := by
  rintro s b s' ⟨⟩

/-- What fails on its own gives what it comes to otherwise. -/
theorem lift (x : Except Yaml.Refusal α) : (liftM x : Decode α).Gives fun a => x = .ok a := by
  intro s a s' h
  cases x with
  | error r => cases h
  | ok b =>
      cases h
      rfl

/-- **Parts one after the other.** -/
theorem bind {f : α → Decode β} (hx : x.Gives P) (hf : ∀ a, P a → (f a).Gives R) :
    (x >>= f).Gives R := by
  intro s b s' h
  rw [StateT.run_bind] at h
  cases hrun : x.run s with
  | error r =>
      rw [hrun] at h
      cases h
  | ok p =>
      rw [hrun] at h
      exact hf p.1 (hx s p.1 p.2 hrun) p.2 b s' h

/-- A part whose value is not looked at. -/
theorem behind {f : α → Decode β} (hf : ∀ a, (f a).Gives R) : (x >>= f).Gives R :=
  (gives_true x).bind fun a _ => hf a

/-- **A visit** gives what is made of the node, or of the one it refers to. -/
theorem visit {d : Yaml.Document} {n : Yaml.Node} {use : Yaml.Node → Decode α}
    (huse : (use (d.resolve n)).Gives P) : (Decode.visit d n use).Gives P := by
  refine behind fun _ => ?_
  cases n with
  | «alias» _ name target site =>
      refine behind fun s => ?_
      have hfollow : (do
          modify fun s => { s with sites := site :: s.sites }
          count
          let a ← use (d.target target)
          modify fun s => { s with sites := s.sites.drop 1 }
          return a : Decode α).Gives P :=
        behind fun _ => behind fun _ => huse.bind fun a ha => behind fun _ => pure ha
      split
      · exact behind fun _ => hfollow
      · exact hfollow
  | _ => exact huse

end Gives

end Decode

/-! ## What a decoder keeps -/

namespace Decoder

open Decode (Gives)

variable {α β : Type} {d : Yaml.Document} {P : α → Prop}

/-- **A decoder that keeps a property** of the value, at every node of the document. -/
def Keeps (d : Yaml.Document) (P : α → Prop) (decode : Decoder α) : Prop :=
  ∀ a n, P a → d.Holds n → (decode d a n).Gives P

theorem gives_leaf {shape : Shape} {accept : Yaml.Scalar → Text → Option α} {a : α} (ha : P a)
    (haccept : ∀ meaning value b, accept meaning value = some b → P b) (n : Yaml.Node) :
    (leaf shape accept a n).Gives P := by
  cases n with
  | scalar line tag value =>
      refine (Gives.lift _).bind fun meaning _ => ?_
      split
      · exact .pure ha
      · split
        next b hb => exact .pure (haccept _ _ b hb)
        next => exact .behind fun _ => .pure ha
  | seq line tag items => exact .behind fun _ => .pure ha
  | map line tag entries =>
      rw [leaf]
      split <;> exact .behind fun _ => .pure ha
  | «alias» line name target site => exact .pure ha

theorem Keeps.scalar {shape : Shape} {accept : Yaml.Scalar → Text → Option α}
    (haccept : ∀ meaning value b, accept meaning value = some b → P b) :
    Keeps d P (Decoder.scalar shape accept) :=
  fun _ _ ha _ => .visit (gives_leaf ha haccept _)

/-- **A part of a value** that is a scalar: it is put back as it was, or as it was accepted. -/
theorem Keeps.part {get : α → β} {set : α → β → α} {shape : Shape}
    {accept : Yaml.Scalar → Text → Option β} (hself : ∀ a, set a (get a) = a)
    (hset : ∀ a meaning value b, accept meaning value = some b → P a → P (set a b)) :
    Keeps d P (Decoder.part get set (Decoder.scalar shape accept)) := by
  intro a n ha hn
  have hget : P (set a (get a)) := (hself a).symm ▸ ha
  have haccept : ∀ meaning value b, accept meaning value = some b → P (set a b) :=
    fun meaning value b hb => hset a meaning value b hb ha
  exact (Keeps.scalar (P := fun b => P (set a b)) haccept (get a) n hget hn).bind fun _ hb =>
    .pure hb

/-! ### Mappings -/

/-- The name of a key is spelled by it. -/
theorem gives_keyName? (d : Yaml.Document) (key : Yaml.Node) :
    (keyName? d key).Gives fun name? => ∀ name, name? = some name → d.Spells key name := by
  refine .visit ?_
  have hnone : ∀ name, (none : Option Text) = some name → d.Spells key name := nofun
  cases hkey : d.resolve key with
  | scalar line tag value =>
      refine (Gives.lift _).bind fun meaning hmeaning => ?_
      split
      · exact .pure hnone
      · refine .pure fun name hname => ?_
        exact ⟨line, tag, value, _, hkey, hmeaning, Option.some.inj hname⟩
  | seq line tag items => exact .behind fun _ => .pure hnone
  | map line tag entries =>
      rw [leaf]
      split <;> exact .behind fun _ => .pure hnone
  | «alias» line name target site => exact .pure hnone

/-- **The decoders behind the keys** of the document keep a property. -/
def Behind (d : Yaml.Document) (P : α → Prop) (fields : Fields α) : Prop :=
  ∀ name decode, (name, decode) ∈ fields.decoders → d.HasKey name → Keeps d P decode

variable {fields : Fields α}

/-- What is known of a mapping that is being decoded. -/
structure Filling (d : Yaml.Document) (P : α → Prop) (f : Filled α) : Prop where
  value : P f.value
  merge : ∀ n, f.merge = some n → d.Holds n

theorem gives_entry (hfields : Behind d P fields) {f : Filled α} (hf : Filling d P f)
    {line : Nat} {tag : Text} {all : List (Yaml.Node × Yaml.Node)} {key value : Yaml.Node}
    (hmap : d.Holds (.map line tag all)) (hmem : (key, value) ∈ all) :
    (entry fields d f key value).Gives (Filling d P) := by
  unfold entry
  split
  · refine .pure ⟨hf.value, fun n hn => ?_⟩
    cases hn
    exact hmap.value hmem
  · refine (gives_keyName? d key).bind fun name? hname => ?_
    split
    · exact .pure hf
    next name =>
      split
      · exact .pure hf
      · split
        · exact .behind fun _ => .pure ⟨hf.value, hf.merge⟩
        next decode hdecode =>
          dsimp only
          split
          · exact .behind fun _ => .pure ⟨hf.value, hf.merge⟩
          · have hkey : d.HasKey name := ⟨line, tag, all, key, value, hmap, hmem, hname _ rfl⟩
            refine (hfields name decode (mem_of_lookup hdecode) hkey _ value hf.value
              (hmap.value hmem)).bind fun a ha => .pure ⟨ha, hf.merge⟩

theorem gives_entries (hfields : Behind d P fields) {line : Nat} {tag : Text}
    {all : List (Yaml.Node × Yaml.Node)} (hmap : d.Holds (.map line tag all)) :
    ∀ (es : List (Yaml.Node × Yaml.Node)) (f : Filled α), es ⊆ all → Filling d P f →
      (entries fields d f es).Gives (Filling d P)
  | [], _, _, hf => .pure hf
  | (_, _) :: es, _, hes, hf =>
      (gives_entry hfields hf hmap (hes List.mem_cons_self)).bind fun f' hf' =>
        gives_entries hfields hmap es f' (fun _ he => hes (List.mem_cons_of_mem _ he)) hf'

theorem holds_mergeItems {n m : Yaml.Node} (hn : d.Holds n) (hm : m ∈ mergeItems n) :
    d.Holds m := by
  cases n with
  | seq line tag items => exact hn.item hm
  | _ =>
      rw [List.mem_singleton.mp hm]
      exact hn

theorem gives_mergeAll {take : List Text → α → Yaml.Node → Decode (α × List Text)}
    (htake : ∀ taken a n, P a → d.Holds n → (take taken a n).Gives (P ·.1)) :
    ∀ (ns : List Yaml.Node) (taken : List Text) (a : α), (∀ n ∈ ns, d.Holds n) → P a →
      (mergeAll d take taken a ns).Gives (P ·.1)
  | [], _, _, _, ha => .pure ha
  | n :: ns, taken, a, hns, ha => by
      have hrest : (Decode.visit d n (take taken a) >>= fun r =>
          mergeAll d take r.2 r.1 ns).Gives (P ·.1) := by
        have hn : d.Holds n := hns n List.mem_cons_self
        refine (Gives.visit (htake taken a _ ha hn.resolve)).bind fun r hr => ?_
        exact gives_mergeAll htake ns r.2 r.1 (fun m hm => hns m (List.mem_cons_of_mem _ hm)) hr
      rw [mergeAll]
      split
      · exact .behind fun _ => hrest
      · exact hrest

/-- **A mapping with all the mappings that it takes over.** -/
theorem gives_fill (hfields : Behind d P fields) (budget : Nat) :
    ∀ (taken : Option (List Text)) (a : α) (n : Yaml.Node), P a → d.Holds n →
      (fill fields d budget taken a n).Gives (P ·.1) := by
  induction budget with
  | zero => exact fun _ _ _ _ _ => .throw _
  | succ budget ih =>
      intro taken a n ha hn
      have hleaf : (do
          let a ← leaf fields.shape (fun _ _ => none) a n
          return (a, taken) : Decode (α × Option (List Text))).Gives (P ·.1) :=
        (gives_leaf ha (fun _ _ _ h => by cases h) n).bind fun _ hb => .pure hb
      cases n with
      | map line tag es =>
          rw [fill]
          split
          · have hstart : Filling d P { value := a, taken } := ⟨ha, fun _ h => by cases h⟩
            refine (gives_entries hfields hn es _ (List.Subset.refl es) hstart).bind fun f hf => ?_
            split
            · exact .pure hf.value
            next m hm =>
              have hitems : ∀ k ∈ mergeItems m, d.Holds k := fun k hk =>
                holds_mergeItems (hf.merge m hm) hk
              have htake : ∀ (names : List Text) (b : α) (k : Yaml.Node), P b → d.Holds k →
                  (fill fields d budget (some names) b k >>= fun r =>
                    (return (r.1, r.2.getD names) : Decode (α × List Text))).Gives (P ·.1) :=
                fun names b k hb hk => (ih (some names) b k hb hk).bind fun r hr => .pure hr
              dsimp only
              split <;> exact .behind fun names =>
                (gives_mergeAll htake _ _ _ hitems hf.value).bind fun r hr => .pure hr
          · exact .behind fun _ => .pure ha
      | _ => exact hleaf

/-- **A decoder keeps what the decoders behind its keys keep.** -/
theorem Keeps.mapping (hfields : Behind d P fields) : Keeps d P (Decoder.mapping fields) :=
  fun _ _ ha hn => .visit ((gives_fill hfields _ _ _ _ ha hn.resolve).bind fun _ hr => .pure hr)

end Decoder

end Badger
