import Badger.Text.Basic

/-!
# Packed text

A text in one block of memory. The strings of a running program are kept in this form:
repetition may produce tens of megabytes, for which a list has no room.

## Main definitions

* `Packed`: a text in one block
* `Packed.ofText`, `Packed.toText`: the two directions of the view as a list of bytes
* `Packed.append`, `Packed.times`, `Packed.compare`: what programs do with strings

## Design notes

Every operation is described through `Packed.toText`; the view is injective, so equality
of packed texts is equality of the bytes they hold. Repetition works by doubling.
-/

namespace Badger

/-- **A packed text.** The bytes of a string value in one block of memory. -/
structure Packed where
  bytes : ByteArray

namespace Packed

/-- The text a block holds. -/
def toText (p : Packed) : Text := p.bytes.data.toList

/-- The block that holds a text. -/
def ofText (t : Text) : Packed := ⟨⟨t.toArray⟩⟩

@[simp] theorem toText_ofText (t : Text) : (ofText t).toText = t := rfl

@[simp] theorem ofText_toText (p : Packed) : ofText p.toText = p := rfl

/-- The view as a text is injective. -/
theorem toText_inj {p q : Packed} : p.toText = q.toText ↔ p = q :=
  ⟨fun h => by rw [← ofText_toText p, h, ofText_toText], fun h => h ▸ rfl⟩

/-- The number of bytes. -/
def size (p : Packed) : Nat := p.bytes.size

@[simp] theorem size_eq_length (p : Packed) : p.size = p.toText.length := by
  rfl

/-- Whether there is no byte. -/
def isEmpty (p : Packed) : Bool := p.size == 0

/-- The empty text. -/
def empty : Packed := ⟨ByteArray.empty⟩

@[simp] theorem toText_empty : empty.toText = [] := rfl

/-- One text after the other. -/
def append (p q : Packed) : Packed := ⟨p.bytes ++ q.bytes⟩

@[simp] theorem toText_append (p q : Packed) :
    (p.append q).toText = p.toText ++ q.toText := rfl

/-- Equality of texts; blocks of different sizes are told apart without being read. -/
def same (p q : Packed) : Bool := p.size == q.size && ByteArray.beq p.bytes q.bytes

@[simp] theorem same_iff (p q : Packed) : p.same q = true ↔ p = q := by
  constructor
  · intro h
    simp only [same, ByteArray.beq, Bool.and_eq_true, beq_iff_eq] at h
    exact toText_inj.1 (congrArg Array.toList h.2)
  · rintro rfl
    simp [same, ByteArray.beq]

/-- **Repetition.** The text `n` times over, by doubling the text repeated half as
often. -/
def times (p : Packed) (n : Nat) : Packed :=
  if h : n = 0 then empty
  else
    let half := p.times (n / 2)
    let twice := half.append half
    if n % 2 = 0 then twice else twice.append p
termination_by n
decreasing_by omega

@[simp] theorem times_zero (p : Packed) : p.times 0 = empty := by
  rw [Packed.times]; simp

/-- Repetition in terms of the view: so many copies laid end to end. -/
theorem toText_times (p : Packed) (n : Nat) :
    (p.times n).toText = (List.replicate n p.toText).flatten := by
  induction n using Nat.strongRecOn with
  | _ n ih =>
    rw [Packed.times]
    split
    · rename_i h; subst h; rfl
    · rename_i h
      have hlt : n / 2 < n := by omega
      have half := ih (n / 2) hlt
      split
      · rename_i he
        have hn : n = n / 2 + n / 2 := by omega
        rw [toText_append, half]
        conv => rhs; rw [hn, ← List.replicate_append_replicate, List.flatten_append]
      · rename_i ho
        have hn : n = n / 2 + n / 2 + 1 := by omega
        rw [toText_append, toText_append, half]
        conv =>
          rhs
          rw [hn, ← List.replicate_append_replicate, List.flatten_append,
            ← List.replicate_append_replicate, List.flatten_append]
        simp

/-- The order of the bytes from position `i` on; a text comes before its extensions. -/
def compareFrom (p q : ByteArray) (i : Nat) : Ordering :=
  if hp : i < p.size then
    if hq : i < q.size then
      if p[i] < q[i] then .lt
      else if q[i] < p[i] then .gt
      else compareFrom p q (i + 1)
    else .gt
  else if i < q.size then .lt
  else .eq
termination_by p.size - i

/-- Byte-wise lexicographic comparison. -/
def compare (p q : Packed) : Ordering := compareFrom p.bytes q.bytes 0

end Packed

end Badger
