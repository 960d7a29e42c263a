import Badger.Text.Basic

/-!
# Characters inside a text

Reading a text character by character. A well-formed UTF-8 sequence is read as the
character that it encodes; a byte that starts no well-formed sequence is read alone, as
the replacement character. Reading therefore never fails, and the bytes of the characters
read are the text itself.

## Main definitions

* `Rune`: a character together with the bytes it was read from
* `Rune.read`: the character at the front of a non-empty text
* `Rune.all`: all characters of a text
* `Rune.encode`: the UTF-8 bytes of a character

## Design notes

A scanner works on the list of runes and not on bytes, so it never has to know how long a
character is; its byte offsets are lengths of `Rune.raw`. `Rune.afterSkip` skips the bytes that
belong to the character just read one at a time, which keeps it structurally recursive.
-/

namespace Badger

/-- **A rune.** A character as it stands in a text, with the bytes it was read from. -/
structure Rune where
  char : Char
  raw : Text
deriving DecidableEq, Repr

namespace Rune

/-- The character that stands for a byte outside every well-formed sequence. -/
def replacement : Char := Char.ofNat 0xFFFD

/-- Whether a byte may follow the second byte of a sequence. -/
def isTail (b : UInt8) : Bool := 0x80 ≤ b && b ≤ 0xBF

/-- Whether `b` may follow the first byte `lead`. The narrower ranges rule out overlong
forms, surrogates and numbers above the last character. -/
def isSecond (lead b : UInt8) : Bool :=
  if lead = 0xE0 then 0xA0 ≤ b && b ≤ 0xBF
  else if lead = 0xED then 0x80 ≤ b && b ≤ 0x9F
  else if lead = 0xF0 then 0x90 ≤ b && b ≤ 0xBF
  else if lead = 0xF4 then 0x80 ≤ b && b ≤ 0x8F
  else isTail b

/-- The length of the sequences that a byte starts, zero if it starts none. -/
def sequenceLength (lead : UInt8) : Nat :=
  if lead < 0x80 then 1
  else if lead < 0xC2 then 0
  else if lead < 0xE0 then 2
  else if lead < 0xF0 then 3
  else if lead < 0xF5 then 4
  else 0

/-- The low six bits that a later byte of a sequence contributes. -/
def tailBits (b : UInt8) : Nat := b.toNat % 64

/-- **Reading a character.** The character at the front of the text `lead :: rest`, and
how many bytes of `rest` belong to it. -/
def read (lead : UInt8) (rest : Text) : Char × Nat :=
  match sequenceLength lead, rest with
  | 1, _ => (Char.ofNat lead.toNat, 0)
  | 2, b :: _ =>
    if isSecond lead b then (Char.ofNat (lead.toNat % 32 * 64 + tailBits b), 1)
    else (replacement, 0)
  | 3, b :: c :: _ =>
    if isSecond lead b && isTail c then
      (Char.ofNat ((lead.toNat % 16 * 64 + tailBits b) * 64 + tailBits c), 2)
    else (replacement, 0)
  | 4, b :: c :: d :: _ =>
    if isSecond lead b && isTail c && isTail d then
      (Char.ofNat (((lead.toNat % 8 * 64 + tailBits b) * 64 + tailBits c) * 64 + tailBits d), 3)
    else (replacement, 0)
  | _, _ => (replacement, 0)

/-- The characters of a text after its first `skip` bytes. -/
def afterSkip (skip : Nat) : Text → List Rune
  | [] => []
  | b :: rest =>
    match skip with
    | skip + 1 => afterSkip skip rest
    | 0 =>
      let (c, extra) := read b rest
      ⟨c, b :: rest.take extra⟩ :: afterSkip extra rest

/-- **The characters of a text**, in order. -/
def all (t : Text) : List Rune := afterSkip 0 t

/-- The bytes of a list of runes. -/
def bytes (rs : List Rune) : Text := (rs.map raw).flatten

/-- Whether the rune is a byte outside every well-formed sequence, as opposed to the
replacement character written out in full. -/
def isInvalid (r : Rune) : Bool := r.char == replacement && r.raw.length == 1

/-- The UTF-8 bytes of a character. -/
def encode (c : Char) : Text := String.utf8EncodeChar c

@[simp] theorem afterSkip_nil (skip : Nat) : afterSkip skip [] = [] := by
  cases skip <;> rfl

@[simp] theorem afterSkip_succ (skip : Nat) (b : UInt8) (rest : Text) :
    afterSkip (skip + 1) (b :: rest) = afterSkip skip rest := rfl

@[simp] theorem afterSkip_zero (b : UInt8) (rest : Text) :
    afterSkip 0 (b :: rest) =
      ⟨(read b rest).1, b :: rest.take (read b rest).2⟩ :: afterSkip (read b rest).2 rest := rfl

@[simp] theorem bytes_nil : bytes [] = [] := rfl

@[simp] theorem bytes_cons (r : Rune) (rs : List Rune) :
    bytes (r :: rs) = r.raw ++ bytes rs := rfl

@[simp] theorem bytes_append (rs ss : List Rune) :
    bytes (rs ++ ss) = bytes rs ++ bytes ss := by
  simp [bytes]

/-- The runes after `skip` bytes hold exactly the text after those bytes. -/
theorem bytes_afterSkip (skip : Nat) (t : Text) : bytes (afterSkip skip t) = t.drop skip := by
  induction t generalizing skip with
  | nil => simp
  | cons b rest ih =>
    cases skip with
    | zero => simp [ih]
    | succ skip => simp [ih]

/-- Reading loses nothing: the bytes of the runes are the text. -/
@[simp] theorem bytes_all (t : Text) : bytes (all t) = t := by
  simp [all, bytes_afterSkip]

end Rune

end Badger
