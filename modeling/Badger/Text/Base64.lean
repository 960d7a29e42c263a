import Badger.Text.Basic

/-!
# Bytes as letters

Three bytes are written as four letters, each for six bits; a last group of one or two bytes is
filled up with equals signs.

## Main definitions

* `Base64.decode?`: the bytes that a text stands for
-/

namespace Badger.Base64

/-- The six bits that a letter stands for. -/
def value? (b : UInt8) : Option Nat :=
  if 65 ≤ b && b ≤ 90 then some (b.toNat - 65)
  else if 97 ≤ b && b ≤ 122 then some (b.toNat - 71)
  else if 48 ≤ b && b ≤ 57 then some (b.toNat + 4)
  else if b = 43 then some 62
  else if b = 47 then some 63
  else none

/-- The equals sign, which fills up the last group. -/
def filler : UInt8 := 61

/-- The bytes of groups of four letters. Bits that fill up the last group are ignored. -/
def groups? : Text → Option Text
  | [] => some []
  | a :: b :: c :: d :: rest => do
    let a ← value? a
    let b ← value? b
    let first := (4 * a + b / 16).toUInt8
    if c = filler then
      if d = filler && rest.isEmpty then some [first] else none
    else
      let c ← value? c
      let second := (b % 16 * 16 + c / 4).toUInt8
      if d = filler then
        if rest.isEmpty then some [first, second] else none
      else
        let d ← value? d
        let others ← groups? rest
        some (first :: second :: (c % 4 * 64 + d).toUInt8 :: others)
  | _ => none

/-- **The bytes that a text stands for.** Line breaks are ignored. -/
def decode? (t : Text) : Option Text := groups? (t.filter fun b => b != 10 && b != 13)

end Badger.Base64
