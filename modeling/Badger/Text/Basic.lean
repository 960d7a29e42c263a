/-!
# Program text

Everything that the language reads, stores or writes is text in the sense of this
module: a finite sequence of bytes. Offsets and columns count bytes, and a text need not
be well-formed UTF-8, so no conversion to `String` ever takes place inside the library.

## Main definitions

* `Text`: a list of bytes
* `utf8`: the bytes of a string constant of the library
* `Text.ofNat`, `Text.ofInt`: decimal numerals
* `Text.join`, `Text.dropTrailing`: joining texts, and cutting one at its end
* `Text.le`: the order in which names are listed

## Design notes

Text is a plain list, so that scanning is structural recursion and every list lemma
applies. Values of a running program, which may grow to many megabytes, are kept in the
packed form of `Badger.Text.Packed` instead.
-/

namespace Badger

/-- **Text.** A sequence of bytes, with no promise that it is well-formed UTF-8. -/
abbrev Text := List UInt8

/-- The UTF-8 bytes of a string. -/
def utf8 (s : String) : Text := s.toUTF8.data.toList

namespace Text

/-- The byte of an ASCII character. -/
def byte (c : Char) : UInt8 := c.toNat.toUInt8

/-- The newline byte. -/
def newline : UInt8 := 10

/-- A decimal numeral without leading zeros. -/
def ofNat (n : Nat) : Text := (Nat.toDigits 10 n).map byte

/-- A decimal numeral with a minus sign in front of a negative number. -/
def ofInt : Int → Text
  | .ofNat n => ofNat n
  | .negSucc n => byte '-' :: ofNat (n + 1)

/-- A numeral padded with blanks on the left to at least the given width. -/
def padLeft (width : Nat) (t : Text) : Text :=
  List.replicate (width - t.length) (byte ' ') ++ t

/-- The text without the longest run of the byte `b` at its end. -/
def dropTrailing (b : UInt8) (t : Text) : Text :=
  (t.reverse.dropWhile (· == b)).reverse

/-- The texts laid end to end, with `sep` between neighbours. -/
def join (sep : Text) (parts : List Text) : Text := List.intercalate sep parts

/-- Whether `t` starts with `start`. -/
def startsWith (t start : Text) : Bool := start.isPrefixOf t

/-- Whether `t` ends with `finish`. -/
def endsWith (t finish : Text) : Bool := finish.isSuffixOf t

/-- Byte-wise lexicographic order, the order in which names are listed. -/
def le : Text → Text → Bool
  | [], _ => true
  | _ :: _, [] => false
  | a :: as, b :: bs => if a < b then true else if b < a then false else le as bs

@[simp] theorem join_nil (sep : Text) : join sep [] = [] := rfl

@[simp] theorem join_singleton (sep part : Text) : join sep [part] = part := by
  simp [join, List.intercalate]

theorem join_cons_cons (sep part next : Text) (parts : List Text) :
    join sep (part :: next :: parts) = part ++ sep ++ join sep (next :: parts) := by
  simp [join, List.intercalate]

@[simp] theorem ofInt_ofNat (n : Nat) : ofInt (n : Int) = ofNat n := rfl

end Text

end Badger
