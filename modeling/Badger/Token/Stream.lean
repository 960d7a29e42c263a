import Badger.Source.Diagnostic
import Badger.Token.Piece

/-!
# Token streams

The tokens of a program text and its line breaks.

## Main definitions

* `TokenStream`: tokens, always ended by the end token, and line table
* `TokenStream.ofText`: the tokens of a text; what is no token is passed over
* `StrictReading`: what a strict reader has read, with the first problem
* `TokenStream.ofTextStrict`: the tokens of a text, unless some piece of it has a problem

## Design notes

The strict reader reads on behind a problem, up to the end of the text. It places its error by the
line breaks seen so far, before the rest of the text is known.
-/

namespace Badger

/-- **A token stream.** The tokens of a text, ended by the end token, and the line breaks
of the text. -/
structure TokenStream where
  tokens : List Token
  lines : LineTable

namespace TokenStream

/-- The tokens of pieces that start at the given offset, and the end token. -/
def tokensFrom (offset : Nat) : List Piece → List Token
  | [] => [Token.endAt offset]
  | p :: ps =>
    let rest := tokensFrom (offset + p.raw.length) ps
    match p.token? offset with
    | some t => t :: rest
    | none => rest

/-- The line breaks of pieces that start at the given offset. -/
def lineBreaksFrom (offset : Nat) : List Piece → List Int
  | [] => []
  | p :: ps => p.lineBreaks offset ++ lineBreaksFrom (offset + p.raw.length) ps

/-- The token stream of a cutting. -/
def ofPieces (ps : List Piece) : TokenStream where
  tokens := tokensFrom 0 ps
  lines := (lineBreaksFrom 0 ps).toArray

/-- **Tokens of a text.** Characters that start no token are passed over, and a numeral
above every number counts as zero. -/
def ofText (source : Text) : TokenStream := ofPieces (Piece.cut source)

end TokenStream

/-- **What a strict reader has read**: the tokens, the line breaks, and the first problem. -/
structure StrictReading where
  tokens : Array Token := #[]
  lines : LineTable := #[]
  error? : Option Diagnostic := none

namespace StrictReading

/-- Reads one more piece, at the given offset. A problem with it counts if it is the first one, and
is placed by the line breaks so far. -/
def take (r : StrictReading) (offset : Nat) (p : Piece) : StrictReading :=
  let lines := r.lines ++ (p.lineBreaks offset).toArray
  { tokens := r.tokens ++ (p.token? offset).toArray
    lines := lines
    error? := r.error?.or (p.problem?.map (Diagnostic.locate · offset lines)) }

/-- Reads pieces that start at the given offset, and the end token. -/
def takeAll (r : StrictReading) (offset : Nat) : List Piece → StrictReading
  | [] => { r with tokens := r.tokens.push (Token.endAt offset) }
  | p :: ps => (r.take offset p).takeAll (offset + p.raw.length) ps

/-- **A text, read strictly** to its end. -/
def ofText (source : Text) : StrictReading :=
  takeAll {} 0 (Piece.cut source)

/-- The token stream, unless there is a problem. -/
def stream (r : StrictReading) : Except Diagnostic TokenStream :=
  match r.error? with
  | some d => .error d
  | none => .ok ⟨r.tokens.toList, r.lines⟩

end StrictReading

namespace TokenStream

/-- **Tokens of a text, strictly.** A character that starts no token, or a numeral above
every number, is an error; the first one is reported. -/
def ofTextStrict (source : Text) : Except Diagnostic TokenStream :=
  (StrictReading.ofText source).stream

/-- The tokens of a text, strictly or not. -/
def read (strict : Bool) (source : Text) : Except Diagnostic TokenStream :=
  if strict then ofTextStrict source else .ok (ofText source)

@[simp] theorem tokensFrom_nil (offset : Nat) :
    tokensFrom offset [] = [Token.endAt offset] := rfl

@[simp] theorem lineBreaksFrom_nil (offset : Nat) : lineBreaksFrom offset [] = [] := rfl

@[simp] theorem lineBreaksFrom_cons (offset : Nat) (p : Piece) (ps : List Piece) :
    lineBreaksFrom offset (p :: ps) =
      p.lineBreaks offset ++ lineBreaksFrom (offset + p.raw.length) ps := rfl

end TokenStream

end Badger
