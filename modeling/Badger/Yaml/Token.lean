import Badger.Yaml.Scan

/-!
# Tokens of a document

The words of a document of settings: its scalars, the properties in front of nodes, the marks
of collections, and the starts and ends that indentation stands for.

## Main definitions

* `Yaml.Symbol`: what a token is
* `Yaml.Token`: a token with the place it starts at
-/

namespace Badger.Yaml

/-- **What a token is.** -/
inductive Symbol where
  /-- The version of the format that a document is written in. -/
  | version (major minor : Nat)
  /-- What a handle in front of tags stands for. -/
  | tagHandle (handle meaning : Text)
  | textStart
  | documentStart
  | documentEnd
  | textEnd
  | blockSequence
  | blockMapping
  | blockEnd
  | flowSequence
  | flowSequenceEnd
  | flowMapping
  | flowMappingEnd
  | flowEntry
  | blockEntry
  | key
  | value
  | alias (name : Text)
  | anchor (name : Text)
  /-- A tag: its handle, which may be empty, and the rest. -/
  | tag (handle rest : Text)
  /-- A scalar, and whether it has no quotes and is no block of lines. -/
  | scalar (plain : Bool) (value : Text)
deriving DecidableEq, Repr

/-- **A token** with the place it starts at. -/
structure Token where
  start : Mark
  symbol : Symbol
deriving DecidableEq, Repr

end Badger.Yaml
