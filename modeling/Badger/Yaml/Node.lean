import Badger.Yaml.Malformed
import Badger.Yaml.Scalar

/-!
# Nodes of a document

The tree that a document holds: scalars, sequences and mappings, each with the line it starts
on and its tag, and references to nodes that have a name.

## Main definitions

* `Yaml.Node`: a node of a document
* `Yaml.Node.ofPlain`, `Yaml.Node.ofQuoted`: scalars without a tag
* `Yaml.Document`: a node with the nodes that references in it lead to

## Design notes

A reference holds a number and not the node that it leads to, since a node may hold references
to itself.
-/

namespace Badger.Yaml

/-- **A node of a document**, with the line it starts on, counted from one. -/
inductive Node where
  | scalar (line : Nat) (tag value : Text)
  | seq (line : Nat) (tag : Text) (items : List Node)
  | map (line : Nat) (tag : Text) (entries : List (Node × Node))
  /-- A reference to the named node with the number `target`; `site` tells references apart. -/
  | alias (line : Nat) (name : Text) (target site : Nat)

namespace Node

/-- The line that a node starts on. -/
def line : Node → Nat
  | .scalar line _ _ | .seq line _ _ | .map line _ _ | .alias line _ _ _ => line

/-- The text of a scalar, or the name in a reference; other nodes have none. -/
def text : Node → Text
  | .scalar _ _ value => value
  | .alias _ name _ _ => name
  | _ => []

/-- Whether two nodes are of one kind and have one text, which makes them the same key. -/
def sameKey : Node → Node → Bool
  | .scalar _ _ a, .scalar _ _ b => a == b
  | .seq _ _ _, .seq _ _ _ => true
  | .map _ _ _, .map _ _ _ => true
  | .alias _ a _ _, .alias _ b _ _ => a == b
  | _, _ => false

/-- Whether a node is a mapping. -/
def isMap : Node → Bool
  | .map _ _ _ => true
  | _ => false

/-- The key that takes over the entries of other mappings. -/
def mergeKey : Text := utf8 "<<"

/-- Whether a node is the key that takes over the entries of other mappings. -/
def isMerge : Node → Bool
  | .scalar _ tag value => value == mergeKey && tag == Tag.merge
  | _ => false

/-- A scalar without quotes and without a tag: its spelling tells the tag. -/
def ofPlain (line : Nat) (value : Text) : Node :=
  .scalar line (if value = mergeKey then Tag.merge else (Scalar.ofSpelling true value).tag) value

/-- A quoted scalar without a tag. -/
def ofQuoted (line : Nat) (value : Text) : Node := .scalar line Tag.str value

/-- A node that is not there. -/
def absent (m : Mark) : Node := ofPlain (m.line + 1) []

end Node

/-- **A document**: its root, the nodes that references lead to, and the number of characters that
it was read from, which exceeds the number of nodes and of references. -/
structure Document where
  root : Node
  named : Array Node := #[]
  size : Nat := 0

/-- The node that a reference leads to. -/
def Document.target (d : Document) (target : Nat) : Node := d.named.getD target (.absent {})

end Badger.Yaml
