import Badger.CommandLine.Arguments
import Badger.CommandLine.Run
import Badger.Console.Basic
import Badger.Console.Directive
import Badger.Console.Intake
import Badger.Files
import Badger.Listing.Instr
import Badger.Listing.Lowering
import Badger.Main
import Badger.Number.Binary
import Badger.Number.Decimal
import Badger.Number.Numeral
import Badger.Path
import Badger.Problem
import Badger.Scope.Memory
import Badger.Session.Basic
import Badger.Session.Evaluate
import Badger.Session.Run
import Badger.Settings.Basic
import Badger.Settings.Decode
import Badger.Settings.Load
import Badger.Source.Chunk
import Badger.Source.Diagnostic
import Badger.Source.LineTable
import Badger.Text.Base64
import Badger.Text.Basic
import Badger.Text.CharClass
import Badger.Text.CharRanges
import Badger.Text.Packed
import Badger.Text.Quoted
import Badger.Text.Rune
import Badger.Token.Basic
import Badger.Token.Piece
import Badger.Token.Stream
import Badger.Tree.Basic
import Badger.Tree.Debug
import Badger.Tree.Nodes
import Badger.Tree.Parser
import Badger.Tree.Reader
import Badger.Value.Basic
import Badger.Value.Operation
import Badger.Yaml.Character
import Badger.Yaml.Comment
import Badger.Yaml.Cursor
import Badger.Yaml.Document
import Badger.Yaml.Lookahead
import Badger.Yaml.Lookahead.Fetch
import Badger.Yaml.Malformed
import Badger.Yaml.Node
import Badger.Yaml.Scalar
import Badger.Yaml.Scan
import Badger.Yaml.Timestamp
import Badger.Yaml.Token
import Badger.Yaml.Token.Block
import Badger.Yaml.Token.Plain
import Badger.Yaml.Token.Property
import Badger.Yaml.Token.Quoted
import Badger.Proofs.Grammar.Basic
import Badger.Proofs.Parsing.Contract
import Badger.Proofs.Parsing.Progress
import Badger.Proofs.Grammar.Soundness
import Badger.Proofs.Grammar.Completeness
import Badger.Proofs.Grammar.Acceptance
import Badger.Proofs.Session.Move
import Badger.Proofs.Scope.Binding
import Badger.Proofs.Session.Persistence
import Badger.Proofs.Session.Hygiene
import Badger.Proofs.Grammar.Subtree
import Badger.Proofs.Session.Moment
import Badger.Proofs.Session.Declared
import Badger.Proofs.Session.Provenance
import Badger.Proofs.Parsing.Seam
import Badger.Proofs.Parsing.Confinement
import Badger.Proofs.Tree.Offsets
import Badger.Proofs.Token.Concatenation
import Badger.Proofs.Session.Budget
import Badger.Proofs.Session.Bare
import Badger.Proofs.Session.Splitting
import Badger.Proofs.Session.Outcome
import Badger.Proofs.Listing.Machine
import Badger.Proofs.Listing.Shape
import Badger.Proofs.Listing.Correspondence
import Badger.Proofs.Listing.Arrival
import Badger.Proofs.Listing.Evaluation
import Badger.Proofs.Listing.Simulation
import Badger.Proofs.Number.Bits
import Badger.Proofs.Number.Shortest
import Badger.Proofs.Listing.Reading
import Badger.Proofs.Token.Lexical
import Badger.Proofs.Listing.Source
import Badger.Proofs.Listing.Behaviour
import Badger.Proofs.Number.Rounding
import Badger.Proofs.Text.Unquote
import Badger.Proofs.Text.Encoding
import Badger.Proofs.Token.Printing
import Badger.Proofs.Token.Region
import Badger.Proofs.Console.Buffering
import Badger.Proofs.Session.Balance
import Badger.Proofs.Tree.Nesting
import Badger.Proofs.Scope.Depth
import Badger.Proofs.Session.Nesting
import Badger.Proofs.Scope.Recast
import Badger.Proofs.Tree.Pruning
import Badger.Proofs.Session.Variant
import Badger.Proofs.Session.Replay
import Badger.Proofs.Session.Limits
import Badger.Proofs.Session.DeadCode
import Badger.Proofs.Token.LineBreaks
import Badger.Proofs.Source.Lines
import Badger.Proofs.Console.Stretches
import Badger.Proofs.Console.Conservation
import Badger.Proofs.Grammar.Recovery
import Badger.Proofs.Listing.Lowerable
import Badger.Proofs.Listing.Layout
import Badger.Proofs.Listing.Capture
import Badger.Proofs.Number.Range
import Badger.Proofs.Token.Placement
import Badger.Proofs.Token.Strict
import Badger.Proofs.Token.Literal
import Badger.Proofs.Token.Tiling
import Badger.Proofs.Source.LineTable
import Badger.Proofs.Parsing.Passage
import Badger.Proofs.Parsing.Attempts
import Badger.Proofs.Tree.Anchors
import Badger.Proofs.Parsing.Ending
import Badger.Proofs.Scope.Lookup
import Badger.Proofs.Scope.Assignment
import Badger.Proofs.Text.Delimited
import Badger.Proofs.Tree.Debug
import Badger.Proofs.CommandLine.Flags
import Badger.Proofs.Parsing.Calls
import Badger.Proofs.Parsing.Cursor
import Badger.Proofs.Parsing.Tracking
import Badger.Proofs.Parsing.Refinement
import Badger.Proofs.Scope.WellFormed
import Badger.Proofs.Session.WellFormed
import Badger.Proofs.Session.Dispatch
import Badger.Proofs.Settings.Decoding
import Badger.Proofs.Settings.Guarantees
