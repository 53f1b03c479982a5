import RunStream.Text.Blank
import RunStream.Text.Width
import RunStream.Text.Lines
import RunStream.Wire.Escape
import RunStream.Wire.Message
import RunStream.Wire.Parser
import RunStream.Tree.Basic
import RunStream.Tree.Walk
import RunStream.Tree.Name
import RunStream.Tree.Naming
import RunStream.Tree.Description
import RunStream.Nesting
import RunStream.Settings
import RunStream.Event
import RunStream.Live.Notice
import RunStream.Live.Stage
import RunStream.Live.Scopes
import RunStream.Live.Session
import RunStream.Text.Bytes
import RunStream.Report.Sink
import RunStream.Report.Reporter
import RunStream.Text.Binary64
import RunStream.Text.Decimal
import RunStream.Text.Literal
import RunStream.Folder
import RunStream.Toml.Value
import RunStream.Toml.Range
import RunStream.Toml.Scalar
import RunStream.Toml.Quoted
import RunStream.Toml.Draft
import RunStream.Toml.Statement
import RunStream.Toml.Document
import RunStream.Settings.Document
import RunStream.Json.Number
import RunStream.Json.Value
import RunStream.Json.Parser
import RunStream.Json.Shape
import RunStream.Script.Basic
import RunStream.Script.Decoder
import RunStream.Script.Resolved
import RunStream.Command.Arguments
import RunStream.Command.Log
import RunStream.Command.Outcome
import RunStream.Main
import RunStream.Proofs.Tree.Paths
import RunStream.Proofs.Live.Homes
import RunStream.Proofs.Lookup
import RunStream.Proofs.Live.Moves
import RunStream.Proofs.Live.Deeds
import RunStream.Proofs.Live.Queue
import RunStream.Proofs.Live.Course
import RunStream.Proofs.Wire.Enclosing
import RunStream.Proofs.Tree.Tour
import RunStream.Proofs.Live.Suites
import RunStream.Proofs.Live.Placement
import RunStream.Proofs.Live.Alternation
import RunStream.Proofs.Nesting
import RunStream.Proofs.Live.TestBlocks
import RunStream.Proofs.Wire.RoundTrip
import RunStream.Proofs.Live.Messages
import RunStream.Proofs.Live.Silence
import RunStream.Proofs.Live.Failures
import RunStream.Proofs.Live.Blocks
import RunStream.Proofs.Live.Interleaving
import RunStream.Proofs.Live.Consistency
import RunStream.Proofs.Live.Skipping
import RunStream.Proofs.Report.Failing
import RunStream.Proofs.Tree.Described
import RunStream.Proofs.Wire.Stream
import RunStream.Proofs.Script.Replay
import RunStream.Proofs.Wire.Boundary
import RunStream.Proofs.Live.Runs
import RunStream.Proofs.Brackets
import RunStream.Proofs.Live.Balance
import RunStream.Proofs.Live.Restarts
import RunStream.Proofs.Live.OneAtATime
import RunStream.Proofs.Wire.Grammar
import RunStream.Proofs.WellNested
import RunStream.Proofs.Wire.Captured
import RunStream.Proofs.Wire.Attributes
import RunStream.Proofs.Tree.Outline
import RunStream.Proofs.Tree.Growth
import RunStream.Proofs.Script.Planting
import RunStream.Proofs.Script.Resolution
import RunStream.Proofs.Live.Entering
import RunStream.Proofs.Live.Surrounding
import RunStream.Proofs.Live.Termination
import RunStream.Proofs.Wire.Tokens
import RunStream.Proofs.Wire.Canonical
import RunStream.Proofs.Tree.Arena
import RunStream.Proofs.Settings.Layers
import RunStream.Proofs.Tree.Qualified
import RunStream.Proofs.Tree.Groups
import RunStream.Proofs.Cut
