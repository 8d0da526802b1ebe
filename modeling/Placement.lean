import Placement.Answer
import Placement.Auction
import Placement.Command.Basic
import Placement.Command.Bid
import Placement.Command.Relay
import Placement.Command.Select
import Placement.CommandLine.Directory
import Placement.CommandLine.Invocation
import Placement.CommandLine.Level
import Placement.CommandLine.Program
import Placement.Context
import Placement.Decimal.Binary
import Placement.Decimal.Layout
import Placement.Decimal.Literal
import Placement.Decimal.Shortest
import Placement.Decimal.Significand
import Placement.Duration
import Placement.External.Bidder
import Placement.External.Exchange
import Placement.External.Failure
import Placement.External.Fallback
import Placement.External.FanOut
import Placement.External.Reply
import Placement.External.Response
import Placement.Feasibility
import Placement.Job
import Placement.Json.Printer
import Placement.Json.Reader
import Placement.Json.Value
import Placement.Main
import Placement.Proofs.Auction.Clearing
import Placement.Proofs.Auction.Winner
import Placement.Proofs.Bounds
import Placement.Proofs.Chain
import Placement.Proofs.Condition
import Placement.Proofs.Curves
import Placement.Proofs.Decimal.Digits
import Placement.Proofs.Decimal.ReadBack
import Placement.Proofs.Decimal.Shortest
import Placement.Proofs.Decimal.Significand
import Placement.Proofs.Double.Arithmetic
import Placement.Proofs.Double.Decay
import Placement.Proofs.Double.Error
import Placement.Proofs.Double.Fields
import Placement.Proofs.Double.Integral
import Placement.Proofs.Double.Level
import Placement.Proofs.Double.Nearest
import Placement.Proofs.Double.Order
import Placement.Proofs.Double.Positive
import Placement.Proofs.Double.Root
import Placement.Proofs.Double.Rounding
import Placement.Proofs.Double.Scientific
import Placement.Proofs.Double.Seconds
import Placement.Proofs.Double.Sum
import Placement.Proofs.Double.Value
import Placement.Proofs.Double.Zero
import Placement.Proofs.Except
import Placement.Proofs.External.Contract
import Placement.Proofs.External.Deadlock
import Placement.Proofs.External.Explanation
import Placement.Proofs.External.FanOut
import Placement.Proofs.External.Leftmost
import Placement.Proofs.External.Outage
import Placement.Proofs.External.Prose
import Placement.Proofs.External.Response
import Placement.Proofs.External.Selection
import Placement.Proofs.External.Settlement
import Placement.Proofs.Feasibility
import Placement.Proofs.Gate
import Placement.Proofs.Json.Content
import Placement.Proofs.Json.Grammar
import Placement.Proofs.Json.Line
import Placement.Proofs.Json.Members
import Placement.Proofs.Json.Numeral
import Placement.Proofs.Json.Printed
import Placement.Proofs.Json.Proper
import Placement.Proofs.Json.RoundTrip
import Placement.Proofs.Json.Scan
import Placement.Proofs.Label
import Placement.Proofs.Output
import Placement.Proofs.Record.Grammar
import Placement.Proofs.Record.Padding
import Placement.Proofs.Record.Portable
import Placement.Proofs.Record.Ranges
import Placement.Proofs.Record.RoundTrip
import Placement.Proofs.Record.Shape
import Placement.Proofs.Record.Wire
import Placement.Proofs.Relay
import Placement.Proofs.Request.Acceptance
import Placement.Proofs.Request.Conditions
import Placement.Proofs.Request.Deferral
import Placement.Proofs.Request.Normal
import Placement.Proofs.Request.Schema
import Placement.Proofs.Rules
import Placement.Proofs.Scoring.Bounded
import Placement.Proofs.Scoring.Delay
import Placement.Proofs.Scoring.Exact
import Placement.Proofs.Scoring.Factors
import Placement.Proofs.Scoring.Finite
import Placement.Proofs.Scoring.Halves
import Placement.Proofs.Scoring.Monotone
import Placement.Proofs.Scoring.Origin
import Placement.Proofs.Scoring.Positive
import Placement.Proofs.Scoring.Precision
import Placement.Proofs.Scoring.Responsive
import Placement.Proofs.Scoring.Similarity
import Placement.Proofs.Script.Pipes
import Placement.Proofs.Text.Blank
import Placement.Proofs.Text.Octets
import Placement.Proofs.Toml.Keys
import Placement.Proofs.Toml.Line
import Placement.Proofs.Toml.Number
import Placement.Proofs.Toml.Restrict
import Placement.Proofs.Toml.RoundTrip
import Placement.Proofs.Tuning.Document
import Placement.Proofs.Tuning.Overlay
import Placement.Proofs.Tuning.Ranges
import Placement.Proofs.Tuning.Section
import Placement.Proofs.Tuning.Verdict
import Placement.Record.Check
import Placement.Record.Fault
import Placement.Record.Shape
import Placement.Rejection
import Placement.Request
import Placement.ResourceType
import Placement.Scalar
import Placement.Scoring.Assessment
import Placement.Scoring.Choice
import Placement.Scoring.Embedding
import Placement.Scoring.Heuristic
import Placement.Script.Arithmetic
import Placement.Script.Format
import Placement.Script.Launch
import Placement.Script.Machine
import Placement.Script.Pattern
import Placement.Script.Raw
import Placement.Script.Reader
import Placement.Script.Run
import Placement.Script.Tree
import Placement.Script.Utility
import Placement.System
import Placement.Text.Blank
import Placement.Text.Hidden
import Placement.Text.Octets
import Placement.Text.Quoted
import Placement.Toml.Document
import Placement.Toml.Lexeme
import Placement.Toml.Printer
import Placement.Toml.Reader
import Placement.Toml.Value
import Placement.Tuning
import Placement.Tuning.Document
import Placement.Tuning.Form
