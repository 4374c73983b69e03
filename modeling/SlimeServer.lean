import SlimeServer.Address
import SlimeServer.CommandLine
import SlimeServer.Config.Load
import SlimeServer.Config.Settings
import SlimeServer.Config.Toml.Document
import SlimeServer.Config.Toml.Scalar
import SlimeServer.Config.Toml.Value
import SlimeServer.Editor.Message
import SlimeServer.Editor.Operations
import SlimeServer.Editor.Request
import SlimeServer.Editor.Server
import SlimeServer.Editor.Table
import SlimeServer.Evaluator.CallStack
import SlimeServer.Evaluator.Debugger
import SlimeServer.Evaluator.Evaluation
import SlimeServer.Evaluator.Handle
import SlimeServer.Evaluator.Link
import SlimeServer.Evaluator.Output
import SlimeServer.Evaluator.Peer
import SlimeServer.Evaluator.Place
import SlimeServer.Evaluator.Process
import SlimeServer.Evaluator.Splitter
import SlimeServer.Frame
import SlimeServer.Main
import SlimeServer.Number.Double
import SlimeServer.Number.Numeral
import SlimeServer.Number.Shortest
import SlimeServer.Operation
import SlimeServer.Program
import SlimeServer.Proofs.Editor.Accounting
import SlimeServer.Proofs.Editor.Evaluation
import SlimeServer.Proofs.Editor.Message
import SlimeServer.Proofs.Editor.Operations
import SlimeServer.Proofs.Editor.Quarantine
import SlimeServer.Proofs.Editor.Refusal
import SlimeServer.Proofs.Editor.Run
import SlimeServer.Proofs.Editor.Table
import SlimeServer.Proofs.Evaluator.Detection
import SlimeServer.Proofs.Evaluator.Evaluation
import SlimeServer.Proofs.Evaluator.Failed
import SlimeServer.Proofs.Evaluator.Failure
import SlimeServer.Proofs.Evaluator.Interleaving
import SlimeServer.Proofs.Evaluator.Leftovers
import SlimeServer.Proofs.Evaluator.Operations
import SlimeServer.Proofs.Evaluator.Schedule
import SlimeServer.Proofs.Evaluator.Splitter
import SlimeServer.Proofs.Evaluator.Stream
import SlimeServer.Proofs.Evaluator.Supply
import SlimeServer.Proofs.Evaluator.Waiting
import SlimeServer.Proofs.Frame
import SlimeServer.Proofs.FrameStream
import SlimeServer.Proofs.Number.Decimal
import SlimeServer.Proofs.Number.Numeral
import SlimeServer.Proofs.Number.Rounding
import SlimeServer.Proofs.Number.Shortest
import SlimeServer.Proofs.Operation
import SlimeServer.Proofs.Sexp.Grammar
import SlimeServer.Proofs.Sexp.Incomplete
import SlimeServer.Proofs.Sexp.Recognition
import SlimeServer.Proofs.Sexp.Reprinting
import SlimeServer.Proofs.Sexp.RoundTrip
import SlimeServer.Proofs.Text.Utf8
import SlimeServer.Report
import SlimeServer.Script
import SlimeServer.Session
import SlimeServer.Sexp.Basic
import SlimeServer.Sexp.Printer
import SlimeServer.Sexp.Reader
import SlimeServer.Text.Blank
import SlimeServer.Text.Case
import SlimeServer.Text.Color
import SlimeServer.Text.Letters
import SlimeServer.Text.Lowercase
import SlimeServer.Text.Quoted
import SlimeServer.Text.Shown
import SlimeServer.Text.Utf8
import SlimeServer.Proofs.Editor.Readable
import SlimeServer.Proofs.Editor.InStep
import SlimeServer.Proofs.Editor.Recovery
import SlimeServer.Proofs.Editor.Twins
import SlimeServer.Proofs.Editor.FreshStart
import SlimeServer.Proofs.Editor.Turns
import SlimeServer.Proofs.Editor.Tasks
import SlimeServer.Proofs.Editor.Invocation
import SlimeServer.Proofs.Evaluator.CallStack
import SlimeServer.Proofs.Sexp.Characters
import SlimeServer.Proofs.Editor.RaisedError
import SlimeServer.Proofs.Text.Segments
import SlimeServer.Proofs.Text.Color
import SlimeServer.Proofs.Text.Lossy
import SlimeServer.Proofs.Evaluator.Decoding
import SlimeServer.Proofs.Evaluator.Colors
import SlimeServer.Proofs.FrameReading
import SlimeServer.Proofs.Editor.Outbox
import SlimeServer.Proofs.Evaluator.Output
import SlimeServer.Proofs.Evaluator.Socket
import SlimeServer.Proofs.Evaluator.Command
import SlimeServer.Proofs.Text.Lines
import SlimeServer.Proofs.Evaluator.Dump
import SlimeServer.Proofs.Evaluator.Written
import SlimeServer.Proofs.Editor.Request
import SlimeServer.Proofs.Editor.Completions
import SlimeServer.Proofs.Editor.Embedding
import SlimeServer.Proofs.Evaluator.Debugger
import SlimeServer.Proofs.Text.Deletion
import SlimeServer.Proofs.Text.Unfinished
import SlimeServer.Proofs.Evaluator.HeldBack
import SlimeServer.Proofs.Config.Layers
import SlimeServer.Proofs.Config.Load
