import TimeTrials.Chart.Axis
import TimeTrials.Chart.Bars
import TimeTrials.Chart.Line
import TimeTrials.Chart.Trend
import TimeTrials.Cli.Arguments
import TimeTrials.Cli.Log
import TimeTrials.Cli.Report
import TimeTrials.Cli.Run
import TimeTrials.Color
import TimeTrials.Dataset.Fault
import TimeTrials.Dataset.File
import TimeTrials.Dataset.Reader
import TimeTrials.Dataset.Record
import TimeTrials.Dataset.Writer
import TimeTrials.Failure
import TimeTrials.Host.Fault
import TimeTrials.Host.FileSystem
import TimeTrials.Host.Process
import TimeTrials.Host.Shell.Arithmetic
import TimeTrials.Host.Shell.Condition
import TimeTrials.Host.Shell.Expansion
import TimeTrials.Host.Shell.Printing
import TimeTrials.Host.Shell.Run
import TimeTrials.Host.Shell.Script
import TimeTrials.Host.Shell.State
import TimeTrials.Host.Shell.Word
import TimeTrials.Launch
import TimeTrials.Main
import TimeTrials.Number.Binary64
import TimeTrials.Number.Decimal
import TimeTrials.Number.Literal
import TimeTrials.Number.Style
import TimeTrials.Settings.Basic
import TimeTrials.Settings.Decode
import TimeTrials.Settings.Load
import TimeTrials.Statistics
import TimeTrials.Summary
import TimeTrials.Sweep.Plan
import TimeTrials.Sweep.Run
import TimeTrials.Text.Blank
import TimeTrials.Text.Column
import TimeTrials.Text.Quoted
import TimeTrials.Text.Unprintable
import TimeTrials.Text.Utf8
import TimeTrials.Timing
import TimeTrials.Toml.Document
import TimeTrials.Toml.Parser
import TimeTrials.Toml.Quotation
import TimeTrials.Toml.Scalar
import TimeTrials.Toml.Value
import TimeTrials.Trial
import TimeTrials.Proofs.Number.Nearest
import TimeTrials.Proofs.Text.Utf8
import TimeTrials.Proofs.Number.Exact
import TimeTrials.Proofs.Number.Shortest
import TimeTrials.Proofs.Dataset.Dialect
import TimeTrials.Proofs.Dataset.Records
import TimeTrials.Proofs.Number.Written
import TimeTrials.Proofs.Results
import TimeTrials.Proofs.Dataset.Rows
import TimeTrials.Proofs.Dataset.Writing
import TimeTrials.Proofs.Dataset.RoundTrip
import TimeTrials.Proofs.Sweep.Composition
import TimeTrials.Proofs.Sweep.Execution
import TimeTrials.Proofs.Sweep.History
import TimeTrials.Proofs.Grouping
import TimeTrials.Proofs.Settings.Validation
import TimeTrials.Proofs.Settings.Faults
import TimeTrials.Proofs.Sweep.Pipeline
import TimeTrials.Proofs.Number.Order
import TimeTrials.Proofs.Number.Whole
import TimeTrials.Proofs.Number.Unsigned
import TimeTrials.Proofs.Aggregates
import TimeTrials.Proofs.Text.Blank
import TimeTrials.Proofs.Chart.Columns
import TimeTrials.Proofs.Chart.Scale
import TimeTrials.Proofs.Chart.Canvas
import TimeTrials.Proofs.Statistics
import TimeTrials.Proofs.Chart.Steps
import TimeTrials.Proofs.Chart.Pictures
import TimeTrials.Proofs.Chart.Rendering
import TimeTrials.Proofs.Number.Fixed
import TimeTrials.Proofs.Shown
import TimeTrials.Proofs.Text.ValidBytes
import TimeTrials.Proofs.Dataset.Stages
import TimeTrials.Proofs.FirstOccurrences
import TimeTrials.Proofs.Sweep.Comparison
import TimeTrials.Proofs.Text.Order
import TimeTrials.Proofs.Partition
import TimeTrials.Proofs.Chart.Points
import TimeTrials.Proofs.Chart.Categories
import TimeTrials.Proofs.Chart.Lengths
import TimeTrials.Proofs.Chart.Whiskers
import TimeTrials.Proofs.Text.Column
import TimeTrials.Proofs.Chart.Alignment
import TimeTrials.Proofs.Chart.Colors
import TimeTrials.Proofs.Text.Controls
import TimeTrials.Proofs.Chart.Painting
import TimeTrials.Proofs.Chart.Coloring
import TimeTrials.Proofs.Summary.Rows
import TimeTrials.Proofs.Summary.Rules
import TimeTrials.Proofs.Toml.Values
import TimeTrials.Proofs.Toml.Documents
import TimeTrials.Proofs.Settings.Records
import TimeTrials.Proofs.Settings.Readings
import TimeTrials.Proofs.Settings.Fields
import TimeTrials.Proofs.Settings.Order
import TimeTrials.Proofs.Settings.Decoding
import TimeTrials.Proofs.Number.Grammar
import TimeTrials.Proofs.Timing
import TimeTrials.Proofs.Acceptance
import TimeTrials.Proofs.Dataset.Defects
import TimeTrials.Proofs.Dataset.Lines
import TimeTrials.Proofs.Host.FileSystem
import TimeTrials.Proofs.Cli.Files
