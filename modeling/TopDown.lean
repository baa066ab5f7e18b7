import TopDown.Bar
import TopDown.Book.Assembly
import TopDown.Book.Basic
import TopDown.Book.Compile
import TopDown.Book.Evaluate
import TopDown.Book.Load
import TopDown.Command.Line
import TopDown.Command.Options
import TopDown.Command.Outcome
import TopDown.Command.Perform
import TopDown.Condition
import TopDown.Context
import TopDown.Crash
import TopDown.Decimal.Numeral
import TopDown.Decimal.Shortest
import TopDown.Decimal.Style
import TopDown.Descent
import TopDown.Fault
import TopDown.Gate
import TopDown.History.BarFile
import TopDown.History.BarFiles
import TopDown.History.Disk
import TopDown.Ini
import TopDown.Json.Path
import TopDown.Json.Reader
import TopDown.Json.Value
import TopDown.Json.Writer
import TopDown.KillSwitch
import TopDown.Main
import TopDown.Pipeline
import TopDown.Proofs.Bind
import TopDown.Proofs.Descent
import TopDown.Proofs.Gate
import TopDown.Proofs.Ready
import TopDown.Registry
import TopDown.Review.Check
import TopDown.Review.Circle
import TopDown.Review.Finding
import TopDown.Rule.Basic
import TopDown.Rule.Defect
import TopDown.Rule.Evaluate
import TopDown.Rule.Parser
import TopDown.RuleFile
import TopDown.Selection
import TopDown.Settings
import TopDown.Signal
import TopDown.Sink
import TopDown.Snapshot
import TopDown.StepResult
import TopDown.Symbols
import TopDown.Table
import TopDown.Text.Blank
import TopDown.Text.Case
import TopDown.Text.CaseTable
import TopDown.Text.Csv
import TopDown.Time.Calendar
import TopDown.Time.Instant
import TopDown.Time.Rfc3339
import TopDown.Timeframe
import TopDown.Toml.Document
import TopDown.Toml.Flaw
import TopDown.Toml.Number
import TopDown.Toml.Reader
import TopDown.Toml.Text
import TopDown.Verdict
import TopDown.Proofs.Circle
import TopDown.Proofs.Assembly
import TopDown.Proofs.Clean
import TopDown.Proofs.Completion
import TopDown.Proofs.Passage
import TopDown.Proofs.Load
import TopDown.Proofs.Path
import TopDown.Proofs.Place
import TopDown.Proofs.Meaning
import TopDown.Proofs.Spelling
import TopDown.Proofs.Building
import TopDown.Proofs.Faithful
import TopDown.Proofs.Sections
import TopDown.Proofs.Compile
import TopDown.Proofs.Reading
import TopDown.Proofs.Document
import TopDown.Proofs.Registry
import TopDown.Proofs.Coherence
import TopDown.Proofs.Windows
import TopDown.Proofs.Integrity
import TopDown.Proofs.Selection
import TopDown.Proofs.Circularity
import TopDown.Proofs.Thresholds
import TopDown.Proofs.Share
import TopDown.Proofs.Batch
import TopDown.Proofs.Figures
import TopDown.Proofs.RunName
import TopDown.Proofs.Isolation
import TopDown.Proofs.Replay
import TopDown.Proofs.Transparent
import TopDown.Proofs.Calls
import TopDown.Proofs.Desk
import TopDown.Proofs.Twins
import TopDown.Proofs.Chart
import TopDown.Proofs.Parting
import TopDown.Proofs.InPlace
import TopDown.Proofs.Audit
import TopDown.Proofs.Neutral
import TopDown.Proofs.Origin
import TopDown.Proofs.Arena
import TopDown.Proofs.Filters
import TopDown.Proofs.Force
import TopDown.Proofs.Making
import TopDown.Proofs.Coverage
import TopDown.Proofs.Trail
import TopDown.Proofs.Lookups
import TopDown.Proofs.Lockstep
import TopDown.Proofs.Unused
import TopDown.Proofs.Reads
import TopDown.Proofs.Namesakes
import TopDown.Proofs.Remarks
import TopDown.Proofs.Agreement
import TopDown.Proofs.Rounding
import TopDown.Proofs.Ranks
import TopDown.Proofs.WellFormed
import TopDown.Proofs.Rendering
import TopDown.Proofs.CoolDown
import TopDown.Proofs.Counts
import TopDown.Proofs.Account
import TopDown.Proofs.Lookback
import TopDown.Proofs.Grace
import TopDown.Proofs.Shortfall
import TopDown.Proofs.Columns
import TopDown.Proofs.Snapshot
import TopDown.Proofs.TrueRange
import TopDown.Proofs.Labels
import TopDown.Proofs.Outcomes
import TopDown.Proofs.InEffect
import TopDown.Proofs.Walks
import TopDown.Proofs.Unknown
import TopDown.Proofs.Alignment
import TopDown.Proofs.Mistakes
import TopDown.Proofs.Rows
import TopDown.Proofs.SwitchedOff
import TopDown.Proofs.Canonical
import TopDown.Proofs.Overwriting
import TopDown.Proofs.Registration
import TopDown.Proofs.Worklist
import TopDown.Proofs.Frame
