import MetricCube.Assignment
import MetricCube.Bytes
import MetricCube.Calendar.Date
import MetricCube.Calendar.DateRange
import MetricCube.Calendar.DateText
import MetricCube.Codec
import MetricCube.Constraint
import MetricCube.Constraint.Cursor
import MetricCube.Count
import MetricCube.Coverage
import MetricCube.Decimal.Double
import MetricCube.Decimal.Shortest
import MetricCube.Digest.Sha256
import MetricCube.Digest.Xxh3
import MetricCube.Dimension.Definition
import MetricCube.Dimension.Partition
import MetricCube.Dimension.Registry
import MetricCube.Fault
import MetricCube.Fetch.Dispatch
import MetricCube.Fetch.Machine
import MetricCube.Fetch.Report
import MetricCube.Fetch.Resolve
import MetricCube.Fetch.Schedule
import MetricCube.Fetch.Script
import MetricCube.Fetch.Source
import MetricCube.Grid
import MetricCube.Json.Numeral
import MetricCube.Json.Reader
import MetricCube.Json.Tree
import MetricCube.Json.Value
import MetricCube.Ordered
import MetricCube.Plan.Item
import MetricCube.Plan.Outcome
import MetricCube.Plan.Planner
import MetricCube.Plan.Trace
import MetricCube.Proofs.Accounting
import MetricCube.Proofs.Alternatives
import MetricCube.Proofs.Assignment
import MetricCube.Proofs.Bytes
import MetricCube.Proofs.Calendar
import MetricCube.Proofs.Canonical
import MetricCube.Proofs.Cells
import MetricCube.Proofs.Clauses
import MetricCube.Proofs.Compact
import MetricCube.Proofs.Completion
import MetricCube.Proofs.Confluence
import MetricCube.Proofs.Conservation
import MetricCube.Proofs.Constraint
import MetricCube.Proofs.Convergence
import MetricCube.Proofs.Coverage
import MetricCube.Proofs.DateText
import MetricCube.Proofs.DateToken
import MetricCube.Proofs.Definition
import MetricCube.Proofs.Delivery
import MetricCube.Proofs.Disclosure
import MetricCube.Proofs.Exclusion
import MetricCube.Proofs.Execution
import MetricCube.Proofs.Families
import MetricCube.Proofs.Folding
import MetricCube.Proofs.Gaps
import MetricCube.Proofs.Grammar
import MetricCube.Proofs.Grid
import MetricCube.Proofs.History
import MetricCube.Proofs.Identity
import MetricCube.Proofs.Interleaving
import MetricCube.Proofs.Items
import MetricCube.Proofs.Machine
import MetricCube.Proofs.Making
import MetricCube.Proofs.Outcome
import MetricCube.Proofs.Partition
import MetricCube.Proofs.Persistence
import MetricCube.Proofs.Prorating
import MetricCube.Proofs.Question
import MetricCube.Proofs.Reading
import MetricCube.Proofs.Rearrangement
import MetricCube.Proofs.Reduction
import MetricCube.Proofs.Refusal
import MetricCube.Proofs.Replanning
import MetricCube.Proofs.Reporting
import MetricCube.Proofs.Rescan
import MetricCube.Proofs.Rounds
import MetricCube.Proofs.Schedule
import MetricCube.Proofs.Screening
import MetricCube.Proofs.Series
import MetricCube.Proofs.SeriesMap
import MetricCube.Proofs.Serving
import MetricCube.Proofs.Soundness
import MetricCube.Proofs.Table
import MetricCube.Proofs.Telemetry
import MetricCube.Proofs.Tiling
import MetricCube.Proofs.Truth
import MetricCube.Proofs.Verdict
import MetricCube.Proofs.Wire
import MetricCube.Question
import MetricCube.Reduction
import MetricCube.Series
import MetricCube.Settings
import MetricCube.Settings.FileTree
import MetricCube.Settings.Toml
import MetricCube.Settings.Toml.Moment
import MetricCube.Settings.Toml.Number
import MetricCube.Settings.Toml.Text
import MetricCube.Signature
import MetricCube.Signature.Wire
import MetricCube.Slice
import MetricCube.Slice.Family
import MetricCube.Store
import MetricCube.Table
import MetricCube.Telemetry
import MetricCube.Text.Blank
import MetricCube.Text.CaseTable
import MetricCube.Text.Digits
import MetricCube.Text.Folding
import MetricCube.Text.Lowercase
import MetricCube.Text.Offset
import MetricCube.Text.Position
import MetricCube.Text.Quoted
import MetricCube.Text.Utf8
