import MetricGateway.Main
import MetricGateway.Proofs.Label.Order
import MetricGateway.Proofs.Label.Canonical
import MetricGateway.Proofs.Family.Validation
import MetricGateway.Proofs.Family.WellFormed
import MetricGateway.Proofs.Table
import MetricGateway.Proofs.Store.Run
import MetricGateway.Proofs.Outcome
import MetricGateway.Proofs.Store.Invariant
import MetricGateway.Proofs.TextFormat.Drafts
import MetricGateway.Proofs.Exposition.Samples
import MetricGateway.Proofs.Store.Ledger
import MetricGateway.Proofs.Store.Refinement
import MetricGateway.Proofs.Gateway.Accounts
import MetricGateway.Proofs.Gateway.Authorization
import MetricGateway.Proofs.Gateway.PathLabels
import MetricGateway.Proofs.Gateway.Attribution
import MetricGateway.Proofs.Binary64.Rounding
import MetricGateway.Proofs.Binary64.Decimal
import MetricGateway.Proofs.Text.Blank
import MetricGateway.Proofs.Appearance
import MetricGateway.Proofs.TextFormat.Escape
import MetricGateway.Proofs.TextFormat.SampleLine
import MetricGateway.Proofs.Metric.Normal
import MetricGateway.Proofs.Text.Numeral
import MetricGateway.Proofs.Binary64.Literal
import MetricGateway.Proofs.Binary64.Count
import MetricGateway.Proofs.Metric.Printed
import MetricGateway.Proofs.Protobuf.Wire
import MetricGateway.Proofs.Protobuf.Message
import MetricGateway.Proofs.Protobuf.Exchange
import MetricGateway.Proofs.TextFormat.Families
import MetricGateway.Proofs.TextFormat.Lines
import MetricGateway.Proofs.TextFormat.Resolve
import MetricGateway.Proofs.TextFormat.MetricLines
import MetricGateway.Proofs.TextFormat.Exchange
import MetricGateway.Proofs.Exposition.Text
import MetricGateway.Proofs.Exposition.Protobuf
import MetricGateway.Proofs.TextFormat.Takeover
import MetricGateway.Proofs.Exposition.Agreement
import MetricGateway.Proofs.Store.Exchange
import MetricGateway.Proofs.Store.Rendering
import MetricGateway.Proofs.Store.Tracking
import MetricGateway.Proofs.Gateway.Expiry
import MetricGateway.Proofs.Metric.Shape
import MetricGateway.Proofs.Store.Shape
import MetricGateway.Proofs.Store.Isolation
import MetricGateway.Proofs.Store.Commit
import MetricGateway.Proofs.Store.Retention
import MetricGateway.Proofs.Rearrangement
import MetricGateway.Proofs.Store.Independence
import MetricGateway.Proofs.Store.Arrivals
import MetricGateway.Proofs.Store.Summaries
import MetricGateway.Proofs.TextFormat.Samples
import MetricGateway.Proofs.TextFormat.Series
import MetricGateway.Proofs.Store.Exposure
import MetricGateway.Proofs.TextFormat.LabelOrder
import MetricGateway.Proofs.TextFormat.Readings
import MetricGateway.Proofs.TextFormat.Gathering
import MetricGateway.Proofs.Store.Reordering
import MetricGateway.Proofs.Gateway.Push
import MetricGateway.Proofs.Gateway.Answers
import MetricGateway.Proofs.Gateway.Report
import MetricGateway.Proofs.Aggregation.Extremes
import MetricGateway.Proofs.Store.Extremes
import MetricGateway.Proofs.TextFormat.Entries
import MetricGateway.Proofs.TextFormat.Belonging
import MetricGateway.Proofs.Label.Identity
import MetricGateway.Proofs.Store.Acceptance
import MetricGateway.Proofs.Text.Words
import MetricGateway.Proofs.Binary64.Characters
import MetricGateway.Proofs.TextFormat.NameEnd
import MetricGateway.Proofs.TextFormat.Spelling
import MetricGateway.Proofs.TextFormat.RepeatedLabels
import MetricGateway.Proofs.Family.Merge
import MetricGateway.Proofs.Aggregation.Grouping
import MetricGateway.Proofs.Aggregation.Histograms
import MetricGateway.Proofs.Metric.Cumulative
import MetricGateway.Proofs.Store.Cumulative
import MetricGateway.Proofs.Exposition.Counts
import MetricGateway.Proofs.Store.Eviction
import MetricGateway.Proofs.Store.Sweeps
import MetricGateway.Proofs.CommandLine.Options
import MetricGateway.Proofs.Gateway.Sweeper
import MetricGateway.Proofs.Aggregation.Aggregates
import MetricGateway.Proofs.Sorted.First
import MetricGateway.Proofs.Text.ByteOrder
import MetricGateway.Proofs.Store.Truncation
import MetricGateway.Proofs.Label.LastWriter
import MetricGateway.Proofs.Protobuf.WellFormed
import MetricGateway.Proofs.Protobuf.Grouping
import MetricGateway.Proofs.MediaRange
import MetricGateway.Proofs.Family.Identity
import MetricGateway.Proofs.Metric.KeptBuckets
import MetricGateway.Proofs.Gateway.PathPairs
import MetricGateway.Proofs.Aggregation.Directive
import MetricGateway.Proofs.Sorted.Bisection
import MetricGateway.Proofs.Label.FiniteMap
import MetricGateway.Proofs.TextFormat.Replacement
import MetricGateway.Proofs.Store.Containment
import MetricGateway.Proofs.Binary64.RoundTrip
