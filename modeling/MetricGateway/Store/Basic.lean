import MetricGateway.Aggregation
import MetricGateway.Family
import MetricGateway.Label.Basic
import MetricGateway.Table

/-!
# The store

The store holds the merged state of every family pushed so far, and for each push job the time of its last push. A
stored family keeps the rules that were chosen when it was first stored.
-/

namespace MetricGateway

/-- A time, in milliseconds of Unix time. -/
abbrev Instant := Int

/-- A span of time in milliseconds. -/
abbrev Span := Nat

/-- How a store treats pushes. -/
structure StoreOptions where
  /-- Label names that are dropped from every metric. -/
  ignored : IgnoredNames := ⟨[]⟩
  /-- How long the metrics of a silent push job stay, unless they stay forever. -/
  ttl : Option Span := none
  /-- The rule of gauges whose help has no directive. -/
  gaugeRule : GaugeRule := .sum
  untypedRule : UntypedRule := .sum
  /-- The label that names the push job. -/
  jobLabel : String := "job"

/-- A family with the rules by which it is merged. -/
structure StoredFamily where
  family : Family
  policy : AggregationPolicy

/-- Everything pushed so far. -/
structure Store where
  options : StoreOptions
  families : Table StoredFamily := .empty
  /-- The last push of each job. -/
  pushJobs : Table Instant := .empty

namespace Store

/-- The stored family of a name. -/
def family? (s : Store) (name : String) : Option Family := (s.families.get? name).map StoredFamily.family

/-- The number of metrics in each family, by name. -/
def familySizes (s : Store) : List (String × Nat) :=
  s.families.entries.map fun (name, stored) => (name, stored.family.metrics.length)

/-- Every stored metric. -/
def metrics (s : Store) : List (Metric Binary64) := s.families.entries.flatMap fun e => e.2.family.metrics

/-- The number of metrics. -/
def metricCount (s : Store) : Nat := s.metrics.length

end Store
end MetricGateway
