import MetricGateway.Store.Basic
import MetricGateway.Text.Utf8

/-!
# The gateway's own metrics

What the gateway reports about itself: the number of stored families, the number of metrics in each, the number of
accepted pushes per job, and the number of metrics that its background sweeps removed. Accepted pushes without a job
count under the empty name.

The first two are gauges, which keep what they are set to until the next report sets them from the store
(`Gauges.observe`). A report is written in the OpenMetrics text format (`SelfMetrics.text`), with the values of labels
as they are.
-/

namespace MetricGateway

/-! ## Gauges -/

/-- The gauges, as the last report set them. -/
structure Gauges where
  totalFamilies : Nat := 0
  metricsByFamily : Table Nat := .empty

namespace Gauges

/-- Sets the gauge of a family. -/
def setFamily (gauges : Gauges) (family : String × Nat) : Gauges :=
  { gauges with metricsByFamily := gauges.metricsByFamily.insert family.1 family.2 }

/-- Sets the total, clears the gauges of the families and sets them anew. -/
def observe (gauges : Gauges) (s : Store) : Gauges :=
  s.familySizes.foldl setFamily { gauges with totalFamilies := s.familySizes.length, metricsByFamily := .empty }

end Gauges

/-! ## Reports -/

/-- The metrics of a report. -/
inductive OwnMetric
  | totalFamilies
  | metricsByFamily
  | metricPushes
  | sweepEvictedMetrics
  deriving DecidableEq

namespace OwnMetric

/-- The metrics in the order in which they are registered. -/
def all : List OwnMetric := [totalFamilies, metricsByFamily, metricPushes, sweepEvictedMetrics]

def name : OwnMetric → String
  | totalFamilies => "prom_agg_gateway_total_families"
  | metricsByFamily => "prom_agg_gateway_metrics_by_family"
  | metricPushes => "prom_agg_gateway_metric_pushes"
  | sweepEvictedMetrics => "prom_agg_gateway_sweep_evicted_metrics"

def help : OwnMetric → String
  | totalFamilies => "Total number of metric families"
  | metricsByFamily => "Metric count by family"
  | metricPushes => "Total number of metric push requests, per job"
  | sweepEvictedMetrics => "Metrics evicted because their push job went stale"

def type : OwnMetric → String
  | totalFamilies | metricsByFamily => "gauge"
  | metricPushes | sweepEvictedMetrics => "counter"

end OwnMetric

/-- A report. -/
structure SelfMetrics where
  totalFamilies : Nat
  metricsByFamily : List (String × Nat)
  pushesByJob : List (String × Nat)
  evictedMetrics : Nat
  deriving DecidableEq

namespace SelfMetrics

/-- A sample with one label, without the name of the metric. -/
def labelled (suffix label : String) (entry : String × Nat) : String :=
  suffix ++ "\x7b" ++ label ++ "=\"" ++ entry.1 ++ "\"\x7d " ++ toString entry.2

/-- The samples of a metric, without its name. -/
def samples (m : SelfMetrics) : OwnMetric → List String
  | .totalFamilies => [" " ++ toString m.totalFamilies]
  | .metricsByFamily => m.metricsByFamily.map (labelled "" "family")
  | .metricPushes => m.pushesByJob.map (labelled "_total" "push_job")
  | .sweepEvictedMetrics => ["_total " ++ toString m.evictedMetrics]

/-- The lines of a metric: its help, its type and its samples. -/
def metricLines (m : SelfMetrics) (x : OwnMetric) : List String :=
  s!"# HELP {x.name} {x.help}." :: s!"# TYPE {x.name} {x.type}" :: (m.samples x).map (x.name ++ ·)

/-- The lines of a report. -/
def lines (m : SelfMetrics) : List String := OwnMetric.all.flatMap m.metricLines ++ ["# EOF"]

/-- The report as text. -/
def text (m : SelfMetrics) : String := String.join (m.lines.map (· ++ "\n"))

end SelfMetrics
end MetricGateway
