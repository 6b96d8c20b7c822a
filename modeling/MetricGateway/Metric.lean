import MetricGateway.Binary64.Basic
import MetricGateway.Label.Basic

/-!
# Metrics

A metric is one series: a label set with a value, which is a single number, a histogram or a summary. Numbers are a
parameter of these types, so that the rules of aggregation can be read over doubles and over exact numbers alike. A
metric also knows how many samples it was combined from. Samples are counted in 64 bits, and a sum of counts stays at
the largest count instead of passing it.

A histogram as it was read may list its buckets in any order, repeat bounds and leave out the infinite one.
`Histogram.normalize` sorts the buckets by the total order of their bounds, keeps the first of those with numerically
equal bounds, and adds the infinite bucket, with all samples, if it is missing.
-/

namespace MetricGateway

/-! ## Counts -/

/-- A number of samples. -/
abbrev Count := UInt64

namespace Count

/-- The largest count. -/
def largest : Nat := UInt64.size - 1

/-- The sum of two counts, or the largest count if the sum exceeds it. -/
def add (m n : Count) : Count := UInt64.ofNat (min (m.toNat + n.toNat) largest)

/-- The sum as a number. -/
theorem toNat_add (m n : Count) : (add m n).toNat = min (m.toNat + n.toNat) largest := by
  rw [add, UInt64.toNat_ofNat_of_lt' (by simp only [largest, UInt64.size]; omega)]

end Count

/-! ## Types of metrics -/

/-- The types of metrics that the exposition formats know. -/
inductive MetricType
  | counter
  | gauge
  | histogram
  | summary
  | untyped
  deriving DecidableEq

namespace MetricType

/-- Every type. -/
def all : List MetricType := [counter, gauge, histogram, summary, untyped]

/-- The name of a type in the text format. -/
def name : MetricType → String
  | counter => "counter"
  | gauge => "gauge"
  | histogram => "histogram"
  | summary => "summary"
  | untyped => "untyped"

/-- The name of a type in messages. -/
def title : MetricType → String
  | counter => "COUNTER"
  | gauge => "GAUGE"
  | histogram => "HISTOGRAM"
  | summary => "SUMMARY"
  | untyped => "UNTYPED"

/-- The type of the given name. -/
def ofName? (s : String) : Option MetricType := all.find? (·.name = s)

end MetricType

variable {ν : Type}

/-- The samples of a histogram up to a bound. -/
structure Bucket (ν : Type) where
  upperBound : ν
  cumulativeCount : Count
  deriving DecidableEq

/-- The distribution of samples over buckets. -/
structure Histogram (ν : Type) where
  sampleCount : Count
  sampleSum : ν
  buckets : List (Bucket ν)
  deriving DecidableEq

/-- The value below which a share of the samples lies. -/
structure Quantile (ν : Type) where
  share : ν
  value : ν
  deriving DecidableEq

/-- The distribution of samples by quantiles. -/
structure Summary (ν : Type) where
  sampleCount : Count
  sampleSum : ν
  quantiles : List (Quantile ν)
  deriving DecidableEq

/-- What a series says. -/
inductive MetricValue (ν : Type)
  | counter (v : ν)
  | gauge (v : ν)
  | untyped (v : ν)
  | histogram (h : Histogram ν)
  | summary (s : Summary ν)
  deriving DecidableEq

/-- The type of a value. -/
def MetricValue.type : MetricValue ν → MetricType
  | counter _ => .counter
  | gauge _ => .gauge
  | untyped _ => .untyped
  | histogram _ => .histogram
  | summary _ => .summary

/-- A series: its labels, its value, and the number of samples combined into it. -/
structure Metric (ν : Type) where
  labels : LabelSet
  value : MetricValue ν
  observations : Count := 1
  deriving DecidableEq

/-! ## Normal bucket lists -/

/-- Drops the buckets that have the same bound, numerically, as the last one kept before them. -/
def dropRepeatedBounds (last : Bucket Binary64) : List (Bucket Binary64) → List (Bucket Binary64)
  | [] => []
  | b :: r =>
    if last.upperBound.equals b.upperBound then dropRepeatedBounds last r else b :: dropRepeatedBounds b r

/-- The first bucket of each bound in a sorted list. -/
def distinctBounds : List (Bucket Binary64) → List (Bucket Binary64)
  | [] => []
  | b :: r => b :: dropRepeatedBounds b r

/-- Whether the last bucket has the bound infinity. -/
def endsInfinite (bs : List (Bucket Binary64)) : Bool :=
  bs.getLast?.any fun b => b.upperBound.equals (.infinity false)

/-- Adds the infinite bucket if it is missing. -/
def withInfinite (total : Count) (bs : List (Bucket Binary64)) : List (Bucket Binary64) :=
  if endsInfinite bs then bs else bs ++ [⟨.infinity false, total⟩]

/-- A histogram with its buckets in order, without repeated bounds and with the infinite bucket. -/
def Histogram.normalize (h : Histogram Binary64) : Histogram Binary64 :=
  { h with
    buckets := withInfinite h.sampleCount (distinctBounds (Sorted.sortBy (compareOn Bucket.upperBound) h.buckets)) }

/-- A summary with its quantiles in order. -/
def Summary.normalize (s : Summary Binary64) : Summary Binary64 :=
  { s with quantiles := Sorted.sortBy (compareOn Quantile.share) s.quantiles }

end MetricGateway
