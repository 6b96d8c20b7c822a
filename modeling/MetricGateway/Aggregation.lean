import MetricGateway.Metric

/-!
# Aggregation

A rule says how two numbers of one series become one, the stored number and the one that comes in. Counters always add
up; gauges and untyped metrics follow a rule of the deployment. A mean is weighted by the numbers of samples behind
both sides. The rules are stated over any type of numbers.

The help text of a family may choose its gauge rule by a *directive*: `<gauge:agg:`, one or more ASCII letters and `>`.
The first well-formed directive counts, whatever stands before it; if its letters name no rule, or if there is no
directive, the rule is the default.

Two metrics of the same type become one: numbers by the rule of the family, histograms bucket by bucket. The samples
behind them add up. Two summaries, or metrics of different types, cannot be combined, and the series is dropped.
-/

namespace MetricGateway

/-! ## Rules -/

/-- How two gauge values of one series are combined. -/
inductive GaugeRule
  | sum
  | max
  | min
  /-- The incoming value. -/
  | last
  /-- The stored value. -/
  | first
  /-- The mean of all samples. -/
  | avg
  deriving DecidableEq

/-- How two untyped values of one series are combined. -/
inductive UntypedRule
  | sum
  | avg
  deriving DecidableEq

namespace GaugeRule

/-- Every rule. -/
def all : List GaugeRule := [sum, max, min, last, first, avg]

/-- The name of a rule. -/
def name : GaugeRule → String
  | sum => "sum"
  | max => "max"
  | min => "min"
  | last => "last"
  | first => "first"
  | avg => "avg"

/-- The rule of a name, in upper or lower case. -/
def ofName? (s : String) : Option GaugeRule := all.find? (·.name.toList = s.toList.map Char.toLower)

end GaugeRule

namespace UntypedRule

/-- Every rule. -/
def all : List UntypedRule := [sum, avg]

/-- The name of a rule. -/
def name : UntypedRule → String
  | sum => "sum"
  | avg => "avg"

/-- The rule of a name, in upper or lower case. -/
def ofName? (s : String) : Option UntypedRule := all.find? (·.name.toList = s.toList.map Char.toLower)

end UntypedRule

/-- The rules of one family. -/
structure AggregationPolicy where
  gauge : GaugeRule := .sum
  untyped : UntypedRule := .sum
  deriving DecidableEq

/-! ## Directives -/

/-- What a directive starts with. -/
def directiveOpening : List Char := "<gauge:agg:".toList

/-- The letters of the directive that a text starts with. -/
def directiveHere? (cs : List Char) : Option (List Char) :=
  match directiveOpening.isPrefixOf? cs with
  | none => none
  | some r =>
    let letters := r.takeWhile Char.isAlpha
    if letters ≠ [] ∧ (r.dropWhile Char.isAlpha).head? = some '>' then some letters else none

/-- The letters of the first directive in a text. -/
def firstDirective? : List Char → Option (List Char)
  | [] => none
  | c :: r => (directiveHere? (c :: r)).or (firstDirective? r)

/-- The gauge rule that a help text chooses. -/
def GaugeRule.ofHelp (help : Option String) (default : GaugeRule) : GaugeRule :=
  match help.bind fun h => firstDirective? h.toList with
  | none => default
  | some letters => (GaugeRule.ofName? (String.ofList letters)).getD default

/-! ## Combining two metrics of one series -/

variable {ν : Type} [Add ν] [Mul ν] [Div ν] [NatCast ν] [LE ν] [DecidableLE ν]

/-- The mean of two means, weighted by the numbers of samples behind them. Without any samples it is the second one. -/
def weightedMean (a : ν) (m : Count) (b : ν) (n : Count) : ν :=
  let total := Count.add m n
  if total = 0 then b else (a * (m.toNat : ν) + b * (n.toNat : ν)) / (total.toNat : ν)

/-- Combines the stored value `a` of `m` samples with the incoming value `b` of `n` samples. -/
def GaugeRule.apply (rule : GaugeRule) (a : ν) (m : Count) (b : ν) (n : Count) : ν :=
  match rule with
  | .sum => a + b
  | .max => if b ≤ a then a else b
  | .min => if a ≤ b then a else b
  | .last => b
  | .first => a
  | .avg => weightedMean a m b n

/-- Combines the stored value `a` of `m` samples with the incoming value `b` of `n` samples. -/
def UntypedRule.apply (rule : UntypedRule) (a : ν) (m : Count) (b : ν) (n : Count) : ν :=
  match rule with
  | .sum => a + b
  | .avg => weightedMean a m b n

variable [Ord ν]

/-- The samples of two buckets with the same bound. -/
def Bucket.combine (a b : Bucket ν) : Bucket ν := ⟨a.upperBound, Count.add a.cumulativeCount b.cumulativeCount⟩

/-- The union of two bucket lists in the order of their bounds. Counts of the same bound add up. -/
def combineBuckets (xs ys : List (Bucket ν)) : List (Bucket ν) :=
  Sorted.unionBy (compareOn Bucket.upperBound) (fun a b => some (a.combine b)) xs ys

/-- The samples of two histograms. -/
def Histogram.combine (a b : Histogram ν) : Histogram ν :=
  ⟨Count.add a.sampleCount b.sampleCount, a.sampleSum + b.sampleSum, combineBuckets a.buckets b.buckets⟩

/-- Combines the stored value `a` of `m` samples with the incoming value `b` of `n` samples. -/
def MetricValue.combine (policy : AggregationPolicy) (a : MetricValue ν) (m : Count) (b : MetricValue ν) (n : Count) :
    Option (MetricValue ν) :=
  match a, b with
  | .counter x, .counter y => some (.counter (x + y))
  | .gauge x, .gauge y => some (.gauge (policy.gauge.apply x m y n))
  | .untyped x, .untyped y => some (.untyped (policy.untyped.apply x m y n))
  | .histogram x, .histogram y => some (.histogram (x.combine y))
  | _, _ => none

/-- Combines a stored metric with an incoming one of the same series. -/
def Metric.combine (policy : AggregationPolicy) (a b : Metric ν) : Option (Metric ν) :=
  (a.value.combine policy a.observations b.value b.observations).map fun v =>
    ⟨a.labels, v, Count.add a.observations b.observations⟩

end MetricGateway
