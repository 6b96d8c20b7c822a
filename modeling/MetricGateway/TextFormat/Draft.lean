import MetricGateway.Appearance
import MetricGateway.Binary64.Basic
import MetricGateway.Family
import MetricGateway.Metric
import MetricGateway.TextFormat.SampleLine

/-!
# Families in the making

While a text is read, each family is a `Draft`: what its comments said and what its samples gave so far. Samples of a
histogram or a summary arrive line by line and are gathered by label set. `resolve` finds the family of a sample: the
names `x_bucket`, `x_sum` and `x_count` belong to `x` if `x` was declared a histogram, and the last two also if it was
declared a summary. A draft becomes a family if it has a type and at least one metric.
-/

namespace MetricGateway.TextFormat

/-- What a sample says about its family. -/
inductive SampleKind
  /-- The value of a metric. -/
  | plain
  | bucket
  | sum
  | count
  | quantile
  deriving DecidableEq

/-- The label that belongs to the sample rather than to its series. -/
def SampleKind.ownLabel? : SampleKind → Option String
  | .bucket => some boundLabel
  | .quantile => some quantileLabel
  | _ => none

/-- What is known of a family. -/
structure Draft where
  help : Option String := none
  type : Option MetricType := none
  /-- Whether a sample was read. -/
  sampled : Bool := false
  metrics : List (Metric Binary64) := []
  histograms : List (LabelSet × Histogram Binary64) := []
  summaries : List (LabelSet × Summary Binary64) := []
  deriving DecidableEq

/-- The families of a text in the order of their first appearance. -/
abbrev Drafts := List (String × Draft)

/-- The type of a family, once it has one. -/
def Drafts.type? (ds : Drafts) (family : String) : Option MetricType :=
  (ds.lookup family).bind Draft.type

/-- The suffixes of sample names and what they stand for. -/
def sampleSuffixes : List (String × SampleKind) := [("_bucket", .bucket), ("_sum", .sum), ("_count", .count)]

/-- Whether the samples of a family of the given type bear a suffix of the given kind. -/
def bearsSuffix (type : Option MetricType) (kind : SampleKind) : Bool :=
  type = some .histogram || type = some .summary && kind != .bucket

/-- The family that a suffix of a sample name leads to. -/
def Drafts.suffixed? (ds : Drafts) (sample : String) (suffix : String × SampleKind) : Option (String × SampleKind) :=
  match suffix.1.toList.isSuffixOf? sample.toList with
  | none => none
  | some base =>
    if bearsSuffix (ds.type? (String.ofList base)) suffix.2 then some (String.ofList base, suffix.2) else none

/-- The family of a sample and what the sample says about it. -/
def Drafts.resolve (ds : Drafts) (sample : String) : String × SampleKind :=
  match sampleSuffixes.findSome? (ds.suffixed? sample) with
  | some found => found
  | none => (sample, if ds.type? sample = some .summary then .quantile else .plain)

/-! ## Adding a sample -/

/-- A histogram before its first sample. -/
def noHistogram : Histogram Binary64 := ⟨0, .zero, []⟩

/-- A summary before its first sample. -/
def noSummary : Summary Binary64 := ⟨0, .zero, []⟩

/-- Changes the histogram of a label set. -/
def Draft.onHistogram (d : Draft) (labels : LabelSet) (f : Histogram Binary64 → Histogram Binary64) : Draft :=
  { d with histograms := Appearance.alter labels noHistogram f d.histograms }

/-- Changes the summary of a label set. -/
def Draft.onSummary (d : Draft) (labels : LabelSet) (f : Summary Binary64 → Summary Binary64) : Draft :=
  { d with summaries := Appearance.alter labels noSummary f d.summaries }

/-- Adds a metric. -/
def Draft.addMetric (d : Draft) (labels : LabelSet) (v : MetricValue Binary64) : Draft :=
  { d with metrics := d.metrics ++ [{ labels, value := v }] }

/-- Adds a sample to a family of the given type, unless the family has no such samples. The number `own` is that of the
label which belongs to the sample. -/
def Draft.add? (d : Draft) (type : MetricType) (kind : SampleKind) (labels : LabelSet) (own value : Binary64) :
    Option Draft :=
  match type, kind with
  | .counter, .plain => some (d.addMetric labels (.counter value))
  | .gauge, .plain => some (d.addMetric labels (.gauge value))
  | .untyped, .plain => some (d.addMetric labels (.untyped value))
  | .histogram, .bucket =>
    some (d.onHistogram labels fun h => { h with buckets := h.buckets ++ [⟨own, value.toCount⟩] })
  | .histogram, .sum => some (d.onHistogram labels fun h => { h with sampleSum := value })
  | .histogram, .count => some (d.onHistogram labels fun h => { h with sampleCount := value.toCount })
  | .summary, .quantile => some (d.onSummary labels fun s => { s with quantiles := s.quantiles ++ [⟨own, value⟩] })
  | .summary, .sum => some (d.onSummary labels fun s => { s with sampleSum := value })
  | .summary, .count => some (d.onSummary labels fun s => { s with sampleCount := value.toCount })
  | _, _ => none

/-- Takes the label that belongs to the sample out of its labels: its number, and the other labels. -/
def takeOwnLabel (s : SampleLine) (name : String) : Except LineFault (Binary64 × List Label) :=
  match s.labels.find? (·.name = name) with
  | none => .error (.missingLabel s.name name)
  | some l =>
    match Binary64.read? l.value.toList with
    | none => .error (.invalidLabelNumber name l.value)
    | some v =>
      if v.isNaN then .error (.invalidLabelNumber name l.value) else .ok (v, s.labels.eraseP (·.name = name))

/-- The number of the label that belongs to the sample, zero if there is none, and the other labels. -/
def splitLabels (s : SampleLine) (kind : SampleKind) : Except LineFault (Binary64 × List Label) :=
  match kind.ownLabel? with
  | none => .ok (.zero, s.labels)
  | some name => takeOwnLabel s name

/-- Adds a sample line to its family. A family without a declared type becomes untyped. -/
def Drafts.addSample (ds : Drafts) (s : SampleLine) : Except LineFault Drafts :=
  let (family, kind) := ds.resolve s.name
  let type := (ds.type? family).getD .untyped
  match splitLabels s kind with
  | .error e => .error e
  | .ok (own, labels) =>
    match LabelSet.ofList? labels with
    | .error r => .error (.repeatedLabel r)
    | .ok labels =>
      let draft := { (ds.lookup family).getD {} with sampled := true, type := some type }
      match draft.add? type kind labels own s.value with
      | none => .error (.unexpectedSample s.name type family)
      | some draft => .ok (Appearance.alter family draft (fun _ => draft) ds)

/-! ## Finishing -/

/-- The metrics of a draft: single numbers first, then histograms, then summaries. -/
def Draft.allMetrics (d : Draft) : List (Metric Binary64) :=
  d.metrics ++ d.histograms.map (fun (labels, h) => { labels, value := .histogram h.normalize }) ++
    d.summaries.map (fun (labels, s) => { labels, value := .summary s.normalize })

/-- The family of a draft. -/
def Draft.family? (name : String) (d : Draft) : Option Family :=
  match d.type with
  | none => none
  | some type =>
    let metrics := d.allMetrics
    if metrics.isEmpty then none else some { name, help := d.help, type, metrics }

/-- The families of a text. -/
def Drafts.families (ds : Drafts) : List Family := ds.filterMap fun (name, d) => d.family? name

end MetricGateway.TextFormat
