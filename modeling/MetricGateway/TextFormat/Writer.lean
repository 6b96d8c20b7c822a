import MetricGateway.Binary64.Notation
import MetricGateway.Family
import MetricGateway.Text.Blank
import MetricGateway.TextFormat.Escape

/-!
# Writing the text format

A family is written line by line: its help if it has one, its type, and the samples of its metrics in order. A metric
with a single number is one sample. A histogram is a sample per bucket, its sum and its count; a summary is a sample
per quantile, its sum and its count. The labels of a sample stand in the order of the label set, the bound or the
quantile last.
-/

namespace MetricGateway.TextFormat

/-- A label in a sample line. -/
def labelText (l : Label) : List Char := l.name.toList ++ '=' :: '"' :: (escapeValue l.value.toList ++ ['"'])

/-- The labels of a sample line in braces, or nothing if there are none. -/
def labelBlock (ls : List Label) : List Char :=
  if ls = [] then [] else '{' :: ([','].intercalate (ls.map labelText) ++ ['}'])

/-- A sample line. -/
def sampleLine (name : String) (ls : List Label) (number : List Char) : List Char :=
  name.toList ++ labelBlock ls ++ ' ' :: (number ++ ['\n'])

/-- The label of a bound or a quantile. -/
def numberLabel (name : String) (x : Binary64) : Label := ⟨name, String.ofList x.text⟩

/-- A count as text. -/
def countText (n : Count) : List Char := digitsOf n.toNat

/-- The sum and the count that end a histogram or a summary. -/
def totalLines (name : String) (labels : LabelSet) (sum : Binary64) (count : Count) : List (List Char) :=
  [sampleLine (name ++ "_sum") labels.toList sum.text, sampleLine (name ++ "_count") labels.toList (countText count)]

/-- The sample lines of a metric. -/
def metricLines (name : String) (m : Metric Binary64) : List (List Char) :=
  match m.value with
  | .counter v | .gauge v | .untyped v => [sampleLine name m.labels.toList v.text]
  | .histogram h =>
    (h.buckets.map fun b =>
      sampleLine (name ++ "_bucket") (m.labels.toList ++ [numberLabel boundLabel b.upperBound])
        (countText b.cumulativeCount)) ++ totalLines name m.labels h.sampleSum h.sampleCount
  | .summary s =>
    (s.quantiles.map fun q =>
      sampleLine name (m.labels.toList ++ [numberLabel quantileLabel q.share]) q.value.text) ++
      totalLines name m.labels s.sampleSum s.sampleCount

/-- A comment line about a family. -/
def commentLine (keyword : String) (name : String) (text : List Char) : List Char :=
  "# ".toList ++ keyword.toList ++ ' ' :: name.toList ++ ' ' :: (text ++ ['\n'])

/-- The help of a family, if it has one. -/
def helpLines (f : Family) : List (List Char) :=
  match f.help with
  | none => []
  | some help => [commentLine "HELP" f.name (escapeHelp help.toList)]

/-- The lines of a family. -/
def familyLines (f : Family) : List (List Char) :=
  helpLines f ++ commentLine "TYPE" f.name f.type.name.toList :: f.metrics.flatMap (metricLines f.name)

end MetricGateway.TextFormat
