import MetricGateway.Metric
import MetricGateway.Text.Quoted

/-!
# Faults of lines in the text format

What can be wrong with a line, and how it is worded.
-/

namespace MetricGateway.TextFormat

/-- What is wrong with a line. -/
inductive LineFault
  /-- A sample line that does not start with a metric name. -/
  | unnamedSample (line : String)
  | unnamedLabel (metric : String)
  | missingEquals (label : String)
  | missingQuote
  | invalidEscape (c : Char)
  | unterminatedValue
  /-- Neither a comma nor the end of the labels follows a label. -/
  | unseparatedLabel (label : String)
  | missingNumber (metric : String)
  | invalidNumber (text : String)
  | invalidTimestamp (text : String)
  /-- Text after the number and the timestamp. -/
  | surplusText (text : String)
  | invalidMetricName (name : String)
  | secondHelp (name : String)
  | incompleteType
  | unknownType (text : String)
  | typeAfterSamples (name : String)
  | secondType (name : String)
  /-- A sample of a bucket or a quantile without the label that says which. -/
  | missingLabel (sample label : String)
  /-- A bound or a quantile that is no number. -/
  | invalidLabelNumber (label text : String)
  | repeatedLabel (r : RepeatedName)
  /-- A sample that a family of this type does not have. -/
  | unexpectedSample (sample : String) (type : MetricType) (family : String)
  deriving DecidableEq

open Text in
/-- The wording of a fault. -/
def LineFault.message : LineFault → String
  | unnamedSample line => s!"invalid metric name in {quoted line}"
  | unnamedLabel metric => s!"invalid label name for metric {quoted metric}"
  | missingEquals label => s!"expected '=' after label name {quoted label}"
  | missingQuote => "expected '\"' to start a label value"
  | invalidEscape c => "invalid escape sequence '\\" ++ c.toString ++ "'"
  | unterminatedValue => "unterminated label value"
  | unseparatedLabel label => "expected ',' or '\x7d' after label " ++ quoted label
  | missingNumber metric => s!"missing value for metric {quoted metric}"
  | invalidNumber text => s!"invalid value {quoted text}"
  | invalidTimestamp text => s!"invalid timestamp {quoted text}"
  | surplusText text => s!"unexpected {quoted text} after sample value"
  | invalidMetricName name => s!"invalid metric name {quoted name}"
  | secondHelp name => s!"second HELP line for metric name {quoted name}"
  | incompleteType => "TYPE line needs a metric name and a type"
  | unknownType text => s!"unknown metric type {quoted text}"
  | typeAfterSamples name => s!"TYPE line for {quoted name} after its samples"
  | secondType name => s!"second TYPE line for metric name {quoted name}"
  | missingLabel sample label => s!"sample {quoted sample} is missing label {quoted label}"
  | invalidLabelNumber label text => s!"invalid {label} value {quoted text}"
  | repeatedLabel r => r.message
  | unexpectedSample sample type family =>
    s!"unexpected sample {quoted sample} for {type.name} family {quoted family}"

end MetricGateway.TextFormat
