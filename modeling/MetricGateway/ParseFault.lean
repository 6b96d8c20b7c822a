import MetricGateway.Text.Utf8
import MetricGateway.TextFormat.Fault

/-!
# Faults of payloads

Why a payload cannot be read. A fault rejects the whole payload.
-/

namespace MetricGateway

/-- What is wrong with a payload. -/
inductive ParseFault
  /-- A text that is not UTF-8. -/
  | notUtf8 (fault : Utf8.Fault)
  /-- A line of a text, counted from one. -/
  | line (number : Nat) (fault : TextFormat.LineFault)
  /-- Bytes that are no sequence of protobuf messages. -/
  | malformed
  | unnamedFamily
  | unknownType (family : String) (code : Int)
  | repeatedLabel (family : String) (r : RepeatedName)
  /-- A bound or a quantile that is no number. -/
  | notANumber (family label : String)
  | conflictingTypes (family : String) (first second : MetricType)
  deriving DecidableEq

/-- What is wrong, in words. -/
def ParseFault.reason : ParseFault → String
  | notUtf8 fault => s!"payload is not valid UTF-8: {fault.message}"
  | line number fault => s!"text format parsing error in line {number}: {fault.message}"
  | malformed => "invalid protobuf payload"
  | unnamedFamily => "metric family without a name"
  | unknownType family code => "metric family '" ++ family ++ s!"' has unknown type {code}"
  | repeatedLabel family r => "metric family '" ++ family ++ s!"': {r.message}"
  | notANumber family label => "metric family '" ++ family ++ s!"': {label} value is NaN"
  | conflictingTypes family first second =>
    "metric family '" ++ family ++ s!"' sent twice with types {first.title} and {second.title}"

/-- The wording of a fault. -/
def ParseFault.message (f : ParseFault) : String := s!"failed to parse metrics: {f.reason}"

end MetricGateway
