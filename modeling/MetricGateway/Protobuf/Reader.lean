import MetricGateway.Appearance
import MetricGateway.Family
import MetricGateway.Metric
import MetricGateway.ParseFault
import MetricGateway.Protobuf.Message

/-!
# Reading families from protobuf

A payload is a sequence of family messages, each behind its length. Messages of the same name are one family: the
first one fixes its place, its help and its type, and the metrics of all of them follow one another. A message needs a
name and a known type, the label names of a metric must differ, and bounds and quantiles must be numbers.
-/

namespace MetricGateway.Protobuf

/-- The value that the type of a family picks from a metric. -/
def valueOf (family : String) (type : MetricType) (m : MetricMessage) : Except ParseFault (MetricValue Binary64) :=
  match type with
  | .counter => .ok (.counter m.counter)
  | .gauge => .ok (.gauge m.gauge)
  | .untyped => .ok (.untyped m.untyped)
  | .histogram =>
    if m.histogram.buckets.any (·.upperBound.isNaN) then .error (.notANumber family boundLabel)
    else .ok (.histogram m.histogram.normalize)
  | .summary =>
    if m.summary.quantiles.any (·.share.isNaN) then .error (.notANumber family quantileLabel)
    else .ok (.summary m.summary.normalize)

/-- A metric of a family. -/
def metricOf (family : String) (type : MetricType) (m : MetricMessage) : Except ParseFault (Metric Binary64) :=
  match LabelSet.ofList? m.labels with
  | .error r => .error (.repeatedLabel family r)
  | .ok labels => do
    let value ← valueOf family type m
    return { labels, value }

/-- The family that a message describes. -/
def familyOf (m : FamilyMessage) : Except ParseFault Family :=
  if m.name = "" then .error .unnamedFamily
  else
    match typeOfCode? m.type with
    | none => .error (.unknownType m.name m.type)
    | some type => do
      let metrics ← m.metrics.mapM (metricOf m.name type)
      return { name := m.name, help := m.help, type, metrics }

/-- The families of a sequence in the order of their first appearance. -/
abbrev Families := List (String × Family)

/-- Adds the metrics of a family to those of its name. -/
def addFamily (fs : Families) (f : Family) : Except ParseFault Families :=
  match fs.lookup f.name with
  | none => .ok (fs ++ [(f.name, f)])
  | some existing =>
    if existing.type ≠ f.type then .error (.conflictingTypes f.name existing.type f.type)
    else .ok (Appearance.alter f.name existing (fun e => { e with metrics := e.metrics ++ f.metrics }) fs)

/-- Adds the next message of a sequence. -/
def addMessage (fs : Families) : Option (List UInt8) → Except ParseFault Families
  | none => .error .malformed
  | some bytes =>
    match FamilyMessage.ofBytes? bytes with
    | none => .error .malformed
    | some m => do addFamily fs (← familyOf m)

/-- Reads the families of a payload. Families without metrics are left out. -/
def read (payload : List UInt8) : Except ParseFault (List Family) := do
  let fs ← (messages payload).foldlM addMessage []
  return (fs.map Prod.snd).filter (!·.metrics.isEmpty)

end MetricGateway.Protobuf
