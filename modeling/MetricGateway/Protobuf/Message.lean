import MetricGateway.Binary64.Basic
import MetricGateway.Metric
import MetricGateway.Protobuf.Wire
import MetricGateway.Text.Utf8

/-!
# Messages of metric families

The messages of `io.prometheus.client` in the protobuf format, by the numbers of their fields. The last field of a
number counts, except that all fields of a repeated number count and that the parts of a message that was sent in
several fields are put together. An absent number is zero and an absent text is empty. A field of a known number with
a payload of another kind, and a text that is not UTF-8, make the message unreadable; unknown numbers are skipped.

A metric message holds a part for every type of metric, and the type of the family decides which of them counts.
-/

namespace MetricGateway.Protobuf

/-! ## Payloads -/

/-- A payload that is a varint. -/
def Payload.varint? : Payload → Option Nat
  | varint n => some n
  | _ => none

/-- A payload that is a double. -/
def Payload.double? : Payload → Option Binary64
  | fixed64 n => some ⟨UInt64.ofNat n⟩
  | _ => none

/-- A payload that is a byte string. -/
def Payload.bytes? : Payload → Option (List UInt8)
  | bytes bs => some bs
  | _ => none

/-- A payload that is a text. -/
def Payload.text? (p : Payload) : Option String := p.bytes?.bind fun bs => (Utf8.decode? bs).map String.ofList

/-- A payload that is a message. -/
def Payload.fields? (limit : Nat) (p : Payload) : Option (List Field) := p.bytes?.bind (Protobuf.fields? limit)

/-! ## Fields by number -/

variable {α : Type}

/-- What the fields of a number hold, if all of them hold it. -/
def valuesOf? (get : Payload → Option α) (number : Nat) (fs : List Field) : Option (List α) :=
  (fs.filter (·.number = number)).mapM fun f => get f.payload

/-- What the last field of a number holds, if there is one. -/
def lastOf? (get : Payload → Option α) (number : Nat) (fs : List Field) : Option (Option α) :=
  (valuesOf? get number fs).map List.getLast?

/-- A text, empty if it is absent. -/
def textOf? (number : Nat) (fs : List Field) : Option String := (lastOf? Payload.text? number fs).map (·.getD "")

/-- A double, zero if it is absent. -/
def doubleOf? (number : Nat) (fs : List Field) : Option Binary64 :=
  (lastOf? Payload.double? number fs).map (·.getD .zero)

/-- A count, zero if it is absent. -/
def countOf? (number : Nat) (fs : List Field) : Option Count :=
  (lastOf? Payload.varint? number fs).map fun n => UInt64.ofNat (n.getD 0)

/-- The messages of a repeated field. -/
def messagesOf? (limit : Nat) (read? : List Field → Option α) (number : Nat) (fs : List Field) : Option (List α) :=
  valuesOf? (fun p => (p.fields? limit).bind read?) number fs

/-- A message, put together from its parts. -/
def messageOf? (limit : Nat) (read? : List Field → Option α) (number : Nat) (fs : List Field) : Option α :=
  (valuesOf? (Payload.fields? limit) number fs).bind fun parts => read? parts.flatten

/-! ## Messages -/

/-- In how many messages and groups a field may lie. -/
def nestingLimit : Nat := 100

/-- A label. -/
def readLabel? (fs : List Field) : Option Label := do
  return ⟨← textOf? 1 fs, ← textOf? 2 fs⟩

/-- The value of a counter, a gauge or an untyped metric. -/
def readNumber? (fs : List Field) : Option Binary64 := doubleOf? 1 fs

/-- A quantile. -/
def readQuantile? (fs : List Field) : Option (Quantile Binary64) := do
  return ⟨← doubleOf? 1 fs, ← doubleOf? 2 fs⟩

/-- A bucket. -/
def readBucket? (fs : List Field) : Option (Bucket Binary64) := do
  return { cumulativeCount := ← countOf? 1 fs, upperBound := ← doubleOf? 2 fs }

/-- A summary. -/
def readSummary? (fs : List Field) : Option (Summary Binary64) := do
  return ⟨← countOf? 1 fs, ← doubleOf? 2 fs, ← messagesOf? (nestingLimit - 4) readQuantile? 3 fs⟩

/-- A histogram. -/
def readHistogram? (fs : List Field) : Option (Histogram Binary64) := do
  return ⟨← countOf? 1 fs, ← doubleOf? 2 fs, ← messagesOf? (nestingLimit - 4) readBucket? 3 fs⟩

/-- A metric as it was sent, with a part for every type. -/
structure MetricMessage where
  labels : List Label
  gauge : Binary64
  counter : Binary64
  summary : Summary Binary64
  untyped : Binary64
  histogram : Histogram Binary64

/-- A metric. Its timestamp is checked and forgotten. -/
def MetricMessage.read? (fs : List Field) : Option MetricMessage := do
  let limit := nestingLimit - 3
  let labels ← messagesOf? limit readLabel? 1 fs
  let gauge ← messageOf? limit readNumber? 2 fs
  let counter ← messageOf? limit readNumber? 3 fs
  let summary ← messageOf? limit readSummary? 4 fs
  let untyped ← messageOf? limit readNumber? 5 fs
  let _ ← valuesOf? Payload.varint? 6 fs
  let histogram ← messageOf? limit readHistogram? 7 fs
  return ⟨labels, gauge, counter, summary, untyped, histogram⟩

/-- The whole number of 32 bits, with a sign, that a varint stands for. -/
def signed32 (n : Nat) : Int := (n : Int).bmod UInt32.size

/-- A family as it was sent. -/
structure FamilyMessage where
  name : String
  help : Option String
  type : Int
  metrics : List MetricMessage

/-- A family. -/
def FamilyMessage.read? (fs : List Field) : Option FamilyMessage := do
  let name ← textOf? 1 fs
  let help ← lastOf? Payload.text? 2 fs
  let type ← lastOf? Payload.varint? 3 fs
  let metrics ← messagesOf? (nestingLimit - 2) MetricMessage.read? 4 fs
  return ⟨name, help, signed32 (type.getD 0), metrics⟩

/-- Reads the bytes of a family message. -/
def FamilyMessage.ofBytes? (bytes : List UInt8) : Option FamilyMessage :=
  (Protobuf.fields? (nestingLimit - 1) bytes).bind FamilyMessage.read?

/-- The number of a metric type. -/
def typeCode : MetricType → Nat
  | .counter => 0
  | .gauge => 1
  | .summary => 2
  | .untyped => 3
  | .histogram => 4

/-- The metric type of a number. -/
def typeOfCode? (code : Int) : Option MetricType := MetricType.all.find? fun t => (typeCode t : Int) = code

end MetricGateway.Protobuf
