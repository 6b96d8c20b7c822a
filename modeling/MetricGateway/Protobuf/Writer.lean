import MetricGateway.Family
import MetricGateway.Protobuf.Message

/-!
# Writing families to protobuf

A family is one message behind its length. Every number and every text is written, also a zero and an empty one; only an
absent help is left out. A metric holds the part of its own type.
-/

namespace MetricGateway.Protobuf

/-- A text field. -/
def textField (number : Nat) (s : String) : Field := ⟨number, .bytes (Utf8.bytesOf s)⟩

/-- A double field. -/
def doubleField (number : Nat) (x : Binary64) : Field := ⟨number, .fixed64 x.bits.toNat⟩

/-- A field with a whole number. -/
def countField (number : Nat) (n : Nat) : Field := ⟨number, .varint n⟩

/-- A field with a message. -/
def messageField (number : Nat) (fs : List Field) : Field := ⟨number, .bytes (encode fs)⟩

/-- A label as a message. -/
def labelFields (l : Label) : List Field := [textField 1 l.name, textField 2 l.value]

/-- A bucket as a message. -/
def bucketFields (b : Bucket Binary64) : List Field :=
  [countField 1 b.cumulativeCount.toNat, doubleField 2 b.upperBound]

/-- A quantile as a message. -/
def quantileFields (q : Quantile Binary64) : List Field := [doubleField 1 q.share, doubleField 2 q.value]

/-- The part of a metric that holds its value. -/
def valueField : MetricValue Binary64 → Field
  | .gauge v => messageField 2 [doubleField 1 v]
  | .counter v => messageField 3 [doubleField 1 v]
  | .summary s => messageField 4
      (countField 1 s.sampleCount.toNat :: doubleField 2 s.sampleSum ::
        s.quantiles.map fun q => messageField 3 (quantileFields q))
  | .untyped v => messageField 5 [doubleField 1 v]
  | .histogram h => messageField 7
      (countField 1 h.sampleCount.toNat :: doubleField 2 h.sampleSum ::
        h.buckets.map fun b => messageField 3 (bucketFields b))

/-- A metric as a message. -/
def metricFields (m : Metric Binary64) : List Field :=
  (m.labels.toList.map fun l => messageField 1 (labelFields l)) ++ [valueField m.value]

/-- A family as a message. -/
def familyFields (f : Family) : List Field :=
  textField 1 f.name :: (f.help.map (textField 2)).toList ++ countField 3 (typeCode f.type) ::
    f.metrics.map fun m => messageField 4 (metricFields m)

/-- A family as bytes. -/
def encodeFamily (f : Family) : List UInt8 := delimited (encode (familyFields f))

end MetricGateway.Protobuf
