import MetricGateway.Digest.Blake3
import MetricGateway.Label.Basic
import MetricGateway.Text.Utf8

/-!
# Fingerprints of series

A series is identified by the name of its family and its label set. `identityBytes` writes both as bytes, a byte `FF`
behind every name and value; that byte occurs in no UTF-8 text, so different series have different bytes. The
fingerprint is the BLAKE3 digest of those bytes, and exists only if the family and every label have names that the
exposition formats can write.
-/

namespace MetricGateway

/-- What is wrong with a name. -/
inductive NameProblem
  | invalidMetricName
  | emptyLabelName
  | invalidLabelName
  | reservedLabelName
  | reservedForBuckets
  | reservedForQuantiles
  deriving DecidableEq

/-- The wording of a problem. -/
def NameProblem.message : NameProblem → String
  | .invalidMetricName => "invalid metric name"
  | .emptyLabelName => "empty label name"
  | .invalidLabelName => "invalid label name"
  | .reservedLabelName => "reserved label name"
  | .reservedForBuckets => "label name reserved for histogram buckets"
  | .reservedForQuantiles => "label name reserved for summary quantiles"

/-- A label name together with what is wrong with it. -/
structure NameFault where
  name : String
  problem : NameProblem
  deriving DecidableEq

/-- What is wrong with the name of a label, if anything is. -/
def Label.nameFault? (l : Label) : Option NameFault :=
  if l.name = "" then some ⟨l.name, .emptyLabelName⟩
  else if isLabelName l.name then none
  else some ⟨l.name, .invalidLabelName⟩

namespace LabelSet

/-- The first name of a series that cannot be written: that of the family, or else the first such name of a label. -/
def nameFault? (s : LabelSet) (family : String) : Option NameFault :=
  if isMetricName family then s.toList.findSome? Label.nameFault? else some ⟨nameLabel, .invalidMetricName⟩

/-- The byte that ends names and values. -/
def separator : UInt8 := 0xff

/-- A text and the byte that ends it. -/
def separated (s : String) : List UInt8 := Utf8.bytesOf s ++ [separator]

/-- A series as bytes. -/
def identityBytes (s : LabelSet) (family : String) : List UInt8 :=
  separated nameLabel ++ separated family ++ s.toList.flatMap fun l => separated l.name ++ separated l.value

/-- The fingerprint of a series. -/
def fingerprint (s : LabelSet) (family : String) : Except NameFault (List UInt8) :=
  match s.nameFault? family with
  | some fault => .error fault
  | none => .ok (Blake3.hash (s.identityBytes family))

end LabelSet
end MetricGateway
